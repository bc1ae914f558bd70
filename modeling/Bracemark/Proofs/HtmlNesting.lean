/-
Well nested output.

Whatever a document says, writing it as HTML gives well nested HTML. Each node is markup if
the nodes inside it are: what comes from the text of a document is escaped, and the tags
around it are a matter of the kind of the node. Three things are written as they are, and
must be harmless for it (`Kind.Harmless`): the letters of emphasis, which a form has checked,
the references of named characters, which are from a table, and the number of a figure, which
the walk has put together from numbers. For the same reason the settings must not have markup
in the three texts that are not escaped.
-/
import Bracemark.Proofs.Making
import Bracemark.Proofs.Markup
import Bracemark.Proofs.Walk
import Bracemark.Render

set_option autoImplicit false

namespace Bracemark

open Text Html

/-! ## What is written as it is -/

/-- The settings that are written without being escaped are text. -/
structure Settings.Harmless (s : Settings) : Prop where
  indent : IsText s.indent
  figureLabel : IsText s.figureLabel
  figureSeparator : IsText s.figureSeparator

theorem Settings.harmless_standard : Settings.standard.Harmless :=
  ⟨.of_plain rfl, .of_plain rfl, .of_plain rfl⟩

/-- What an element writes without escaping it is harmless. -/
def Feature.Harmless : Feature → Prop
  | .emphasis tags => ∀ c ∈ tags.toList, c = 'i' ∨ c = 'b' ∨ c = 'u'
  | .entity _ html => IsText html
  | .image f => IsText f.number
  | _ => True

/-- What a node writes without escaping it is harmless. -/
def Kind.Harmless : Kind → Prop
  | .element e => e.feature.Harmless
  | _ => True

theorem Kind.asksOfElements_harmless : AsksOfElements Harmless := by
  intro k hk
  cases k with
  | element e => exact absurd rfl (hk e)
  | _ => trivial

/-! ## Elements that have been read -/

/-- The HTML of a named character is a reference. -/
theorem isText_entity : ∀ e ∈ entities, IsText e.html := by
  have hall : entities.all (fun e =>
      e.html.toList == '&' :: (e.html.toList.drop 1).dropLast ++ [';'] &&
        isReferenceName (e.html.toList.drop 1).dropLast) = true := by
    decide +kernel
  intro e he
  have h := List.all_eq_true.mp hall e he
  rw [Bool.and_eq_true, beq_iff_eq] at h
  exact .of_reference h.1 h.2

theorem Entity.mem_of_ofElementName? {name : String} {e : Entity}
    (h : ofElementName? name = some e) : e ∈ entities := by
  unfold ofElementName? at h
  split at h
  · exact List.mem_of_find?_eq_some h
  · cases h

/-- What a form makes is harmless. -/
theorem Feature.harmless_ofForm? (form : Form) (name : String) (as : Arguments)
    (feature : Feature) (haccepts : form.accepts name = true)
    (h : ofForm? form name as = some feature) : feature.Harmless := by
  cases form with
  | emphasis =>
    cases h
    exact Form.letter_of_isEmphasisName haccepts
  | entity =>
    obtain ⟨e, he, rfl⟩ := Option.map_eq_some_iff.mp h
    exact isText_entity e (Entity.mem_of_ofElementName? he)
  | image =>
    obtain ⟨url, -, rfl⟩ := Option.map_eq_some_iff.mp h
    exact IsText.empty
  | link | get | assign | increment | float | align =>
    obtain ⟨_, -, rfl⟩ := Option.map_eq_some_iff.mp h
    trivial
  | table | cell | caption => cases h
  | _ =>
    cases h
    trivial

/-! ## Elements that the walk has passed -/

theorem isText_joinNumbers {separator : String} (h : IsText separator) (numbers : List Int) :
    IsText (joinNumbers separator numbers) := by
  refine .intercalate h fun s hs => ?_
  obtain ⟨n, -, rfl⟩ := List.mem_map.mp hs
  exact .toString_int n

/-- Coming to a node leaves it harmless. -/
theorem Kind.harmless_enter {s : Settings} (hs : s.Harmless) (c : Context) (children : List Node)
    (k : Kind) (hc : c.settings = s) (hk : k.Harmless) : (k.enter c children).1.Harmless := by
  cases k with
  | element e =>
    obtain ⟨name, as, feature⟩ := e
    cases feature with
    -- The number is written anew; the other two are as they were.
    | image f => exact isText_joinNumbers (hc ▸ hs.figureSeparator) _
    | emphasis tags => exact hk
    | entity plain html => exact hk
    | _ => trivial
  | _ => trivial

/-! ## Lines and attributes -/

theorem isAttributes_class (s : Settings) (name : String) :
    IsAttributes (Context.classAttribute s name) := by
  have hvalue := (IsText.escapeHtml s.classPrefix).append (.escapeHtml name)
  have h := IsAttributes.of_text " class=\"" "class" "" rfl rfl .empty hvalue
  rw [Context.classAttribute]
  simpa only [String.append_assoc] using h

theorem isText_indentFor {s : Settings} (hs : s.Harmless) (l : Layout) :
    IsText (s.indentFor l) := by
  unfold Settings.indentFor
  refine .ite .empty (.join fun t ht => ?_)
  rw [List.eq_of_mem_replicate ht]
  exact hs.indent

theorem isText_lineEnd (l : Layout) : IsText l.lineEnd := by
  unfold Layout.lineEnd
  exact .ite .empty (.of_plain rfl)

/-- An element on a line of its own. -/
theorem isMarkup_line (opening tag closing : String) {before attributes inside after : String}
    (ho : opening = "<" ++ tag) (hc : closing = "</" ++ tag ++ ">")
    (htag : isName tag.toList = true) (hvoid : isVoid tag.toList = false) (hb : IsText before)
    (ha : IsAttributes attributes) (hi : IsMarkup inside) (hafter : IsText after) :
    IsMarkup (before ++ opening ++ attributes ++ ">" ++ inside ++ closing ++ after) := by
  have h := hb.isMarkup.append ((IsMarkup.element opening tag closing ho hc htag hvoid ha hi).append
    hafter.isMarkup)
  simpa only [String.append_assoc] using h

/-- An element whose tags stand on lines of their own. -/
theorem isMarkup_lines (opening tag closing : String) {before attributes after inside : String}
    (ho : opening = "<" ++ tag) (hc : closing = "</" ++ tag ++ ">")
    (htag : isName tag.toList = true) (hvoid : isVoid tag.toList = false) (hb : IsText before)
    (ha : IsAttributes attributes) (hi : IsMarkup inside) (hafter : IsText after) :
    IsMarkup (before ++ opening ++ attributes ++ ">" ++ after ++ inside ++ before ++ closing ++
      after) := by
  have hinside := (hafter.isMarkup.append hi).append hb.isMarkup
  have h := isMarkup_line opening tag closing ho hc htag hvoid hb ha hinside hafter
  simpa only [String.append_assoc] using h

/-! ## Elements -/

theorem isMarkup_emphasized {inner : String} (hi : IsMarkup inner) {tags : List Char}
    (ht : ∀ c ∈ tags, c = 'i' ∨ c = 'b' ∨ c = 'u') : IsMarkup (Feature.emphasized inner tags) := by
  unfold Feature.emphasized
  induction tags generalizing inner with
  | nil => exact hi
  | cons c tags ih =>
    -- The first letter is the innermost element, so the induction goes on around it.
    obtain ⟨hc, ht⟩ := List.forall_mem_cons.mp ht
    rw [List.foldl_cons]
    refine ih ?_ ht
    have hname : isName (String.ofList [c]).toList = true ∧
        isVoid (String.ofList [c]).toList = false := by
      rcases hc with rfl | rfl | rfl <;> exact ⟨rfl, rfl⟩
    have h := IsMarkup.element _ (String.ofList [c]) _ rfl rfl hname.1 hname.2 .empty hi
    simpa only [String.append_empty, String.append_assoc] using h

/-- The name of a heading's tag. -/
theorem isName_heading (level : Int) : isName ("h" ++ toString level).toList = true ∧
    isVoid ("h" ++ toString level).toList = false := by
  have hcons : ("h" ++ toString level).toList = 'h' :: (toString level).toList := by
    rw [String.toList_append]
    rfl
  rw [hcons]
  refine ⟨?_, rfl⟩
  have htail : (toString level).toList.all (fun c => c.isAlphanum || c == '-') = true := by
    refine List.all_eq_true.mpr fun c hc => ?_
    rcases isDigit_or_eq_of_mem_toString level c hc with hdigit | rfl
    · simp [Char.isAlphanum, hdigit]
    · rfl
  simpa [isName] using htail

/-- A declaration of a number in a style sheet. -/
theorem isAttributes_width (n : Nat) {unit last : String} (hlast : last = unit ++ ";\"")
    (hunit : IsText unit) : IsAttributes (" style=\"width: " ++ toString n ++ last) := by
  have hvalue := ((IsText.toString_nat n).append hunit).append (.of_plain (s := ";") rfl)
  have h := IsAttributes.of_text " style=\"width: " "style" "width: " rfl rfl (.of_plain rfl) hvalue
  rw [hlast, show (";\"" : String) = ";" ++ "\"" from rfl]
  simpa only [String.append_assoc] using h

theorem isAttributes_size (size : ImageSize) : IsAttributes size.styleAttribute := by
  cases size with
  | auto => exact .empty
  | pixels n => exact isAttributes_width n rfl (.of_plain (s := "px") rfl)
  | percent n => exact isAttributes_width n rfl (.of_plain (s := "vw") rfl)

/-! ## Figures -/

theorem isMarkup_caption {s : Settings} (hs : s.Harmless) {f : Figure} (hf : IsText f.number)
    {inside : String} (hi : IsMarkup inside) : IsMarkup (f.caption s inside) := by
  unfold Figure.caption
  split
  · exact .empty
  · split
    · have hlabel := ((hs.figureLabel.append (.of_plain (s := " ") rfl)).append hf).append
        (.of_plain (s := ". ") rfl)
      exact (hlabel.isMarkup.append hi).trim
    · exact hi.trim

theorem isMarkup_figure {s : Settings} (hs : s.Harmless) {f : Figure} (hf : IsText f.number)
    (l : Layout) {inside : String} (hi : IsMarkup inside) : IsMarkup (f.html s l inside) := by
  have hcaption := isMarkup_caption hs hf hi
  unfold Figure.html
  dsimp only
  generalize f.caption s inside = caption at *
  have hindent : IsText (if f.inLine then "" else s.indentFor l) :=
    .ite .empty (isText_indentFor hs l)
  have hline : IsText (if f.inLine then "" else l.lineEnd) := .ite .empty (isText_lineEnd l)
  have himage : IsMarkup ("<img" ++ (" src=\"" ++ escapeHtml f.url ++ "\"" ++
      f.size.styleAttribute) ++ ">") :=
    .void "<img" "img" rfl rfl rfl ((IsAttributes.of_text " src=\"" "src" "" rfl rfl .empty
      (.escapeHtml f.url)).append (isAttributes_size f.size))
  have hfigcaption : IsMarkup (if caption = "" then "" else
      "<figcaption" ++ f.size.styleAttribute ++ ">" ++ caption ++ "</figcaption>") := by
    split
    · exact .empty
    · exact .element "<figcaption" "figcaption" "</figcaption>" rfl rfl rfl rfl
        (isAttributes_size f.size) hcaption
  have h := isMarkup_line "<figure" "figure" "</figure>" rfl rfl rfl rfl
    hindent (isAttributes_class s "image") (himage.append hfigcaption) hline
  -- The end of one tag and the beginning of the next are written as one text.
  rw [show ("><img src=\"" : String) = ">" ++ ("<img" ++ " src=\"") from rfl]
  simpa only [String.append_assoc] using h

/-! ## Elements -/

/-- The value of a style attribute that ends with a semicolon. -/
theorem isAttributes_style (opening first : String) {value last : String}
    (ho : opening = " " ++ "style" ++ "=\"" ++ first) (hlast : last = ";\"")
    (hfirst : IsText first) (hvalue : IsText value) : IsAttributes (opening ++ value ++ last) := by
  have h := IsAttributes.of_text opening "style" first ho rfl hfirst
    (hvalue.append (.of_plain (s := ";") rfl))
  rw [hlast, show (";\"" : String) = ";" ++ "\"" from rfl]
  simpa only [String.append_assoc] using h

theorem isText_styleCss (style : Style) : IsText style.css := by
  cases style <;> exact .of_plain rfl

theorem isText_sideCss (side : FloatSide) : IsText side.css := by
  cases side <;> exact .of_plain rfl

theorem isText_alignCss (side : TextAlign) : IsText side.css := by
  cases side <;> exact .of_plain rfl

/-- **An element is markup** if its content is. -/
theorem Feature.isMarkup_html {c : Context} (hs : c.settings.Harmless) {n : Node}
    {inside : String} (hi : IsMarkup inside) {feature : Feature} (hf : feature.Harmless) :
    IsMarkup (feature.html c n inside) := by
  have hindent := isText_indentFor hs n.layout
  have hline := isText_lineEnd n.layout
  have hclass := isAttributes_class c.settings
  cases feature with
  | emphasis tags => exact isMarkup_emphasized hi hf
  | lineBreak =>
    have hbreak : IsMarkup "<br>" := .void "<br" "br" rfl rfl rfl .empty
    exact hi.append hbreak
  | paragraph =>
    exact isMarkup_line "<p" "p" "</p>" rfl rfl rfl rfl hindent (hclass _) hi.trim hline
  | heading h =>
    obtain ⟨hname, hvoid⟩ := isName_heading (htmlLevel h.shownLevel)
    have htitle : IsAttributes (if h.shownLevel = 0 then
        Context.classAttribute c.settings "title" else "") := .ite (hclass _) .empty
    have h := isMarkup_line ("<" ++ ("h" ++ toString (htmlLevel h.shownLevel))) _ _ rfl rfl hname
      hvoid hindent htitle ((IsText.escapeHtml h.label).isMarkup.append hi.trim) hline
    unfold html
    dsimp only
    simpa only [String.append_assoc] using h
  | division start =>
    exact isMarkup_lines "<section" "section" "</section>" rfl rfl rfl rfl hindent (hclass _) hi
      hline
  | list l =>
    have htag : isName (if l.style.isOrdered then "ol" else "ul").toList = true ∧
        isVoid (if l.style.isOrdered then "ol" else "ul").toList = false := by
      split <;> exact ⟨rfl, rfl⟩
    have hstyle := isAttributes_style " style=\"list-style-type: " "list-style-type: " rfl rfl
      (.of_plain rfl) (isText_styleCss l.style)
    have hstart : IsAttributes (if l.start ≠ 1 ∧ l.style.isOrdered = true then
        " start=\"" ++ toString l.start ++ "\"" else "") :=
      .ite (.of_text " start=\"" "start" "" rfl rfl .empty (.toString_int l.start)) .empty
    have h := isMarkup_lines _ (if l.style.isOrdered then "ol" else "ul") _ rfl rfl htag.1 htag.2
      hindent ((hclass "list").append (hstyle.append hstart)) hi hline
    unfold html
    dsimp only
    simpa only [String.append_assoc] using h
  | item i =>
    exact isMarkup_line "<li" "li" "</li>" rfl rfl rfl rfl hindent (hclass _) hi.trim hline
  | link url =>
    have hshown : IsMarkup (if n.children.isEmpty then escapeHtml url else inside) := by
      split
      · exact (IsText.escapeHtml url).isMarkup
      · exact hi
    have hhref := IsAttributes.of_text " href=\"" "href" "" rfl rfl .empty (.escapeHtml url)
    have h := IsMarkup.element "<a" "a" "</a>" rfl rfl rfl rfl hhref hshown
    unfold html
    dsimp only
    rw [show ("<a href=\"" : String) = "<a" ++ " href=\"" from rfl,
      show ("\">" : String) = "\"" ++ ">" from rfl]
    simpa only [String.append_assoc] using h
  | get name value => exact (IsText.escapeHtml _).isMarkup
  | assign name => exact .empty
  | increment name => exact .empty
  | entity plain html => exact hf.isMarkup
  | code =>
    exact isMarkup_line "<pre" "pre" "</pre>" rfl rfl rfl rfl hindent (hclass _)
      (IsText.escapeHtml _).isMarkup hline
  | float side clear =>
    have hclear : IsText (if clear = true then " clear: both;" else "") :=
      .ite (.of_plain rfl) .empty
    have hstyle := IsAttributes.of_text " style=\"float: " "style" "float: " rfl rfl (.of_plain rfl)
      (((isText_sideCss side).append (.of_plain (s := ";") rfl)).append hclear)
    have h := isMarkup_lines "<div" "div" "</div>" rfl rfl rfl rfl hindent
      ((hclass "float").append hstyle) hi hline
    unfold html
    dsimp only
    rw [show ("\">" : String) = "\"" ++ ">" from rfl]
    simpa only [String.append_assoc] using h
  | align side =>
    have hstyle := isAttributes_style " style=\"text-align: " "text-align: " rfl rfl
      (.of_plain rfl) (isText_alignCss side)
    have h := isMarkup_lines "<div" "div" "</div>" rfl rfl rfl rfl hindent
      ((hclass "align").append hstyle) hi hline
    unfold html
    dsimp only
    rw [show (";\">" : String) = ";\"" ++ ">" from rfl]
    simpa only [String.append_assoc] using h
  | image f => exact isMarkup_figure hs hf n.layout hi

/-! ## Tables -/

/-- The number of rows or columns that a cell spans. -/
theorem isAttributes_span (name : String) (n : Nat) (hname : isName name.toList = true) :
    IsAttributes (if 1 < n then " " ++ name ++ "=\"" ++ toString n ++ "\"" else "") := by
  have h := IsAttributes.of_text (" " ++ name ++ "=\"") name "" (by rw [String.append_empty])
    hname .empty (.toString_nat n)
  exact .ite h .empty

theorem isText_edge {name : String} (hname : IsText name) (b : Border) :
    IsText ("border-" ++ name ++ ": " ++ b.css) := by
  have hcss : IsText b.css := by cases b <;> exact .of_plain rfl
  exact (((IsText.of_plain (s := "border-") rfl).append hname).append
    (.of_plain (s := ": ") rfl)).append hcss

theorem isText_declarations (f : CellFormat) : ∀ d ∈ f.declarations, IsText d := by
  intro d hd
  simp only [CellFormat.declarations, List.mem_append, Option.mem_toList, Option.map_eq_some_iff]
    at hd
  rcases hd with (((⟨b, -, rfl⟩ | ⟨b, -, rfl⟩) | ⟨b, -, rfl⟩) | ⟨b, -, rfl⟩) | ⟨a, -, rfl⟩
  · exact isText_edge (.of_plain rfl) b
  · exact isText_edge (.of_plain rfl) b
  · exact isText_edge (.of_plain rfl) b
  · exact isText_edge (.of_plain rfl) b
  · have hcss : IsText a.css := by cases a <;> exact .of_plain rfl
    exact (IsText.of_plain (s := "text-align: ") rfl).append hcss

theorem isAttributes_cell (cell : Cell) (g : Grid) : IsAttributes (cell.attributes g) := by
  have hstyle : IsAttributes (if (g.cellFormat cell.box).declarations.isEmpty then "" else
      " style=\"" ++ "; ".intercalate (g.cellFormat cell.box).declarations ++ ";\"") :=
    .ite .empty (isAttributes_style " style=\"" "" rfl rfl .empty
      (.intercalate (.of_plain rfl) (isText_declarations _)))
  exact ((isAttributes_span "rowspan" cell.box.rowspan rfl).append
    (isAttributes_span "colspan" cell.box.colspan rfl)).append hstyle

theorem isMarkup_cell (cell : Cell) (t : Table) (role : Role) {inside : String}
    (hi : IsMarkup inside) : IsMarkup (cell.html t role inside) := by
  have htag : isName (if role = .head then "th" else "td").toList = true ∧
      isVoid (if role = .head then "th" else "td").toList = false := by
    split <;> exact ⟨rfl, rfl⟩
  have h := IsMarkup.element _ (if role = .head then "th" else "td") _ rfl rfl htag.1 htag.2
    (isAttributes_cell cell t.grid) hi
  unfold Cell.html
  simpa only [String.append_assoc] using h

theorem isName_htmlTag (role : Role) : isName role.htmlTag.toList = true ∧
    isVoid role.htmlTag.toList = false := by
  cases role <;> exact ⟨rfl, rfl⟩

/-! ## Nodes -/

namespace Node

variable {c : Context}

mutual

/-- **A node is markup**, by induction over the tree. -/
theorem isMarkup_html (hs : c.settings.Harmless) :
    ∀ {n : Node}, n.EveryKind Kind.Harmless → IsMarkup (n.html c)
  | .mk span k children l, h => by
    have hinside := isMarkup_htmlAll hs h.children
    have hkind := h.kind
    have hindent := isText_indentFor hs l
    have hline := isText_lineEnd l
    have hclass := isAttributes_class c.settings
    cases k with
    | text s => exact (IsText.escapeHtml s).isMarkup
    | gap => exact (IsText.of_plain (s := "\n") rfl).isMarkup
    | unknown closed =>
      have hclosing : IsText (if closed then "\x7d" else "") := .ite (.of_plain rfl) .empty
      exact ((IsText.of_plain (s := "\x7b") rfl).isMarkup.append hinside).append
        hclosing.isMarkup
    | paragraph =>
      exact isMarkup_line "<p" "p" "</p>" rfl rfl rfl rfl hindent (hclass _) hinside.trim hline
    | element e => exact Feature.isMarkup_html hs hinside hkind
    | table t =>
      exact isMarkup_lines "<table" "table" "</table>" rfl rfl rfl rfl hindent (hclass _)
        (isMarkup_htmlTable hs t h.children) hline
    | _ => exact hinside

theorem isMarkup_htmlAll (hs : c.settings.Harmless) :
    ∀ {ns : List Node}, AllKinds Kind.Harmless ns → IsMarkup (htmlAll c ns)
  | [], _ => .empty
  | n :: ns, h => by
    obtain ⟨hn, hns⟩ := allKinds_cons.mp h
    exact (isMarkup_html hs hn).append (isMarkup_htmlAll hs hns)

theorem isMarkup_htmlTable (hs : c.settings.Harmless) (t : Table) :
    ∀ {ns : List Node}, AllKinds Kind.Harmless ns → IsMarkup (htmlTable c t ns)
  | [], _ => .empty
  | .mk span k children l :: ns, h => by
    obtain ⟨hn, hns⟩ := allKinds_cons.mp h
    have hrest := isMarkup_htmlTable hs t hns
    have hindent := isText_indentFor hs l
    have hline := isText_lineEnd l
    cases k with
    | caption =>
      have hinside := (isMarkup_htmlAll hs hn.children).trim
      have h := isMarkup_line "<caption" "caption" "</caption>" rfl rfl rfl rfl hindent .empty
        ((IsText.escapeHtml (t.label c.settings)).isMarkup.append hinside) hline
      rw [htmlTable, show ("<caption>" : String) = "<caption" ++ ">" from rfl]
      simpa only [String.append_assoc, String.empty_append, children_mk] using h.append hrest
    | tableSection role =>
      obtain ⟨hname, hvoid⟩ := isName_htmlTag role
      have h := isMarkup_lines _ role.htmlTag _ rfl rfl hname hvoid hindent .empty
        (isMarkup_htmlGroups hs t role hn.children) hline
      rw [htmlTable]
      simpa only [String.append_assoc, String.empty_append, children_mk] using h.append hrest
    | _ => exact hrest

theorem isMarkup_htmlGroups (hs : c.settings.Harmless) (t : Table) (role : Role) :
    ∀ {ns : List Node}, AllKinds Kind.Harmless ns → IsMarkup (htmlGroups c t role ns)
  | [], _ => .empty
  | .mk span k rows l :: ns, h => by
    obtain ⟨hn, hns⟩ := allKinds_cons.mp h
    exact (isMarkup_htmlRows hs t role hn.children).append (isMarkup_htmlGroups hs t role hns)

theorem isMarkup_htmlRows (hs : c.settings.Harmless) (t : Table) (role : Role) :
    ∀ {ns : List Node}, AllKinds Kind.Harmless ns → IsMarkup (htmlRows c t role ns)
  | [], _ => .empty
  | .mk span k cells l :: ns, h => by
    obtain ⟨hn, hns⟩ := allKinds_cons.mp h
    have h := isMarkup_line "<tr" "tr" "</tr>" rfl rfl rfl rfl (isText_indentFor hs l) .empty
      (isMarkup_htmlCells hs t role hn.children) (isText_lineEnd l)
    have hrest := isMarkup_htmlRows hs t role hns
    rw [htmlRows, show ("<tr>" : String) = "<tr" ++ ">" from rfl]
    simpa only [String.append_assoc, String.empty_append, children_mk] using h.append hrest

theorem isMarkup_htmlCells (hs : c.settings.Harmless) (t : Table) (role : Role) :
    ∀ {ns : List Node}, AllKinds Kind.Harmless ns → IsMarkup (htmlCells c t role ns)
  | [], _ => .empty
  | .mk span k children l :: ns, h => by
    obtain ⟨hn, hns⟩ := allKinds_cons.mp h
    have hrest := isMarkup_htmlCells hs t role hns
    cases k with
    | cell cell =>
      exact (isMarkup_cell cell t role (isMarkup_htmlAll hs hn.children)).append hrest
    | _ => exact hrest

end

end Node

/-! ## Documents -/

namespace Document

/-- The tree of a document is harmless before it is prepared and afterwards. -/
theorem harmless_prepare {s : Settings} (hs : s.Harmless) (forms : Catalog) (source : String)
    {c d : Context} (hc : c.settings = s) {m : Node}
    (h : (read forms source).root.prepare c = .ok (m, d)) : m.EveryKind Kind.Harmless := by
  have hread : (read forms source).root.EveryKind Kind.Harmless :=
    everyKind_read Kind.asksOfElements_harmless
      (fun form name as feature => Feature.harmless_ofForm? form name as feature) forms source
  exact Node.everyKind_prepare (fun c children k => Kind.harmless_enter hs c children k) hc hread h

/-- **HTML output is well nested and escaped.** Any source, read with the forms of any
catalogue, can be written as HTML with the settings where nothing else is chosen, and what is
written is made of character data and tags that are closed in their order. Neither text nor an
argument can begin or end a tag, and every ampersand begins a reference. -/
theorem render_wellNested (forms : Catalog) (source : String) :
    ∃ html d, (read forms source).render .html .standard = .ok (html, d) ∧ WellNested html := by
  obtain ⟨m, c, hm, hc⟩ :=
    Node.prepare_restores (Context.start .html .standard).reset (read forms source).root
  have hharmless := harmless_prepare Settings.harmless_standard forms source rfl hm
  have htarget : c.reset.target = .html := hc.target
  have hsettings : c.reset.settings = .standard := hc.settings
  refine ⟨m.html c.reset, { read forms source with root := m }, ?_, ?_⟩
  · simp only [render, Context.run, hm, bind, Except.bind, pure, Except.pure, Context.write,
      htarget]
  · exact (Node.isMarkup_html (hsettings ▸ Settings.harmless_standard) hharmless).wellNested

end Document

end Bracemark
