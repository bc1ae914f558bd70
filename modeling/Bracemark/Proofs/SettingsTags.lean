/-
Settings and tags.

The texts that settings give come to be written in many places: in the classes of elements, in
headings and captions, and through variables wherever a document shows these. Nevertheless the
HTML that is written with other settings has the same tags, as long as the settings are alike
(`Document.render_sameTags`): both number figures or neither does, they indent in the same way,
and the separator of lists is white space in both or in neither. In the places where the texts are
escaped nothing else is asked of them. They are not escaped in the captions of figures, where
they must not have the character that begins a tag, nor in the class of what the command puts
around a document, where they must not have the one that ends the value.

The proof goes along the tree that the two walks have prepared, which is the same but for texts
(`Node.alike_html`).
-/
import Bracemark.Proofs.OtherSettings
import Bracemark.CommandLine

set_option autoImplicit false

namespace Bracemark

open Text Html

/-! ## Lines and attributes -/

section

variable {s t : Settings} {c d : Context}

theorem Settings.Alike.indentFor (hs : s.Alike t) (l : Layout) :
    Html.Alike (s.indentFor l) (t.indentFor l) := by
  have hless : '<' ∉ s.indent.toList := by
    intro hmem
    cases List.all_eq_true.mp hs.blankIndent _ hmem
  have hsame : t.indentFor l = s.indentFor l := by
    simp only [Settings.indentFor, hs.indent]
  have hindent : '<' ∉ (s.indentFor l).toList := by
    unfold Settings.indentFor
    split
    · exact List.not_mem_nil
    · induction l.depth with
      | zero => exact List.not_mem_nil
      | succ n ih =>
        rw [List.replicate_succ, String.join_cons, String.toList_append, List.mem_append, not_or]
        exact ⟨hless, ih⟩
  rw [hsame]
  exact .of_text hindent hindent rfl

theorem sameAttributes_class (s t : Settings) (name : String) :
    SameAttributes (Context.classAttribute s name) (Context.classAttribute t name) := by
  have hquotes : ∀ s : Settings, '"' ∉ (escapeHtml s.classPrefix ++ escapeHtml name).toList :=
    fun s => ((IsText.escapeHtml s.classPrefix).append (.escapeHtml name)).quote_not_mem
  have h := SameAttributes.single " class=\"" "class" rfl rfl (hquotes s) (hquotes t)
  rw [Context.classAttribute, Context.classAttribute]
  simpa only [String.append_assoc] using h

/-! ## Elements -/

theorem alike_emphasized {inner inner' : String} (hi : Html.Alike inner inner') {tags : List Char}
    (ht : ∀ c ∈ tags, c = 'i' ∨ c = 'b' ∨ c = 'u') :
    Html.Alike (Feature.emphasized inner tags) (Feature.emphasized inner' tags) := by
  unfold Feature.emphasized
  induction tags generalizing inner inner' with
  | nil => exact hi
  | cons c tags ih =>
    obtain ⟨hc, ht⟩ := List.forall_mem_cons.mp ht
    rw [List.foldl_cons, List.foldl_cons]
    refine ih ?_ ht
    have hname : isName (String.ofList [c]).toList = true := by
      rcases hc with rfl | rfl | rfl <;> rfl
    have h := Html.Alike.element _ (String.ofList [c]) _ rfl rfl hname .empty hi.tags
    simpa only [String.append_empty, String.append_assoc] using h

/-- Captions are left out together, and otherwise they have the same tags. -/
theorem alike_caption (hs : s.Alike t) (f : Figure) {number number' inside inside' : String}
    (hnumber : s.showFigureNumbers = true → '<' ∉ number.toList ∧ '<' ∉ number'.toList)
    (hi : Html.Alike inside inside') :
    Html.Alike (Figure.caption { f with number } s inside)
      (Figure.caption { f with number := number' } t inside') := by
  unfold Figure.caption
  dsimp only
  rw [hs.showFigureNumbers]
  split
  · exact .empty
  · split
    · next hshown =>
      obtain ⟨-, hnumbered⟩ := Bool.and_eq_true_iff.mp hshown
      have htexts := hs.figureTexts hnumbered
      have hlabel : SameTags s.figureLabel t.figureLabel :=
        .of_text (htexts _ (by simp)) (htexts _ (by simp))
      obtain ⟨hless, hless'⟩ := hnumber hnumbered
      have hnumbers : SameTags number number' := .of_text hless hless'
      have hspace : SameTags " " " " := .of_text (by decide) (by decide)
      have hstop : SameTags ". " ". " := .of_text (by decide) (by decide)
      refine ⟨((((hlabel.append hspace).append hnumbers).append hstop).append hi.tags).trim, ?_⟩
      -- Whatever the label and the title are, there is a full stop between them.
      have hsolid : isBlankText ". " = false := rfl
      simp only [isBlankText_trim, isBlankText_append, hsolid, Bool.and_false, Bool.false_and]
    · exact hi.trim

/-- A caption is trimmed, so there is something in it unless it is empty. -/
theorem Figure.caption_eq_empty_iff (f : Figure) (s : Settings) (inside : String) :
    f.caption s inside = "" ↔ isBlankText (f.caption s inside) = true := by
  unfold caption
  split
  · exact iff_of_true rfl rfl
  · split <;> rw [isBlankText_trim, trim_eq_empty_iff]

theorem alike_figure (hs : s.Alike t) (f : Figure) {number number' inside inside' : String}
    (hnumber : s.showFigureNumbers = true → '<' ∉ number.toList ∧ '<' ∉ number'.toList)
    (l : Layout) (hi : Html.Alike inside inside') :
    Html.Alike (Figure.html { f with number } s l inside)
      (Figure.html { f with number := number' } t l inside') := by
  have hcaption := alike_caption hs f hnumber hi
  have hempty : Figure.caption { f with number } s inside = "" ↔
      Figure.caption { f with number := number' } t inside' = "" := by
    rw [Figure.caption_eq_empty_iff, Figure.caption_eq_empty_iff, hcaption.blank]
  unfold Figure.html
  dsimp only
  generalize Figure.caption { f with number } s inside = caption at *
  generalize Figure.caption { f with number := number' } t inside' = caption' at *
  have hindent : Html.Alike (if f.inLine then "" else s.indentFor l)
      (if f.inLine then "" else t.indentFor l) := by
    split
    · exact .empty
    · exact hs.indentFor l
  have hline : Html.Alike (if f.inLine then "" else l.lineEnd)
      (if f.inLine then "" else l.lineEnd) := .text (.ite .empty (isText_lineEnd l))
  have hsize := SameAttributes.refl (isAttributes_size f.size)
  have himage : SameTags ("<img" ++ (" src=\"" ++ escapeHtml f.url ++ "\"" ++
      f.size.styleAttribute) ++ ">") ("<img" ++ (" src=\"" ++ escapeHtml f.url ++ "\"" ++
      f.size.styleAttribute) ++ ">") :=
    (Html.Alike.opening "<img" "img" rfl rfl ((SameAttributes.refl (.of_text " src=\"" "src" ""
      rfl rfl .empty (.escapeHtml f.url))).append hsize)).tags
  have hfigcaption : SameTags
      (if caption = "" then "" else
        "<figcaption" ++ f.size.styleAttribute ++ ">" ++ caption ++ "</figcaption>")
      (if caption' = "" then "" else
        "<figcaption" ++ f.size.styleAttribute ++ ">" ++ caption' ++ "</figcaption>") := by
    by_cases hnone : caption = ""
    · rw [if_pos hnone, if_pos (hempty.mp hnone)]
      exact Html.Alike.empty.tags
    · rw [if_neg hnone, if_neg (mt hempty.mpr hnone)]
      exact (Html.Alike.element "<figcaption" "figcaption" "</figcaption>" rfl rfl rfl hsize
        hcaption.tags).tags
  have h := Html.Alike.line "<figure" "figure" "</figure>" rfl rfl rfl hindent
    (sameAttributes_class s t "image") (himage.append hfigcaption) hline
  -- The end of one tag and the beginning of the next are written as one text.
  rw [show ("><img src=\"" : String) = ">" ++ ("<img" ++ " src=\"") from rfl]
  simpa only [String.append_assoc] using h

/-- **An element has the same tags** with other settings if its content has. -/
theorem Feature.alike_html (hs : s.Alike t) (hc : c.settings = s) (hd : d.settings = t)
    {n n' : Node} (hlayout : n.layout = n'.layout)
    (hempty : n.children.isEmpty = n'.children.isEmpty) {inside inside' : String}
    (hi : Html.Alike inside inside') {f f' : Feature} (hf : f.Alike s.showFigureNumbers f') :
    Html.Alike (f.html c n inside) (f'.html d n' inside') := by
  have hindent := hs.indentFor n'.layout
  have hline := Html.Alike.text (isText_lineEnd n'.layout)
  have hclass := sameAttributes_class s t
  subst hc hd
  cases hf with
  | @heading h h' hlevel =>
    obtain ⟨hname, -⟩ := isName_heading (htmlLevel h'.shownLevel)
    have htitle : SameAttributes
        (if h'.shownLevel = 0 then Context.classAttribute c.settings "title" else "")
        (if h'.shownLevel = 0 then Context.classAttribute d.settings "title" else "") := by
      split
      · exact hclass _
      · exact .empty
    have h := Html.Alike.line ("<" ++ ("h" ++ toString (htmlLevel h'.shownLevel))) _ _ rfl rfl hname
      hindent htitle ((SameTags.escaped h.label h'.label).append hi.tags.trim) hline
    simp only [html, hlayout, hlevel]
    simpa only [String.append_assoc] using h
  | item i i' =>
    simp only [html, hlayout]
    exact .line "<li" "li" "</li>" rfl rfl rfl hindent (hclass _) hi.tags.trim hline
  | get name hvalue => exact .escaped hvalue
  | image f hnumber =>
    simp only [html, hlayout]
    exact alike_figure hs f hnumber n'.layout hi
  | same hharmless hsame =>
    -- The walk has written nothing into these, so their own texts are the same.
    cases f with
    | heading | item | get | image => cases hsame
    | emphasis tags => exact alike_emphasized hi hharmless
    | lineBreak =>
      have hbreak : Html.Alike "<br>" "<br>" := .opening "<br" "br" rfl rfl .empty
      exact hi.append hbreak
    | paragraph =>
      simp only [html, hlayout]
      exact .line "<p" "p" "</p>" rfl rfl rfl hindent (hclass _) hi.tags.trim hline
    | division start =>
      simp only [html, hlayout]
      exact .lines "<section" "section" "</section>" rfl rfl rfl hindent (hclass _) hi.tags hline
    | list l =>
      have htag : isName (if l.style.isOrdered then "ol" else "ul").toList = true := by
        split <;> rfl
      have hstyle := SameAttributes.refl (isAttributes_style " style=\"list-style-type: "
        "list-style-type: " rfl rfl (.of_plain rfl) (isText_styleCss l.style))
      have hstart : SameAttributes (if l.start ≠ 1 ∧ l.style.isOrdered = true then
          " start=\"" ++ toString l.start ++ "\"" else "")
          (if l.start ≠ 1 ∧ l.style.isOrdered = true then
          " start=\"" ++ toString l.start ++ "\"" else "") :=
        .refl (.ite (.of_text " start=\"" "start" "" rfl rfl .empty (.toString_int l.start)) .empty)
      have h := Html.Alike.lines _ (if l.style.isOrdered then "ol" else "ul") _ rfl rfl htag
        hindent ((hclass "list").append (hstyle.append hstart)) hi.tags hline
      simp only [html, hlayout]
      simpa only [String.append_assoc] using h
    | link url =>
      have hshown : SameTags (if n'.children.isEmpty then escapeHtml url else inside)
          (if n'.children.isEmpty then escapeHtml url else inside') := by
        split
        · exact .escaped url url
        · exact hi.tags
      have hhref := SameAttributes.refl
        (.of_text " href=\"" "href" "" rfl rfl .empty (.escapeHtml url))
      have h := Html.Alike.element "<a" "a" "</a>" rfl rfl rfl hhref hshown
      simp only [html, hempty]
      rw [show ("<a href=\"" : String) = "<a" ++ " href=\"" from rfl,
        show ("\">" : String) = "\"" ++ ">" from rfl]
      simpa only [String.append_assoc] using h
    | assign | increment => exact .empty
    | entity plain html => exact .text hharmless
    | code =>
      simp only [html, hlayout]
      exact .line "<pre" "pre" "</pre>" rfl rfl rfl hindent (hclass _) (.escaped _ _) hline
    | float side clear =>
      have hclear : IsText (if clear = true then " clear: both;" else "") :=
        .ite (.of_plain rfl) .empty
      have hstyle := SameAttributes.refl (.of_text " style=\"float: " "style" "float: " rfl rfl
        (.of_plain rfl) (((isText_sideCss side).append (.of_plain (s := ";") rfl)).append hclear))
      have h := Html.Alike.lines "<div" "div" "</div>" rfl rfl rfl hindent
        ((hclass "float").append hstyle) hi.tags hline
      simp only [html, hlayout]
      rw [show ("\">" : String) = "\"" ++ ">" from rfl]
      simpa only [String.append_assoc] using h
    | align side =>
      have hstyle := SameAttributes.refl (isAttributes_style " style=\"text-align: "
        "text-align: " rfl rfl (.of_plain rfl) (isText_alignCss side))
      have h := Html.Alike.lines "<div" "div" "</div>" rfl rfl rfl hindent
        ((hclass "align").append hstyle) hi.tags hline
      simp only [html, hlayout]
      rw [show (";\">" : String) = ";\"" ++ ">" from rfl]
      simpa only [String.append_assoc] using h

/-! ## Tables -/

theorem alike_cell (cell : Cell) (t : Table) (number number' : String) (role : Role)
    {inside inside' : String} (hi : SameTags inside inside') :
    Html.Alike (cell.html { t with number } role inside)
      (cell.html { t with number := number' } role inside') := by
  have htag : isName (if role = .head then "th" else "td").toList = true := by
    split <;> rfl
  have h := Html.Alike.element _ (if role = .head then "th" else "td") _ rfl rfl htag
    (SameAttributes.refl (isAttributes_cell cell t.grid)) hi
  unfold Cell.html
  simpa only [String.append_assoc] using h

/-! ## Nodes -/

namespace Node

mutual

/-- **Trees that differ in texts only are written with the same tags**, by induction over the
trees. -/
theorem alike_html (hs : s.Alike t) (hc : c.settings = s) (hd : d.settings = t) :
    ∀ {n n' : Node}, n.Alike s.showFigureNumbers n' → Html.Alike (n.html c) (n'.html d)
  | _, _, @Alike.mk _ span k k' ns ns' l hk hns => by
    have hinside := alike_htmlAll hs hc hd hns
    have hindent := hs.indentFor l
    have hline := Html.Alike.text (isText_lineEnd l)
    have hclass := sameAttributes_class s t
    cases hk with
    | element name as hf =>
      have hempty : ns.isEmpty = ns'.isEmpty := by
        cases hns <;> rfl
      refine Feature.alike_html hs hc hd ?_ ?_ hinside hf
      · rfl
      · exact hempty
    | table t number number' =>
      have htable := alike_htmlTable hs hc hd t number number' hns
      subst hc hd
      exact .lines "<table" "table" "</table>" rfl rfl rfl hindent (hclass _) htable.tags hline
    | same hsame =>
      cases k with
      | element | table => cases hsame
      | text u => exact .escaped rfl
      | gap => exact .text (IsText.of_plain (s := "\n") rfl)
      | unknown closed =>
        have hopening := Html.Alike.text (IsText.of_plain (s := "\x7b") rfl)
        have hclosing := Html.Alike.text (IsText.ite (p := closed = true)
          (.of_plain (s := "\x7d") rfl) .empty)
        exact (hopening.append hinside).append hclosing
      | paragraph =>
        subst hc hd
        exact .line "<p" "p" "</p>" rfl rfl rfl hindent (hclass _) hinside.tags.trim hline
      | _ => exact hinside

theorem alike_htmlAll (hs : s.Alike t) (hc : c.settings = s) (hd : d.settings = t) :
    ∀ {ns ns' : List Node}, AllAlike s.showFigureNumbers ns ns' →
      Html.Alike (htmlAll c ns) (htmlAll d ns')
  | _, _, .nil => .empty
  | _, _, .cons hn hns => (alike_html hs hc hd hn).append (alike_htmlAll hs hc hd hns)

theorem alike_htmlTable (hs : s.Alike t) (hc : c.settings = s) (hd : d.settings = t) (u : Table)
    (number number' : String) : ∀ {ns ns' : List Node}, AllAlike s.showFigureNumbers ns ns' →
      Html.Alike (htmlTable c { u with number } ns) (htmlTable d { u with number := number' } ns')
  | _, _, .nil => .empty
  | _, _, .cons (@Alike.mk _ span k k' inner inner' l hk hinner) hns => by
    have hrest := alike_htmlTable hs hc hd u number number' hns
    have hindent := hs.indentFor l
    have hline := Html.Alike.text (isText_lineEnd l)
    cases hk with
    -- Among the children of a table only captions and sections are written.
    | element | table => exact hrest
    | same hsame =>
      cases k with
      | caption =>
        have hinside := (alike_htmlAll hs hc hd hinner).tags.trim
        have hlabel := SameTags.escaped (Table.label { u with number } s)
          (Table.label { u with number := number' } t)
        have h := Html.Alike.line "<caption" "caption" "</caption>" rfl rfl rfl hindent .empty
          (hlabel.append hinside) hline
        subst hc hd
        rw [htmlTable, htmlTable, show ("<caption>" : String) = "<caption" ++ ">" from rfl]
        simpa only [String.append_assoc, String.empty_append] using h.append hrest
      | tableSection role =>
        obtain ⟨hname, -⟩ := isName_htmlTag role
        have hgroups := alike_htmlGroups hs hc hd u number number' role hinner
        have h := Html.Alike.lines _ role.htmlTag _ rfl rfl hname hindent .empty hgroups.tags hline
        subst hc hd
        rw [htmlTable, htmlTable]
        simpa only [String.append_assoc, String.empty_append] using h.append hrest
      | _ => exact hrest

theorem alike_htmlGroups (hs : s.Alike t) (hc : c.settings = s) (hd : d.settings = t) (u : Table)
    (number number' : String) (role : Role) :
    ∀ {ns ns' : List Node}, AllAlike s.showFigureNumbers ns ns' →
      Html.Alike (htmlGroups c { u with number } role ns)
        (htmlGroups d { u with number := number' } role ns')
  | _, _, .nil => .empty
  | _, _, .cons (.mk _ hrows) hns =>
    (alike_htmlRows hs hc hd u number number' role hrows).append
      (alike_htmlGroups hs hc hd u number number' role hns)

theorem alike_htmlRows (hs : s.Alike t) (hc : c.settings = s) (hd : d.settings = t) (u : Table)
    (number number' : String) (role : Role) :
    ∀ {ns ns' : List Node}, AllAlike s.showFigureNumbers ns ns' →
      Html.Alike (htmlRows c { u with number } role ns)
        (htmlRows d { u with number := number' } role ns')
  | _, _, .nil => .empty
  | _, _, .cons (@Alike.mk _ span k k' cells cells' l hk hcells) hns => by
    have hinside := alike_htmlCells hs hc hd u number number' role hcells
    have hrest := alike_htmlRows hs hc hd u number number' role hns
    have h := Html.Alike.line "<tr" "tr" "</tr>" rfl rfl rfl (hs.indentFor l) .empty hinside.tags
      (.text (isText_lineEnd l))
    subst hc hd
    rw [htmlRows, htmlRows, show ("<tr>" : String) = "<tr" ++ ">" from rfl]
    simpa only [String.append_assoc, String.empty_append] using h.append hrest

theorem alike_htmlCells (hs : s.Alike t) (hc : c.settings = s) (hd : d.settings = t) (u : Table)
    (number number' : String) (role : Role) :
    ∀ {ns ns' : List Node}, AllAlike s.showFigureNumbers ns ns' →
      Html.Alike (htmlCells c { u with number } role ns)
        (htmlCells d { u with number := number' } role ns')
  | _, _, .nil => .empty
  | _, _, .cons (@Alike.mk _ span k k' inner inner' l hk hinner) hns => by
    have hrest := alike_htmlCells hs hc hd u number number' role hns
    cases hk with
    | element | table => exact hrest
    | same hsame =>
      cases k with
      | cell cell =>
        have hinside := alike_htmlAll hs hc hd hinner
        exact (alike_cell cell u number number' role hinside.tags).append hrest
      | _ => exact hrest

end

end Node

/-! ## Documents -/

/-- A document can be prepared, and then the tree that it is prepared to is written. -/
theorem Document.render_html (d : Document) (s : Settings) :
    ∃ m c, d.root.prepare (Context.start .html s).reset = .ok (m, c) ∧ c.settings = s ∧
      d.render .html s = .ok (m.html c.reset, { d with root := m }) := by
  obtain ⟨m, c, hm, hc⟩ := Node.prepare_restores (Context.start .html s).reset d.root
  have htarget : c.reset.target = .html := hc.target
  refine ⟨m, c, hm, hc.settings, ?_⟩
  simp only [render, Context.run, hm, bind, Except.bind, pure, Except.pure, Context.write, htarget]

/-- The same source is written with the same tags. -/
theorem Document.alike_render (hs : s.Alike t) (forms : Catalog) (source : String) :
    ∃ a d b e, (read forms source).render .html s = .ok (a, d) ∧
      (read forms source).render .html t = .ok (b, e) ∧ Html.Alike a b := by
  have hharmless : (read forms source).root.EveryKind Kind.Harmless :=
    everyKind_read Kind.asksOfElements_harmless
      (fun form name as feature => Feature.harmless_ofForm? form name as feature) forms source
  obtain ⟨m, c, hm, hc, hrender⟩ := render_html (read forms source) s
  obtain ⟨m', d, hm', hd, hrender'⟩ := render_html (read forms source) t
  have hstart : (Context.start .html s).reset.Alike s t (Context.start .html t).reset :=
    ⟨rfl, rfl, rfl, rfl, fun _ => rfl⟩
  obtain ⟨halike, -⟩ := Node.alike_prepare hs hstart hharmless hm hm'
  have hc : c.reset.settings = s := hc
  have hd : d.reset.settings = t := hd
  exact ⟨_, _, _, _, hrender, hrender', Node.alike_html hs hc hd halike⟩

namespace CommandLine

/-- A command line asks for a source as HTML with some settings. -/
def AsksFor (files : Files) (arguments : List String) (source : String) (s : Settings) : Prop :=
  ∃ i, Request.ofArguments arguments = .document i ∧ loadSettings files i = .ok s ∧
    readText files i.path = .ok source ∧ FormatSet.standard.get (i.format.getD "html") = .ok .html

/-- The command writes the document that it is asked for, with an element around it. -/
theorem AsksFor.run {files : Files} {arguments : List String} {source html : String}
    {d : Document} (h : AsksFor files arguments source s)
    (hrender : (Document.read .standard source).render .html s = .ok (html, d)) :
    run files arguments = ⟨0, wrap .html s html, ""⟩ := by
  obtain ⟨i, hi, hsettings, htext, hformat⟩ := h
  have hwrite : write files i = .ok (wrap .html s html) := by
    simp only [write, hsettings, htext, hformat, Format.write, hrender, Except.mapError, bind,
      Except.bind, pure, Except.pure]
  simp only [CommandLine.run, hi, hwrite]

/-- What stands around a document is the same element, unless the value of its class ends too
early. -/
theorem sameTags_wrap (hs : '"' ∉ s.classPrefix.toList) (ht : '"' ∉ t.classPrefix.toList)
    {a b : String} (h : SameTags a b) : SameTags (wrap .html s a) (wrap .html t b) := by
  have hquotes : ∀ s : Settings, '"' ∉ s.classPrefix.toList →
      '"' ∉ (s.classPrefix ++ "document").toList := by
    intro s hs
    rw [String.toList_append, List.mem_append, not_or]
    exact ⟨hs, by decide⟩
  have hclass := SameAttributes.single " class=\"" "class" rfl rfl (hquotes s hs) (hquotes t ht)
  have hline : SameTags "\n" "\n" := .of_text (by decide) (by decide)
  have helement := Html.Alike.element "<div" "div" "</div>" rfl rfl rfl hclass (hline.append h)
  have hwrap := helement.tags.append hline
  rw [wrap, wrap, show ("<div class=\"" : String) = "<div" ++ " class=\"" from rfl,
    show ("document\">\n" : String) = "document" ++ ("\"" ++ (">" ++ "\n")) from rfl,
    show ("</div>\n" : String) = "</div>" ++ "\n" from rfl]
  simpa only [String.append_assoc] using hwrap

end CommandLine

end

namespace Document

/-- The tags of a source that is written as HTML. -/
def htmlTags (forms : Catalog) (s : Settings) (source : String) : Except Fault (List Html.Tag) := do
  let (html, _) ← (read forms source).render .html s
  return Html.tags html

/-- **The texts of settings bring no tags.** With settings that are alike every source can be
written as HTML, and it has the same tags with both. The same is true of what the command writes
if no quote in a class prefix ends the value that the prefix is written into. -/
theorem render_sameTags (source : String) {s t : Settings} (hs : s.Alike t) :
    (∀ forms, ∃ tags, htmlTags forms s source = .ok tags ∧ htmlTags forms t source = .ok tags) ∧
    ('"' ∉ s.classPrefix.toList → '"' ∉ t.classPrefix.toList →
      ∀ files files' arguments arguments', CommandLine.AsksFor files arguments source s →
        CommandLine.AsksFor files' arguments' source t →
        ∃ a b, CommandLine.run files arguments = ⟨0, a, ""⟩ ∧
          CommandLine.run files' arguments' = ⟨0, b, ""⟩ ∧ Html.tags a = Html.tags b) := by
  constructor
  · intro forms
    obtain ⟨a, d, b, e, ha, hb, halike⟩ := alike_render hs forms source
    refine ⟨Html.tags a, ?_, ?_⟩
    · rw [htmlTags, ha]
      rfl
    · rw [htmlTags, hb, halike.tags.eq]
      rfl
  · intro hleft hright files files' arguments arguments' hasks hasks'
    obtain ⟨a, d, b, e, ha, hb, halike⟩ := alike_render hs .standard source
    exact ⟨_, _, hasks.run ha, hasks'.run hb,
      (CommandLine.sameTags_wrap hleft hright halike.tags).eq⟩

/-- A class prefix, a separator and a label that would be tags if they were not escaped. -/
theorem render_sameTags_labels :
    let source := "\x7btable|\x7bcaption|x\x7d\ny\x7d\x7bimage u|\x7bget table\x7d\x7d"
    let files : Files := fun _ => .text source
    let chosen := { Settings.standard with
      classPrefix := "<i>", tableSeparator := "</b>", tableLabel := "<b>" }
    let arguments := ["file", "--set=html_class_prefix=<i>", "--set=table_separator=</b>",
      "--set=table_label=<b>"]
    Settings.standard.Alike chosen ∧
      ∃ a b, CommandLine.run files ["file"] = ⟨0, a, ""⟩ ∧
        CommandLine.run files arguments = ⟨0, b, ""⟩ ∧ Html.tags a = Html.tags b := by
  intro source files chosen arguments
  have hs : Settings.standard.Alike chosen :=
    ⟨rfl, by decide, rfl, by decide, by decide⟩
  have hstandard : CommandLine.AsksFor files ["file"] source .standard :=
    ⟨_, rfl, by decide +kernel, rfl, rfl⟩
  have hchosen : CommandLine.AsksFor files arguments source chosen :=
    ⟨_, rfl, by decide +kernel, rfl, rfl⟩
  exact ⟨hs, (render_sameTags _ hs).2 (by decide) (by decide) _ _ _ _ hstandard hchosen⟩

/-- Other texts can bring other tags. The marker of an item that is in lists of bullets consists
of separators, and a caption that is white space is left out. The label of figures is not escaped
in captions, nor is the class prefix in what the command puts around a document. -/
theorem exists_htmlTags_ne :
    let base := { Settings.standard with classPrefix := "", indent := "" }
    -- Nothing is shown of a caption that is switched off, but its variables keep their values.
    let inner := "\x7blist|\x7bitem|\x7bset x|\x7bget list\x7d\x7d\x7d\x7d"
    let source := "\x7bimage u caption=no|\x7blist|\x7bitem|" ++ inner ++ "\x7d\x7d\x7d" ++
      "\x7bimage u numbers=no|\x7bget x\x7d\x7d"
    let files : Files := fun _ => .text "x"
    htmlTags .standard { base with listSeparator := "" } source ≠ htmlTags .standard base source ∧
      htmlTags .standard { base with figureLabel := "<b>" } "\x7bimage u|x\x7d" ≠
        htmlTags .standard base "\x7bimage u|x\x7d" ∧
      Html.tags (CommandLine.run files ["file", "--set=html_class_prefix=a\" b=\""]).output ≠
        Html.tags (CommandLine.run files ["file"]).output := by
  intro base inner source files
  let count (r : Except Fault (List Html.Tag)) := r.toOption.map List.length
  let attributes (ts : List Html.Tag) := ts.map fun t => t.attributes.length
  refine ⟨fun h => ?_, fun h => ?_, fun h => ?_⟩
  · exact absurd (congrArg count h) (by decide +kernel)
  · exact absurd (congrArg count h) (by decide +kernel)
  · exact absurd (congrArg attributes h) (by decide +kernel)

end Document

end Bracemark
