/-
Text in braces that no form claims.

Where no forms are known, all braces are text. Each pair of them is a node of its own though,
put together before the text around it is, and what is inside it loses white space that has
been read in more than one piece. So a source is echoed but for such white space
(`Text.echo`, `Document.render_unclaimed`): where braces hold nothing but two or more blanks
with a newline among them, nothing is left between them, while a single blank or blanks on
one line are kept.

The scan that says what is echoed goes through the source once. It counts the open braces,
because beyond the limit on nesting a brace opens nothing.
-/
import Bracemark.Proofs.EscapedText
import Bracemark.Proofs.Making

set_option autoImplicit false

namespace Bracemark

namespace Text

/-! ## What is echoed -/

/-- The length of the white space at the beginning of a text in braces that is lost: all that
there is up to the closing brace or the end, if it has a newline and something else. -/
def lostLength (cs : List Char) : Nat :=
  let blanks := cs.takeWhile isBlank
  if 1 < blanks.length ∧ '\n' ∈ blanks ∧ (cs.dropWhile isBlank).head?.all (· == '}') then
    blanks.length
  else 0

/-- What is echoed of a text where so many braces are open and so many characters at the
beginning are lost. -/
def echoAfter : Nat → Nat → List Char → List Char
  | _, _, [] => []
  | depth, lost + 1, _ :: cs => echoAfter depth lost cs
  | depth, 0, c :: cs =>
    if c = '{' ∧ depth < maxNesting then c :: echoAfter (depth + 1) (lostLength cs) cs
    else c :: echoAfter (if c = '}' then depth - 1 else depth) 0 cs

/-- What is echoed of a source. -/
def echo (s : String) : String :=
  String.ofList (echoAfter 0 0 s.toList)

variable {depth : Nat} {c : Char} {cs ds : List Char}

@[simp] theorem echoAfter_nil (depth lost : Nat) : echoAfter depth lost [] = [] := rfl

theorem echoAfter_eq_drop (depth lost : Nat) (cs : List Char) :
    echoAfter depth lost cs = echoAfter depth 0 (cs.drop lost) := by
  induction cs generalizing lost with
  | nil => rw [List.drop_nil]; cases lost <;> rfl
  | cons c cs ih =>
    cases lost with
    | zero => rfl
    | succ lost => exact ih lost

theorem echoAfter_open (h : depth < maxNesting) (cs : List Char) :
    echoAfter depth 0 ('{' :: cs) = '{' :: echoAfter (depth + 1) (lostLength cs) cs := by
  rw [echoAfter, if_pos ⟨rfl, h⟩]

theorem echoAfter_deep (h : ¬ depth < maxNesting) (cs : List Char) :
    echoAfter depth 0 ('{' :: cs) = '{' :: echoAfter depth 0 cs := by
  rw [echoAfter, if_neg fun hopen => h hopen.2, if_neg (by decide)]

theorem echoAfter_close (depth : Nat) (cs : List Char) :
    echoAfter depth 0 ('}' :: cs) = '}' :: echoAfter (depth - 1) 0 cs := by
  rw [echoAfter, if_neg fun hopen => absurd hopen.1 (by decide), if_pos rfl]

theorem echoAfter_append (hcs : ∀ c ∈ cs, c ≠ '{' ∧ c ≠ '}') (ds : List Char) :
    echoAfter depth 0 (cs ++ ds) = cs ++ echoAfter depth 0 ds := by
  induction cs with
  | nil => rfl
  | cons c cs ih =>
    obtain ⟨⟨hopen, hclose⟩, hcs⟩ := List.forall_mem_cons.mp hcs
    rw [List.cons_append, echoAfter, if_neg fun h => hopen h.1, if_neg hclose, ih hcs,
      List.cons_append]

/-- Where no white space is lost after a brace, a text is echoed as it is. -/
theorem echoAfter_eq_self (h : ∀ before after, cs = before ++ '{' :: after → lostLength after = 0)
    (depth : Nat) : echoAfter depth 0 cs = cs := by
  induction cs generalizing depth with
  | nil => rfl
  | cons c cs ih =>
    have hrest := ih fun before after hcs => h (c :: before) after (by rw [hcs]; rfl)
    rw [echoAfter]
    split
    · next hopen =>
      obtain ⟨rfl, -⟩ := hopen
      rw [h [] cs rfl, hrest]
    · rw [hrest]

/-! ## White space that is lost -/

theorem isBlank_of_brace (hc : c = '{' ∨ c = '}') : isBlank c = false := by
  rcases hc with rfl | rfl <;> decide

/-- White space up to the end of the braces is lost if it has a newline and something else. -/
theorem lostLength_blank (hcs : allBlank cs = true) (hds : ds = [] ∨ ds.head? = some '}') :
    lostLength (cs ++ ds) = if 1 < cs.length ∧ '\n' ∈ cs then cs.length else 0 := by
  have hstop : ∀ d ∈ ds.head?, isBlank d = false := by
    rcases hds with rfl | hclose
    · exact fun d hd => by cases hd
    · intro d hd
      obtain rfl : '}' = d := Option.some.inj (hclose.symm.trans hd)
      decide
  have hend : ds.head?.all (· == '}') = true := by
    rcases hds with rfl | hclose
    · rfl
    · rw [hclose]; rfl
  obtain ⟨htake, hdrop⟩ := takeWhile_run (List.all_eq_true.mp hcs) hstop
  simp only [lostLength, htake, hdrop, hend, and_true]

/-- Nothing is lost of braces that hold more than white space. -/
theorem lostLength_solid (hcs : allBlank cs = false)
    (hfirst : ∀ d ∈ (cs.dropWhile isBlank).head?, d ≠ '}') : lostLength (cs ++ ds) = 0 := by
  have hsome : cs.dropWhile isBlank ≠ [] := by
    intro hnone
    rw [List.dropWhile_eq_nil_iff] at hnone
    rw [allBlank, List.all_eq_true.mpr hnone] at hcs
    cases hcs
  obtain ⟨d, rest, hrest⟩ := List.exists_cons_of_ne_nil hsome
  have hd : (d == '}') = false := beq_eq_false_iff_ne.mpr (hfirst d (by rw [hrest]; rfl))
  have hdrop : (cs ++ ds).dropWhile isBlank = d :: (rest ++ ds) := by
    rw [List.dropWhile_append, hrest]
    rfl
  simp [lostLength, hdrop, hd]

/-! ## Texts without other markup -/

/-- Whether there is a break between blocks in a text. -/
def hasBreak : List Char → Bool
  | [] => false
  | c :: cs => decide (0 < breakLength (c :: cs)) || hasBreak cs

/-- A text with no markup but braces, in a single block. -/
structure BracesOnly (cs : List Char) : Prop where
  backslash : '\\' ∉ cs
  backtick : '\x60' ∉ cs
  oneBlock : hasBreak cs = false

theorem BracesOnly.of_append (h : BracesOnly (cs ++ ds)) : BracesOnly ds where
  backslash hmem := h.backslash (List.mem_append_right cs hmem)
  backtick hmem := h.backtick (List.mem_append_right cs hmem)
  oneBlock := by
    have hblock := h.oneBlock
    induction cs with
    | nil => exact hblock
    | cons c cs ih =>
      rw [List.cons_append, hasBreak, Bool.or_eq_false_iff] at hblock
      refine ih ⟨fun hmem => h.backslash ?_, fun hmem => h.backtick ?_, hblock.2⟩ hblock.2
      · exact List.mem_cons_of_mem c hmem
      · exact List.mem_cons_of_mem c hmem

theorem BracesOnly.blockBreak? (h : BracesOnly cs) : Bracemark.blockBreak? cs = none := by
  cases cs with
  | nil => rfl
  | cons c cs =>
    by_cases hline : c = '\n'
    · subst hline
      have hblock := h.oneBlock
      rw [hasBreak, Bool.or_eq_false_iff, decide_eq_false_iff_not, breakLength] at hblock
      rw [blockBreak?_newline, if_neg]
      intro hpos
      rw [if_pos hpos] at hblock
      exact hblock.1 (Nat.succ_pos _)
    · unfold Bracemark.blockBreak?
      split
      · next rest heq => exact absurd (List.cons.inj heq).1 hline
      · rfl

end Text

open Text

namespace Node

/-! ## Nodes that echo -/

/-- The nodes are words that some characters have been read in, where so many braces are open
around them; they are written as what is echoed of these characters. -/
structure Echoes (depth : Nat) (ns : List Node) (taken rest : List Char) : Prop where
  words : ∀ n ∈ ns, n.IsWording
  prose : AllKinds (fun k => k.isProse = true) ns
  writes : ∀ c, echoAfter depth 0 (taken ++ rest) =
    (written (plain c) ns).toList ++ echoAfter depth 0 rest
  /-- White space is read as white space. -/
  blank : ∀ c, isBlankText (written (plain c) ns) = Text.allBlank taken
  nil_iff : ns = [] ↔ taken = []
  /-- White space is one piece unless there is a newline and something else. -/
  pieces : Text.allBlank taken = true → (1 < ns.length ↔ 1 < taken.length ∧ '\n' ∈ taken)
  /-- What is inside braces has no closing brace of its own. -/
  first : 0 < depth → ∀ d ∈ (taken.dropWhile Text.isBlank).head?, d ≠ '}'

variable {depth : Nat} {n : Node} {ns : List Node} {run taken rest : List Char}

theorem echoes_nil (depth : Nat) (rest : List Char) : Echoes depth [] [] rest where
  words _ h := absurd h List.not_mem_nil
  prose := allKinds_nil
  writes _ := rfl
  blank _ := rfl
  nil_iff := ⟨fun _ => rfl, fun _ => rfl⟩
  pieces _ := by simp
  first _ d hd := by cases hd

/-- A piece of text comes before other pieces. If all of it is white space, the pieces show it. -/
theorem Echoes.text_cons (h : Echoes depth ns taken rest) (span : Span) (hne : run ≠ [])
    (hrun : ∀ c ∈ run, c ≠ '{' ∧ c ≠ '}')
    (hpieces : Text.allBlank run = true → Text.allBlank taken = true →
      (taken ≠ [] ↔ 1 < (run ++ taken).length ∧ '\n' ∈ run ++ taken)) :
    Echoes depth (text span (String.ofList run) :: ns) (run ++ taken) rest where
  words := List.forall_mem_cons.mpr ⟨isWording_text _ _, h.words⟩
  prose := allKinds_cons.mpr ⟨everyKind_mk.mpr ⟨rfl, allKinds_nil⟩, h.prose⟩
  writes c := by
    rw [List.append_assoc, echoAfter_append hrun, h.writes c, written_cons, String.toList_append,
      List.append_assoc]
    exact congrArg (· ++ _) String.toList_ofList.symm
  blank c := by
    have hplain : (text span (String.ofList run)).plain c = String.ofList run := rfl
    rw [written_cons, isBlankText_append, h.blank c, hplain]
    simp [Text.allBlank, isBlankText]
  nil_iff := by simp [hne]
  pieces hblank := by
    rw [Text.allBlank, List.all_append, Bool.and_eq_true] at hblank
    rw [← hpieces hblank.1 hblank.2, List.length_cons, Nat.lt_add_left_iff_pos,
      List.length_pos_iff, ne_eq, h.nil_iff]
  first hdepth d hd := by
    rw [List.dropWhile_append] at hd
    split at hd
    · exact h.first hdepth d hd
    · next hsome =>
      rw [List.isEmpty_iff] at hsome
      obtain ⟨e, es, hes⟩ := List.exists_cons_of_ne_nil hsome
      rw [hes] at hd
      obtain rfl : e = d := Option.some.inj hd
      exact (hrun e (List.dropWhile_subset _ (by rw [hes]; exact List.mem_cons_self ..))).2

/-- A word that begins with a brace comes before other pieces. -/
theorem Echoes.brace_cons {c : Char} {cs : List Char} (h : Echoes depth ns taken rest)
    (hword : n.IsWording) (hprose : n.EveryKind fun k => k.isProse = true)
    (hc : c = '{' ∨ (c = '}' ∧ depth = 0))
    (hwrites : ∀ context, echoAfter depth 0 (c :: cs ++ (taken ++ rest)) =
      (n.plain context).toList ++ echoAfter depth 0 (taken ++ rest))
    (hblank : ∀ context, isBlankText (n.plain context) = false) :
    Echoes depth (n :: ns) (c :: cs ++ taken) rest where
  words := List.forall_mem_cons.mpr ⟨hword, h.words⟩
  prose := allKinds_cons.mpr ⟨hprose, h.prose⟩
  writes context := by
    rw [List.append_assoc, hwrites, h.writes context, written_cons, String.toList_append,
      List.append_assoc]
  blank context := by
    rw [written_cons, isBlankText_append, hblank]
    simp [Text.allBlank, isBlank_of_brace (hc.imp_right And.left)]
  nil_iff := by simp
  pieces hall := by
    simp [Text.allBlank, isBlank_of_brace (hc.imp_right And.left)] at hall
  first hdepth d hd := by
    rw [List.cons_append, List.dropWhile_cons_of_neg
      (by simp [isBlank_of_brace (hc.imp_right And.left)])] at hd
    obtain rfl : c = d := Option.some.inj hd
    rcases hc with rfl | ⟨-, hzero⟩
    · decide
    · omega

/-- **What is inside braces is echoed** without the white space that is lost. -/
theorem Echoes.inside (h : Echoes (depth + 1) ns taken rest)
    (hrest : rest = [] ∨ rest.head? = some '}') (span : Span) (closed : Bool) (c : Context) :
    echoAfter (depth + 1) (lostLength (taken ++ rest)) (taken ++ rest) =
      (written (plain c) (branch span (.unknown closed) ns).assemble.children).toList ++
        echoAfter (depth + 1) 0 rest := by
  rw [written_assemble_words rfl h.words, h.blank c]
  cases hblank : Text.allBlank taken with
  | true =>
    rw [lostLength_blank hblank hrest]
    by_cases hpieces : 1 < ns.length
    · rw [if_pos ((h.pieces hblank).mp hpieces), if_pos ⟨hpieces, rfl⟩, echoAfter_eq_drop,
        List.drop_left]
      rfl
    · rw [if_neg fun hlost => hpieces ((h.pieces hblank).mpr hlost),
        if_neg fun hboth => hpieces hboth.1, h.writes c]
  | false =>
    rw [lostLength_solid hblank (h.first (Nat.succ_pos _)), if_neg (by simp), h.writes c]

/-- A text in braces is written as a brace, what is inside, and perhaps a closing brace. -/
theorem plain_of_unknown {closed : Bool} (h : n.kind = .unknown closed) (c : Context) :
    n.plain c =
      "\x7b" ++ written (plain c) n.children ++ (if closed then "\x7d" else "") := by
  obtain ⟨span, kind, children, l⟩ := n
  obtain rfl : kind = .unknown closed := h
  rw [← plainAll_eq_written]
  rfl

/-- The closing brace of a text in braces, if it has one. -/
def closing (closed : Bool) : List Char :=
  if closed then ['}'] else []

/-- A text in braces comes before other pieces; if it is not closed, there are none. -/
theorem Echoes.unknown_cons {inside : List Node} {before : List Char} (closed : Bool)
    (hinside : Echoes (depth + 1) inside before (closing closed ++ (taken ++ rest)))
    (hdepth : depth < maxNesting) (hend : closed = false → taken ++ rest = [])
    (h : Echoes depth ns taken rest) (span : Span) :
    Echoes depth ((branch span (.unknown closed) inside).assemble :: ns)
      ('{' :: (before ++ closing closed) ++ taken) rest := by
  have hplain : ∀ c, _ := plain_of_unknown (kind_assemble (branch span (.unknown closed) inside))
  have hstop : closing closed ++ (taken ++ rest) = [] ∨
      (closing closed ++ (taken ++ rest)).head? = some '}' := by
    cases closed with
    | true => exact .inr rfl
    | false => exact .inl (hend rfl)
  refine h.brace_cons (isWording_assemble_unknown hinside.words span closed) ?_ (.inl rfl)
    (fun c => ?_) (fun c => ?_)
  · refine everyKind_iff.mpr ⟨by rw [kind_assemble]; rfl, ?_⟩
    exact AllEvery.assemble allowsAssembled_isProse hinside.prose
  · rw [List.cons_append, echoAfter_open hdepth, List.append_assoc,
      hinside.inside hstop span closed c, hplain c]
    cases closed with
    | true => simp [closing, echoAfter_close]
    | false => simp [closing, hend rfl]
  · have hbrace : isBlankText "\x7b" = false := by decide
    rw [hplain c, String.append_assoc, isBlankText_append, hbrace, Bool.false_and]

end Node

namespace Parser

/-! ## Reading braces -/

/-- A scope in which no forms are known, so many braces deep. -/
structure Unclaimed (s : Scope) (depth : Nat) : Prop where
  catalog : s.catalog = []
  nesting : s.nesting = depth
  cellText : s.localFlag Key.cellText = false
  topLevel : s.localFlag Key.topLevel = decide (depth = 0)

variable {s : Scope} {place : Place} {depth : Nat} {cs : List Char} {inner : Grammar → Parser Node}

theorem unclaimed_scope : Unclaimed (Document.scope []) 0 where
  catalog := Document.catalog_scope []
  nesting := Document.nesting_scope []
  cellText := rfl
  topLevel := rfl

theorem Unclaimed.push (h : Unclaimed s depth) : Unclaimed (s.push (s.deeper [])) (depth + 1) where
  catalog := (Scope.catalog_push_deeper s).trans h.catalog
  nesting := by rw [Scope.nesting_push_deeper, h.nesting]
  cellText := Scope.localFlag_push s _ _
  topLevel := Scope.localFlag_push s _ _

theorem Unclaimed.exhausted (h : Unclaimed s depth) :
    s.exhausted = decide (maxNesting ≤ depth) := by
  rw [Scope.exhausted, h.nesting]

/-- What is left where content stops among braces. -/
theorem Unclaimed.stopsAt_iff (h : Unclaimed s depth) :
    s.StopsAt place ↔ place.rest = [] ∨ (place.rest.head? = some '}' ∧ 0 < depth) := by
  rw [Scope.StopsAt, h.cellText, h.topLevel]
  simp [Place.startsWith, Nat.pos_iff_ne_zero]

/-- At a place a piece is read that echoes, whatever is read after it. -/
def ReadsEcho (inner : Grammar → Parser Node) (s : Scope) (depth : Nat) (place : Place) : Prop :=
  Reads s place (part inner) fun n q => ∃ taken, taken ≠ [] ∧ place.rest = taken ++ q.rest ∧
    q = place.skip taken q.rest ∧ ∀ ns more rest, q.rest = more ++ rest →
      Node.Echoes depth ns more rest → Node.Echoes depth (n :: ns) (taken ++ more) rest

/-- From a place on, what is read up to where content stops echoes. -/
def CollectsEcho (inner : Grammar → Parser Node) (s : Scope) (depth : Nat) (place : Place) : Prop :=
  Collects s place (part inner) fun ns q => ∃ taken, place.rest = taken ++ q.rest ∧
    q = place.skip taken q.rest ∧ s.StopsAt q ∧ Node.Echoes depth ns taken q.rest

theorem readsEcho_newline (h : Unclaimed s depth) (hrest : place.rest = '\n' :: cs)
    (hplain : BracesOnly place.rest) : ReadsEcho inner s depth place := by
  refine (reads_newline hrest h.cellText hplain.blockBreak?).imp ?_
  rintro n q ⟨rfl, rfl⟩
  refine ⟨['\n'], List.cons_ne_nil _ _, hrest, rfl, fun ns more rest _ hns => ?_⟩
  refine hns.text_cons _ (List.cons_ne_nil _ _) (by simp) fun _ _ => ?_
  simp [List.length_pos_iff]

/-- The white space that ends a run of text is a newline. -/
theorem eq_newline {c : Char} (hc : isPlain false c = false) (hblank : isBlank c = true) :
    c = '\n' := by
  have hmarkup : isMarkup c = true := by simpa [isPlain] using hc
  simp only [isMarkup, Bool.or_eq_true, beq_iff_eq] at hmarkup
  rcases hmarkup with hbrace | rfl
  · rcases hbrace with ((rfl | rfl) | rfl) | rfl <;> exact absurd hblank (by decide)
  · rfl

/-- A run of text ends before a newline, a brace or the end of the text. -/
theorem readsEcho_run {c : Char} (h : Unclaimed s depth) (hrest : place.rest = c :: cs)
    (hc : isPlain false c = true) : ReadsEcho inner s depth place := by
  obtain ⟨run, tail, rfl, hrun, htail⟩ := exists_run hc cs
  refine (reads_run hrest (List.cons_ne_nil c run) (by rwa [h.cellText])
    (by rwa [h.cellText])).imp ?_
  rintro n q ⟨rfl, rfl⟩
  refine ⟨c :: run, List.cons_ne_nil _ _, hrest, rfl, fun ns more rest htaken hns => ?_⟩
  have hother : ∀ d ∈ c :: run, ∀ e, isMarkup e = true → d ≠ e :=
    fun d hd e he => ne_of_isPlain (hrun d hd) he
  refine hns.text_cons _ (List.cons_ne_nil _ _)
    (fun d hd => ⟨hother d hd _ rfl, hother d hd _ rfl⟩) fun _ hblank => ?_
  have hline : '\n' ∉ c :: run := fun hmem => hother _ hmem _ rfl rfl
  refine ⟨fun hne => ?_, fun hpieces hnone => hline (by simpa [hnone] using hpieces.2)⟩
  obtain ⟨d, ds, rfl⟩ := List.exists_cons_of_ne_nil hne
  have hd : d = '\n' := by
    refine eq_newline (htail d ?_) (List.all_eq_true.mp hblank d (List.mem_cons_self ..))
    rw [show tail = d :: ds ++ rest from htaken]
    rfl
  subst hd
  exact ⟨by simp, List.mem_append_right _ (List.mem_cons_self ..)⟩

/-- A brace that opens or closes nothing stands for itself. -/
theorem readsEcho_stray {c : Char} (h : Unclaimed s depth) (hrest : place.rest = c :: cs)
    (hc : (c = '{' ∧ ¬ depth < maxNesting) ∨ (c = '}' ∧ depth = 0)) :
    ReadsEcho inner s depth place := by
  have hstray : isStray (s.localFlag Key.topLevel) s.exhausted c = true := by
    rw [h.topLevel, h.exhausted]
    rcases hc with ⟨rfl, hdeep⟩ | ⟨rfl, hzero⟩
    · simpa [isStray] using hdeep
    · simpa [isStray] using hzero
  refine (reads_stray hrest (hc.imp And.left And.left) hstray).imp ?_
  rintro n q ⟨rfl, rfl⟩
  refine ⟨[c], List.cons_ne_nil _ _, hrest, rfl, fun ns more rest _ hns => ?_⟩
  refine hns.brace_cons (Node.isWording_text _ _) (Node.everyKind_mk.mpr ⟨rfl, Node.allKinds_nil⟩)
    (hc.imp_left And.left) (fun context => ?_) (fun context => ?_)
  · have hecho : echoAfter depth 0 (c :: (more ++ rest)) =
        c :: echoAfter depth 0 (more ++ rest) := by
      rcases hc with ⟨rfl, hdeep⟩ | ⟨rfl, rfl⟩
      · exact echoAfter_deep hdeep _
      · exact echoAfter_close 0 _
    have hplain : (textFrom place (place.skip [c] cs) [c]).plain context = String.ofList [c] := rfl
    rw [List.cons_append, List.nil_append, hecho, hplain, String.toList_ofList]
    rfl
  · have hsolid : isBlankText (String.ofList [c]) = false := by
      simp [isBlankText, allBlank, isBlank_of_brace (hc.imp And.left And.left)]
    exact hsolid

/-- Braces are read up to the closing one, or else up to the end of the text. -/
theorem readsEcho_braces {levels : Nat} (h : Unclaimed s depth) (hrest : place.rest = '{' :: cs)
    (hdepth : depth < maxNesting)
    (hinside : CollectsEcho (Grammar.inside levels) (s.push (s.deeper [])) (depth + 1)
      (place.skip ['{'] cs)) : ReadsEcho (Grammar.inside (levels + 1)) s depth place := by
  have hfits : s.exhausted = false := by
    rw [h.exhausted]
    simpa using hdepth
  refine (reads_unknown hrest h.catalog hfits (.parts hinside)).imp ?_
  rintro n q ⟨inside, r, ⟨before, hbefore, hr, hstop, hecho⟩, hclose | hopen⟩
  -- What has been read before the closing brace is inside.
  · obtain ⟨after, hafter, rfl, rfl⟩ := hclose
    have hcs : cs = before ++ '}' :: after := hafter ▸ hbefore
    rw [hafter] at hr hecho
    refine ⟨'{' :: (before ++ Node.closing true), List.cons_ne_nil _ _, ?_, ?_,
      fun ns more rest htaken hns => ?_⟩
    · rw [hrest, hcs]
      simp [Node.closing]
    · rw [hr, Place.skip_skip, Place.skip_skip]
      rfl
    · obtain rfl : after = more ++ rest := htaken
      exact Node.Echoes.unknown_cons true hecho hdepth (by simp) hns _
  -- Content that has stopped at no closing brace has come to the end of the text.
  · obtain ⟨hopen, rfl, rfl⟩ := hopen
    have hend : q.rest = [] := by
      refine (h.push.stopsAt_iff.mp hstop).resolve_right fun hclose => hopen ?_
      obtain ⟨after, hafter⟩ := List.head?_eq_some_iff.mp hclose.1
      exact ⟨after, hafter.symm⟩
    have hcs : cs = before ++ q.rest := hbefore
    refine ⟨'{' :: (before ++ Node.closing false), List.cons_ne_nil _ _, ?_, ?_,
      fun ns more rest htaken hns => ?_⟩
    · rw [hrest, hcs]
      simp [Node.closing]
    · rw [hend] at hr
      rw [hr, Place.skip_skip]
      simp [Node.closing]
    · rw [htaken] at hecho
      exact Node.Echoes.unknown_cons false hecho hdepth (fun _ => htaken ▸ hend) hns _

/-- All pieces echo if those in braces do. -/
theorem collectsEcho_of_braces (h : Unclaimed s depth)
    (hbraces : ∀ {place : Place} {cs : List Char}, place.Fits → BracesOnly place.rest →
      place.rest = '{' :: cs → depth < maxNesting → ReadsEcho inner s depth place)
    (hplace : place.Fits) (hplain : BracesOnly place.rest) :
    CollectsEcho inner s depth place := by
  -- On the length of what is left: a piece is never empty, but may be any run of characters.
  induction hlength : place.rest.length using Nat.strong_induction_on generalizing place with
  | _ length ih =>
  by_cases hstop : s.StopsAt place
  · exact .stop (refuses_part hstop)
      ⟨[], rfl, (Place.skip_nil place).symm, hstop, Node.echoes_nil depth place.rest⟩
  have hread : ReadsEcho inner s depth place := by
    rw [h.stopsAt_iff, not_or] at hstop
    obtain ⟨c, cs, hrest⟩ := List.exists_cons_of_ne_nil hstop.1
    have hhead : place.rest.head? = some c := by rw [hrest]; rfl
    have hmem : c ∈ place.rest := by rw [hrest]; exact List.mem_cons_self ..
    by_cases hmarkup : isMarkup c = true
    · have hbackslash : c ≠ '\\' := fun heq => hplain.backslash (heq ▸ hmem)
      have hbacktick : c ≠ '\x60' := fun heq => hplain.backtick (heq ▸ hmem)
      simp only [isMarkup, Bool.or_eq_true, beq_iff_eq, hbackslash, hbacktick, or_false,
        false_or] at hmarkup
      rcases hmarkup with (rfl | rfl) | rfl
      · by_cases hdepth : depth < maxNesting
        · exact hbraces hplace hplain hrest hdepth
        · exact readsEcho_stray h hrest (.inl ⟨rfl, hdepth⟩)
      · have hzero : depth = 0 := by
          by_contra hdepth
          exact hstop.2 ⟨hhead, Nat.pos_of_ne_zero hdepth⟩
        exact readsEcho_stray h hrest (.inr ⟨rfl, hzero⟩)
      · exact readsEcho_newline h hrest hplain
    · exact readsEcho_run h hrest (by simp [isPlain, hmarkup])
  refine .cons hplace (hread.imp ?_)
  rintro n q ⟨taken, hne, htaken, hq, hecho⟩
  have hbefore : place.Before q := ⟨taken, htaken, hq⟩
  have hshort : q.rest.length < length := by
    have := List.length_pos_iff.mpr hne
    rw [← hlength, htaken, List.length_append]
    omega
  refine ⟨hbefore, hq ▸ offset_lt_skip hne, (ih _ hshort (hplace.of_before hbefore)
    (htaken ▸ hplain).of_append rfl).imp ?_⟩
  rintro ns r ⟨more, hmore, hr, hend, hns⟩
  refine ⟨taken ++ more, ?_, ?_, hend, hecho ns more r.rest hmore hns⟩
  · rw [htaken, hmore, List.append_assoc]
  · rw [hr, hq, Place.skip_skip]
    rfl

/-- **Where no forms are known, text and braces echo**, up to where content stops. The levels
that are left say how deep the braces may go on. -/
theorem collectsEcho (levels : Nat) (h : Unclaimed s depth) (hlevels : depth + levels = maxNesting)
    (hplace : place.Fits) (hplain : BracesOnly place.rest) :
    CollectsEcho (Grammar.inside levels) s depth place := by
  induction levels generalizing s depth place with
  | zero =>
    refine collectsEcho_of_braces h (fun _ _ _ hdepth => ?_) hplace hplain
    omega
  | succ levels ih =>
    refine collectsEcho_of_braces h (fun {place cs} hplace hplain hrest hdepth => ?_) hplace hplain
    have hskip : place.Before (place.skip ['{'] cs) := Place.before_skip hrest.symm
    rw [hrest] at hplain
    have hcs : BracesOnly cs := (show BracesOnly (['{'] ++ cs) from hplain).of_append
    exact readsEcho_braces h hrest hdepth (ih h.push (by omega) (hplace.of_before hskip) hcs)

end Parser

namespace Document

/-- **Text in braces that no form claims is echoed**, but for white space that stands alone
between its braces and has been read in more than one piece; without any, the source is the
text of a paragraph as it stands. -/
theorem render_unclaimed (s : Settings) (source : String) (hplain : BracesOnly source.toList) :
    ((read [] source).render .plain s).map Prod.fst = .ok (paragraphText (echo source)) ∧
      ((∀ before after, source.toList = before ++ '{' :: after → lostLength after = 0) →
        ((read [] source).render .plain s).map Prod.fst = .ok (paragraphText source)) := by
  suffices hecho : ((read [] source).render .plain s).map Prod.fst =
      .ok (paragraphText (echo source)) by
    refine ⟨hecho, fun hkept => ?_⟩
    rw [hecho, echo, echoAfter_eq_self hkept, String.ofList_toList]
  have hcollect := Parser.collectsEcho maxNesting Parser.unclaimed_scope (Nat.zero_add _)
    (Place.fits_first source.toList) hplain
  obtain ⟨ns, hns, hroot⟩ := root_of_reads (hcollect.imp fun ns q h => by
    obtain ⟨taken, hrest, -, hstop, hecho⟩ := h
    have hend : q.rest = [] := (Cursor.stopsAt_scope_iff [] q).mp hstop
    rw [hend, List.append_nil] at hrest
    rw [hend, show taken = source.toList from hrest.symm] at hecho
    exact ⟨hend, hecho⟩)
  have htexts : ∀ c, Node.runTexts c ns = [echo source] := by
    intro c
    have hflow : ∀ n ∈ ns, n.isGap = false := fun n hn =>
      Node.isGap_of_isInline (Node.isInline_of_isWord (hns.words n hn).word)
    have hwritten := hns.writes c
    simp only [List.append_nil, echoAfter_nil] at hwritten
    rw [← List.append_nil ns, Node.runTexts_append hflow, Node.runTexts_nil, echo, hwritten,
      String.ofList_toList]
    simp [Node.prepend]
  rw [render_words hroot (fun n hn => .inr (hns.words n hn)) hns.prose htexts s]
  simp

/-- One blank between braces is kept, while a blank with a newline is lost: the first source is
echoed as it is, and of the second the braces are left, though it would be a paragraph with the
white space between them. -/
theorem render_unclaimed_blanks :
    ((read [] "a\x7b \x7d").render .plain .standard).map Prod.fst = .ok "a\x7b \x7d\n\n" ∧
      ((read [] "\x7b \n\x7d").render .plain .standard).map Prod.fst = .ok "\x7b\x7d\n\n" ∧
        paragraphText "\x7b \n\x7d" = "\x7b \n\x7d\n\n" := by
  have hkept : ∀ before after, "a\x7b \x7d".toList = before ++ '{' :: after →
      lostLength after = 0 := by
    intro before after hsplit
    have hlist : ['a', '{', ' ', '}'] = before ++ '{' :: after := hsplit
    rcases before with _ | ⟨x, _ | ⟨y, _ | ⟨z, _ | ⟨w, before⟩⟩⟩⟩ <;> simp at hlist
    obtain ⟨-, rfl⟩ := hlist
    decide
  refine ⟨?_, ?_, by decide +kernel⟩
  · exact (render_unclaimed .standard _ ⟨by decide, by decide, by decide⟩).2 hkept
  · exact (render_unclaimed .standard _ ⟨by decide, by decide, by decide⟩).1

end Document

end Bracemark
