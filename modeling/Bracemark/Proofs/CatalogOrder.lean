/-
The order of a catalogue says nothing.

A catalogue is searched from its first form to its last, so its order would matter where two
forms claim one element. None do, since no name is accepted by two forms
(`Form.eq_of_accepts`). A form that is tried in vain leaves nothing behind but what it has
put into memory, and memory changes nothing. So a search finds what the one form with the
name makes of the element, wherever in the catalogue that form stands and however often
(`ofCatalog_value`).

The two readings are compared with nothing recalled on either side. `SameAnew` is what they
have in common at each step, and `Relates` carries it through everything that grammars read.
-/
import Bracemark.Proofs.Memory

set_option autoImplicit false

namespace Bracemark

open Reading

/-! ## The only candidate -/

/-- Where one candidate at most has an outcome, a search finds the same in all lists with the
same members. -/
theorem findSome?_congr_of_mem_iff {α β : Type} {f : α → Option β} {xs ys : List α}
    (honly : ∀ x y b c, f x = some b → f y = some c → x = y) (h : ∀ x, x ∈ xs ↔ x ∈ ys) :
    xs.findSome? f = ys.findSome? f := by
  cases hxs : xs.findSome? f with
  | none =>
    rw [List.findSome?_eq_none_iff] at hxs
    refine (List.findSome?_eq_none_iff.mpr fun y hy => ?_).symm
    exact hxs y ((h y).mpr hy)
  | some b =>
    obtain ⟨x, hx, hb⟩ := List.exists_of_findSome?_eq_some hxs
    cases hys : ys.findSome? f with
    | none =>
      have hnone := List.findSome?_eq_none_iff.mp hys x ((h x).mp hx)
      rw [hb] at hnone
      cases hnone
    | some c =>
      obtain ⟨y, -, hc⟩ := List.exists_of_findSome?_eq_some hys
      obtain rfl := honly x y b c hb hc
      rw [← hb, hc]

/-! ## Scopes -/

/-- The scopes give the same answers to all that reading asks, but for the order and the
repetition of forms in their catalogues. -/
structure Scope.SameForms (s t : Scope) : Prop where
  mem_catalog (form : Form) : form ∈ s.catalog ↔ form ∈ t.catalog
  nesting : s.nesting = t.nesting
  localFlag (key : String) : s.localFlag key = t.localFlag key

namespace Scope.SameForms

variable {s t : Scope}

theorem refl (s : Scope) : s.SameForms s :=
  ⟨fun _ => Iff.rfl, rfl, fun _ => rfl⟩

theorem push_deeper (h : s.SameForms t) :
    (s.push (s.deeper [])).SameForms (t.push (t.deeper [])) := by
  refine ⟨fun form => ?_, ?_, fun key => ?_⟩
  · rw [catalog_push_deeper, catalog_push_deeper]
    exact h.mem_catalog form
  · rw [nesting_push_deeper, nesting_push_deeper, h.nesting]
  · rw [localFlag_push, localFlag_push, deeper, deeper, h.nesting]

theorem push_cell (h : s.SameForms t) :
    (s.push Parser.cellFrame).SameForms (t.push Parser.cellFrame) := by
  refine ⟨fun form => ?_, ?_, fun key => ?_⟩
  · rw [catalog_push_cell, catalog_push_cell]
    exact h.mem_catalog form
  · rw [nesting_push_cell, nesting_push_cell, h.nesting]
  · rw [localFlag_push, localFlag_push]

theorem exhausted (h : s.SameForms t) : s.exhausted = t.exhausted := by
  rw [Scope.exhausted, Scope.exhausted, h.nesting]

end Scope.SameForms

namespace Parser

variable {α β : Type}

/-! ## Two readings that recall nothing -/

/-- The runs come to the same, and neither has begun to recall. -/
structure SameAnew (x y : Option (α × Place) × Memory) : Prop where
  value : x.1 = y.1
  left : x.2.recalls = false
  right : y.2.recalls = false

/-- The parsers come to the same where the scopes have the same forms and nothing is
recalled. -/
def IgnoresOrder ⦃α : Type⦄ (p p' : Parser α) : Prop :=
  ∀ s t place m m', s.SameForms t → m.recalls = false → m'.recalls = false →
    SameAnew (p s place m) (p' t place m')

/-- Two runs that come to the same either both match, with one value and one place, or both
do not. -/
theorem SameAnew.cases {x y : Option (α × Place) × Memory} (h : SameAnew x y) :
    (x = (none, x.2) ∧ y = (none, y.2)) ∨
      ∃ a q, x = (some (a, q), x.2) ∧ y = (some (a, q), y.2) := by
  obtain ⟨r, m⟩ := x
  obtain ⟨r', m'⟩ := y
  obtain rfl : r = r' := h.value
  cases r with
  | none => exact .inl ⟨rfl, rfl⟩
  | some aq => exact .inr ⟨aq.1, aq.2, rfl, rfl⟩

theorem ignoresOrder_bind {p p' : Parser α} {f f' : α → Parser β} (hp : IgnoresOrder p p')
    (hf : ∀ a, IgnoresOrder (f a) (f' a)) : IgnoresOrder (p >>= f) (p' >>= f') := by
  intro s t place m m' hst hm hm'
  have h := hp s t place m m' hst hm hm'
  rw [bind_apply, bind_apply]
  rcases h.cases with ⟨hx, hy⟩ | ⟨a, q, hx, hy⟩
  · rw [hx, hy]
    exact ⟨rfl, h.left, h.right⟩
  · rw [hx, hy]
    exact hf a s t q _ _ hst h.left h.right

theorem ignoresOrder_orElse {p p' q q' : Parser α} (hp : IgnoresOrder p p')
    (hq : IgnoresOrder q q') : IgnoresOrder (orElse p q) (orElse p' q') := by
  intro s t place m m' hst hm hm'
  have h := hp s t place m m' hst hm hm'
  rw [orElse_apply, orElse_apply]
  rcases h.cases with ⟨hx, hy⟩ | ⟨a, q, hx, hy⟩
  · rw [hx, hy]
    exact hq s t place _ _ hst h.left h.right
  · rw [hx, hy] at h ⊢
    exact h

/-- What repetition collects is the same when each round is. -/
theorem ignoresOrder_collect {p p' : Parser α} (hp : IgnoresOrder p p') {s t : Scope}
    (hst : s.SameForms t) (fuel : Nat) :
    ∀ (limit : Option Nat) (place : Place) (m m' : Memory), m.recalls = false →
      m'.recalls = false →
      (collect p s fuel limit place m).1 = (collect p' t fuel limit place m').1 ∧
        (collect p s fuel limit place m).2.recalls = false ∧
        (collect p' t fuel limit place m').2.recalls = false := by
  induction fuel with
  | zero => exact fun limit place m m' hm hm' => ⟨rfl, hm, hm'⟩
  | succ fuel ih =>
    intro limit place m m' hm hm'
    by_cases hlimit : limit = some 0
    · subst hlimit
      exact ⟨rfl, hm, hm'⟩
    have h := hp s t place m m' hst hm hm'
    rw [collect_succ _ _ _ _ _ hlimit, collect_succ _ _ _ _ _ hlimit]
    rcases h.cases with ⟨hx, hy⟩ | ⟨a, q, hx, hy⟩
    · rw [hx, hy]
      exact ⟨rfl, h.left, h.right⟩
    · rw [hx, hy]
      dsimp only
      -- Both sides have come to one place, so both stop here or neither does.
      split
      · exact ⟨rfl, h.left, h.right⟩
      · obtain ⟨h1, h2, h3⟩ := ih (limit.map (· - 1)) q _ _ h.left h.right
        exact ⟨congrArg (fun x => (a :: x.1, x.2)) h1, h2, h3⟩

theorem ignoresOrder_many {p p' : Parser α} (least : Nat) (most : Option Nat)
    (hp : IgnoresOrder p p') : IgnoresOrder (many p least most) (many p' least most) := by
  intro s t place m m' hst hm hm'
  obtain ⟨h1, h2, h3⟩ := ignoresOrder_collect hp hst (place.left + 1) most place m m' hm hm'
  rw [many_apply, many_apply]
  generalize collect p s (place.left + 1) most place m = x at *
  generalize collect p' t (place.left + 1) most place m' = y at *
  obtain ⟨⟨as, q⟩, mx⟩ := x
  obtain ⟨⟨as', q'⟩, my⟩ := y
  obtain ⟨rfl, rfl⟩ := Prod.mk.inj h1
  dsimp only
  split
  · exact ⟨rfl, h2, h3⟩
  · exact ⟨rfl, h2, h3⟩

/-- The steps of an element. What is inside it is read one frame deeper. -/
theorem relatesElements_ignoresOrder {inner : Grammar → Parser Node}
    (hinner : ∀ g, IgnoresOrder (inner g) (inner g)) :
    RelatesElements IgnoresOrder inner inner where
  pure a := fun s t place m m' _ hm hm' => ⟨rfl, hm, hm'⟩
  bind := ignoresOrder_bind
  fail := fun s t place m m' _ hm hm' => ⟨rfl, hm, hm'⟩
  here := fun s t place m m' _ hm hm' => ⟨rfl, hm, hm'⟩
  ofPlace _ := fun s t place m m' _ hm hm' => ⟨rfl, hm, hm'⟩
  orElse := ignoresOrder_orElse
  nested g := by
    intro s t place m m' hst hm hm'
    rw [nested_apply, nested_apply, ← hst.exhausted]
    split
    · exact ⟨rfl, hm, hm'⟩
    · exact hinner g _ _ place m m' hst.push_deeper hm hm'

/-! ## Searching a catalogue -/

theorem ofPlace_bind_apply (step : Place → Option (α × Place)) (f : α → Parser β) (s : Scope)
    (place : Place) (m : Memory) :
    (ofPlace step >>= f) s place m =
      match step place with
      | none => (none, m)
      | some (a, q) => f a s q m := by
  rw [bind_apply, ofPlace_apply]
  cases step place <;> rfl

/-- The name that an element at a place is written with. -/
def nameAt? (place : Place) : Option String :=
  if ['{'].isPrefixOf place.rest then
    (Pattern.name.capture? (place.skip ['{'] (place.rest.drop 1)).rest).map fun named =>
      String.ofList named.word
  else none

section

variable {inner : Grammar → Parser Node}

/-- What a form reads has a name that the form accepts, and the name is a matter of the place
alone. -/
theorem exists_name_of_ofForm {form : Form} {s : Scope} {place : Place} {m : Memory}
    {found : Node × Place} (h : (ofForm inner form s place m).1 = some found) :
    ∃ name, nameAt? place = some name ∧ form.accepts name = true := by
  rw [ofForm, bind_apply, here_apply] at h
  dsimp only at h
  rw [exactly, ofPlace_bind_apply] at h
  by_cases hbrace : ['{'].isPrefixOf place.rest = true
  · rw [if_pos hbrace] at h
    dsimp only at h
    rw [pattern, ofPlace_bind_apply] at h
    cases hname : Pattern.name.capture? (place.skip ['{'] (place.rest.drop 1)).rest with
    | none =>
      rw [List.length_singleton, hname] at h
      cases h
    | some named =>
      rw [List.length_singleton, hname] at h
      refine ⟨String.ofList named.word, ?_, ?_⟩
      · rw [nameAt?, if_pos hbrace, hname]
        rfl
      · by_contra hrefused
        rw [Bool.not_eq_true] at hrefused
        dsimp only [Option.map_some] at h
        rw [hrefused, bind_apply] at h
        cases h
  · rw [if_neg hbrace] at h
    cases h

/-- Two forms do not both read something at one place. -/
theorem eq_of_ofForm {form other : Form} {s : Scope} {place : Place} {m : Memory}
    {found found' : Node × Place} (h : (ofForm inner form s place m).1 = some found)
    (h' : (ofForm inner other s place m).1 = some found') : form = other := by
  obtain ⟨name, hname, haccepts⟩ := exists_name_of_ofForm h
  obtain ⟨name', hname', haccepts'⟩ := exists_name_of_ofForm h'
  obtain rfl : name = name' := Option.some.inj (hname.symm.trans hname')
  exact Form.eq_of_accepts haccepts haccepts'

/-- A search comes to what the first form reads that reads anything, each of them beginning
anew, and to text in braces where none does. -/
theorem ofCatalog_value (hsteps : RelatesElements IgnoresOrder inner inner) (forms : Catalog)
    (s : Scope) (place : Place) : ∀ m : Memory, m.recalls = false →
      (ofCatalog inner forms s place m).1 =
        (forms.findSome? fun form => (ofForm inner form s place .forgetful).1).or
          (unknown inner s place .forgetful).1 := by
  induction forms with
  | nil =>
    intro m hm
    rw [List.findSome?_nil, Option.none_or]
    exact (hsteps.unknown s s place m .forgetful (.refl s) hm rfl).value
  | cons form forms ih =>
    intro m hm
    have h := hsteps.ofForm form s s place m .forgetful (.refl s) hm rfl
    rw [ofCatalog, orElse_apply, List.findSome?_cons]
    rcases h.cases with ⟨hx, hy⟩ | ⟨node, q, hx, hy⟩
    · rw [hx, hy]
      exact ih _ h.left
    · rw [hx, hy]
      rfl

/-- An element is the same whatever the order of the catalogue: no other form would have
read anything. -/
theorem ignoresOrder_recalling (hsteps : RelatesElements IgnoresOrder inner inner) :
    IgnoresOrder (catalog >>= fun forms => recalling (ofCatalog inner forms))
      (catalog >>= fun forms => recalling (ofCatalog inner forms)) := by
  intro s t place m m' hst hm hm'
  have hform : (fun form => (ofForm inner form s place .forgetful).1) =
      fun form => (ofForm inner form t place .forgetful).1 :=
    funext fun form => (hsteps.ofForm form s t place .forgetful .forgetful hst rfl rfl).value
  have hunknown := (hsteps.unknown s t place .forgetful .forgetful hst rfl rfl).value
  have hvalue : (ofCatalog inner s.catalog s place m).1 =
      (ofCatalog inner t.catalog t place m').1 := by
    rw [ofCatalog_value hsteps _ s place m hm, ofCatalog_value hsteps _ t place m' hm', hform,
      hunknown, findSome?_congr_of_mem_iff (fun _ _ _ _ => eq_of_ofForm) hst.mem_catalog]
  have hleft := (hsteps.ofCatalog s.catalog s s place m m (.refl s) hm hm).left
  have hright := (hsteps.ofCatalog t.catalog t t place m' m' (.refl t) hm' hm').left
  have h : SameAnew (ofCatalog inner s.catalog s place m) (ofCatalog inner t.catalog t place m') :=
    ⟨hvalue, hleft, hright⟩
  rw [bind_apply, bind_apply, catalog_apply, catalog_apply]
  dsimp only
  rw [recalling_apply, recalling_apply, Memory.find?_of_forgetful hm,
    Memory.find?_of_forgetful hm', ← hst.nesting]
  rcases h.cases with ⟨hx, hy⟩ | ⟨node, q, hx, hy⟩
  · rw [hx, hy]
    exact ⟨rfl, hleft, hright⟩
  · rw [hx, hy]
    dsimp only
    -- What is kept is never asked for.
    split
    · exact ⟨rfl, hleft, hright⟩
    · exact ⟨rfl, hleft, hright⟩

theorem relates_ignoresOrder (hinner : ∀ g, IgnoresOrder (inner g) (inner g)) :
    Relates IgnoresOrder inner inner :=
  { relatesElements_ignoresOrder hinner with
    many := ignoresOrder_many
    localFlag := fun key s t place m m' hst hm hm' => by
      rw [localFlag_apply, localFlag_apply, hst.localFlag]
      exact ⟨rfl, hm, hm'⟩
    nesting := fun s t place m m' hst hm hm' => by
      rw [nesting_apply, nesting_apply, hst.nesting]
      exact ⟨rfl, hm, hm'⟩
    inCell := fun hp s t place m m' hst => hp _ _ place m m' hst.push_cell
    recalling := fun _ => ignoresOrder_recalling (relatesElements_ignoresOrder hinner) }

end

/-- By induction over the levels, from the one at which no element may begin. -/
theorem ignoresOrder_inside (levels : Nat) :
    ∀ g, IgnoresOrder (Grammar.inside levels g) (Grammar.inside levels g) := by
  induction levels with
  | zero => exact fun g s t place m m' _ hm hm' => ⟨rfl, hm, hm'⟩
  | succ levels ih =>
    intro g
    show IgnoresOrder (Grammar.readAt levels g) (Grammar.readAt levels g)
    rw [Grammar.readAt_eq]
    exact (relates_ignoresOrder ih).readAbove g

/-- What a grammar reads does not depend on the order of the catalogue. -/
theorem ignoresOrder_read (g : Grammar) : IgnoresOrder (Grammar.read g) (Grammar.read g) :=
  ignoresOrder_bind (relates_ignoresOrder (ignoresOrder_inside 0)).nesting
    fun n => ignoresOrder_inside (maxNesting - n + 1) g

end Parser

/-! ## Documents -/

namespace Document

variable {forms forms' : Catalog}

/-- No flag of the outermost text is a matter of the catalogue. -/
theorem localFlag_scope (forms : Catalog) (key : String) :
    (scope forms).localFlag key = (Key.topLevel == key) := by
  have hnewest : (scope forms).getLocal? key =
      if Key.topLevel == key then some (.flag true)
      else if Key.catalog == key then some (.catalog forms) else none := by
    simp only [scope, Scope.getLocal?, Scope.ofFrame, Scope.topStart, Scope.newest?,
      List.getLast?_nil, Option.getD_none, List.drop_zero, List.reverse_cons, List.reverse_nil,
      List.nil_append, List.cons_append, List.find?_cons, List.find?_nil]
    cases Key.topLevel == key <;> cases Key.catalog == key <;> rfl
  rw [Scope.localFlag, hnewest]
  cases Key.topLevel == key <;> cases Key.catalog == key <;> rfl

theorem sameForms_scope (h : ∀ form, form ∈ forms ↔ form ∈ forms') :
    (scope forms).SameForms (scope forms') := by
  refine ⟨fun form => ?_, rfl, fun key => ?_⟩
  · rw [catalog_scope, catalog_scope]
    exact h form
  · rw [localFlag_scope, localFlag_scope]

/-- Round by round, the same parts are read, and the same character where there is none. -/
theorem readParts_congr_of_sameForms {s t : Scope} (hst : s.SameForms t) (fuel : Nat) :
    ∀ (place : Place) (m m' : Memory), m.recalls = false → m'.recalls = false →
      readParts s fuel place m = readParts t fuel place m' := by
  induction fuel with
  | zero => exact fun _ _ _ _ _ => rfl
  | succ fuel ih =>
    intro place m m' hm hm'
    have h := Parser.ignoresOrder_read .parts s t place m m' hst hm hm'
    rw [readParts, readParts]
    rcases h.cases with ⟨hx, hy⟩ | ⟨read, q, hx, hy⟩
    · rw [hx, hy]
    · rw [hx, hy]
      dsimp only
      cases hstep : q.step? with
      | none => rfl
      | some step =>
        dsimp only
        rw [ih step.2.2 _ _ h.left h.right]

/-- **The order of a catalogue says nothing, and neither does repetition.** Two catalogues
that list the same forms read the same document from every source. -/
theorem read_congr_of_mem_iff (source : String) (h : ∀ form, form ∈ forms ↔ form ∈ forms') :
    read forms source = read forms' source := by
  let first := Place.first source.toList
  have hplace : first.In source.toList := .first source.toList
  -- Each side is compared with itself when it recalls nothing.
  have hparts : readParts (scope forms) (first.left + 1) first .empty =
      readParts (scope forms') (first.left + 1) first .empty :=
    calc readParts (scope forms) (first.left + 1) first .empty
        = readParts (scope forms) (first.left + 1) first .forgetful :=
          readParts_eq_of_fresh _ (catalog_scope forms) _ _ _ _ hplace .empty rfl
      _ = readParts (scope forms') (first.left + 1) first .forgetful :=
          readParts_congr_of_sameForms (sameForms_scope h) _ _ _ _ rfl rfl
      _ = readParts (scope forms') (first.left + 1) first .empty :=
          (readParts_eq_of_fresh _ (catalog_scope forms') _ _ _ _ hplace .empty rfl).symm
  rw [read, read, readWith, readWith, hparts]

/-- Emphasis that is listed twice, around a line that is listed before it or after it. -/
theorem read_congr_of_mem_iff_repeated :
    let forms : Catalog := [.emphasis, .line, .emphasis]
    let forms' : Catalog := [.line, .emphasis]
    let source := "\x7bb|x\x7bl|y\x7d\x7d"
    (∀ form, form ∈ forms ↔ form ∈ forms') ∧
      (read forms source).root.nodes.filterMap Node.name? = ["b", "l"] ∧
      read forms source = read forms' source := by
  intro forms forms' source
  have h : ∀ form, form ∈ forms ↔ form ∈ forms' := by
    intro form
    cases form <;> decide
  exact ⟨h, by decide +kernel, read_congr_of_mem_iff source h⟩

end Document

end Bracemark
