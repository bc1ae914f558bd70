/-
What is recalled is what would be read.

A memory is never cleared when an alternative is given up, and it is shared by
cells, captions, list bodies and outermost text, which read under different local
flags. What keeps it right is that an element asks the scope for two things only,
the catalogue and the nesting: its own frame hides every local flag
(`Scope.Akin.alike_push`). So an entry made in one alternative is what any other
would have read at that place (`Recollection.Fresh`).

The proof runs two readings side by side, one with a memory whose entries are all
fresh and one that never recalls, in scopes that answer alike. `Agree` is the
relation between them. Elements are compared under the weaker `AgreeAkin`, which
forgets the local flags: that is what a new entry is justified by.
-/
import Bracemark.Proofs.Ways

set_option autoImplicit false

namespace Bracemark

open Reading

/-! ## Scopes that answer alike -/

namespace Scope

/-- The scopes give the same answers about catalogue and nesting. -/
structure Akin (s t : Scope) : Prop where
  catalog : s.catalog = t.catalog
  nesting : s.nesting = t.nesting

/-- The scopes give the same answers to all that reading asks. -/
structure Alike (s t : Scope) : Prop extends Akin s t where
  localFlag (key : String) : s.localFlag key = t.localFlag key

theorem Alike.refl (s : Scope) : s.Alike s :=
  ⟨⟨rfl, rfl⟩, fun _ => rfl⟩

theorem get?_push (s : Scope) (frame : Frame) (key : String) :
    (s.push frame).get? key = (newest? frame key).or (s.get? key) :=
  newest?_append s.entries frame key

/-- A frame hides all local flags outside it. -/
theorem localFlag_push (s : Scope) (frame : Frame) (key : String) :
    (s.push frame).localFlag key = (((newest? frame key).bind Setting.asFlag?).getD false) := by
  simp [localFlag, getLocal?, push, topStart]

theorem catalog_push {frame : Frame} (h : newest? frame Key.catalog = none) (s : Scope) :
    (s.push frame).catalog = s.catalog := by
  rw [catalog, get?_push, h, Option.none_or]
  rfl

theorem nesting_push {frame : Frame} (h : newest? frame Key.nesting = none) (s : Scope) :
    (s.push frame).nesting = s.nesting := by
  rw [nesting, get?_push, h, Option.none_or]
  rfl

/-- Inside an element there is one element more around. -/
theorem nesting_push_deeper (s : Scope) : (s.push (s.deeper [])).nesting = s.nesting + 1 := by
  rw [nesting, get?_push]
  simp [deeper, newest?, Setting.asNumber?]

theorem catalog_push_deeper (s : Scope) : (s.push (s.deeper [])).catalog = s.catalog :=
  catalog_push (by simp [deeper, newest?, Key.nesting, Key.catalog]) s

theorem nesting_push_cell (s : Scope) : (s.push Parser.cellFrame).nesting = s.nesting :=
  nesting_push (by simp [Parser.cellFrame, newest?, Key.nesting, Key.cellText]) s

theorem catalog_push_cell (s : Scope) : (s.push Parser.cellFrame).catalog = s.catalog :=
  catalog_push (by simp [Parser.cellFrame, newest?, Key.catalog, Key.cellText]) s

/-- Scopes that agree on catalogue and nesting agree on everything inside an
element. -/
theorem Akin.alike_push {s t : Scope} (h : s.Akin t) :
    (s.push (s.deeper [])).Alike (t.push (t.deeper [])) := by
  refine ⟨⟨?_, ?_⟩, fun key => ?_⟩
  · rw [catalog_push_deeper, catalog_push_deeper, h.catalog]
  · rw [nesting_push_deeper, nesting_push_deeper, h.nesting]
  · -- The new frame holds the nesting alone, and the nesting is the same.
    rw [localFlag_push, localFlag_push, deeper, deeper, h.nesting]

theorem Alike.push_cell {s t : Scope} (h : s.Alike t) :
    (s.push Parser.cellFrame).Alike (t.push Parser.cellFrame) := by
  refine ⟨⟨?_, ?_⟩, fun key => ?_⟩
  · rw [catalog_push_cell, catalog_push_cell, h.catalog]
  · rw [nesting_push_cell, nesting_push_cell, h.nesting]
  · rw [localFlag_push, localFlag_push]

end Scope

/-! ## What a memory holds -/

namespace Memory

/-- Everything that a memory holds has a property. -/
def Holds (K : Recollection → Prop) (m : Memory) : Prop :=
  ∀ r ∈ m.recollections, K r

variable {K : Recollection → Prop}

theorem Holds.empty : Memory.empty.Holds K := by
  intro r hr
  cases hr

theorem Holds.remember {m : Memory} (h : m.Holds K) {r : Recollection} (hr : K r) :
    (m.remember r).Holds K := by
  intro r' hr'
  rcases List.mem_cons.mp hr' with rfl | hr'
  · exact hr
  · exact h r' hr'

/-- What is recalled was read at that offset and nesting. -/
theorem Holds.find? {m : Memory} (h : m.Holds K) {start nesting : Nat} {r : Recollection}
    (hr : m.find? start nesting = some r) : K r ∧ r.start = start ∧ r.nesting = nesting := by
  simp only [Memory.find?] at hr
  split at hr
  · have hkey := List.find?_some hr
    simp only [Bool.and_eq_true, beq_iff_eq] at hkey
    exact ⟨h r (List.mem_of_find?_eq_some hr), hkey⟩
  · cases hr

theorem find?_of_forgetful {m : Memory} (h : m.recalls = false) (start nesting : Nat) :
    m.find? start nesting = none := by
  simp [Memory.find?, h]

end Memory

/-! ## Levels -/

namespace Grammar

variable {m : Type → Type} [Reading m]

/-- What is read inside elements where they may be nested `levels` deeper: nothing,
where they may not. -/
def inside : Nat → Grammar → m Node
  | 0, _ => fail
  | levels + 1, g => readAt levels g

theorem readAt_eq (levels : Nat) (g : Grammar) :
    (readAt levels g : m Node) = readAbove (inside levels) g := by
  cases levels <;> rfl

/-- Reading begins at the level that the scope in force leaves. -/
theorem read_apply (g : Grammar) (s : Scope) (place : Place) (m : Memory) :
    (g.read : Parser Node) s place m =
      (readAbove (inside (maxNesting - s.nesting)) g : Parser Node) s place m := by
  show (readAt (maxNesting - s.nesting) g : Parser Node) s place m = _
  rw [readAt_eq]

/-- An element at the place of reading, read anew: the first form of a catalogue
that fits, or else text in braces. -/
def anew (forms : Catalog) : m Node := do
  let n ← nesting
  Parser.ofCatalog (inside (maxNesting - n)) forms

end Grammar

/-! ## Fresh recollections -/

section

variable (source : List Char) (forms : Catalog)

/-- A recollection is what reading anew gives at its offset, inside as many
elements, under whatever other settings. -/
def Recollection.Fresh (r : Recollection) : Prop :=
  ∀ (t : Scope) (place : Place) (m : Memory), t.catalog = forms → t.nesting = r.nesting →
    place.In source → place.offset = r.start → m.recalls = false →
      ((Grammar.anew forms : Parser Node) t place m).1 = some (r.node, r.after) ∧
        place.Before r.after

namespace Parser

/-- Two runs come to the same, the first leaves a memory of fresh recollections, the
second one that does not recall, and what matches goes on. -/
structure SameEnd {α : Type} (place : Place) (x y : Option (α × Place) × Memory) : Prop where
  value : x.1 = y.1
  fresh : x.2.Holds (Recollection.Fresh source forms)
  forgetful : y.2.recalls = false
  onward : ∀ a q, x.1 = some (a, q) → place.Before q

/-- Two parsers come to the same in scopes in a relation, where elements may be
nested `levels` deeper. -/
def AgreeIn (S : Scope → Scope → Prop) (levels : Nat) ⦃α : Type⦄ (p p' : Parser α) : Prop :=
  ∀ s t place m m', S s t → s.catalog = forms → maxNesting - s.nesting = levels →
    place.In source → m.Holds (Recollection.Fresh source forms) → m'.recalls = false →
      SameEnd source forms place (p s place m) (p' t place m')

variable {source forms}

/-- What comes to the same in scopes in one relation does so in a narrower one. -/
theorem AgreeIn.mono {S T : Scope → Scope → Prop} {levels : Nat} {α : Type} {p p' : Parser α}
    (h : AgreeIn source forms T levels p p') (hST : ∀ {s t}, S s t → T s t) :
    AgreeIn source forms S levels p p' :=
  fun s t place m m' hS => h s t place m m' (hST hS)

theorem SameEnd.of_some {α : Type} {place q : Place} {m m' : Memory} (a : α)
    (hm : m.Holds (Recollection.Fresh source forms)) (hm' : m'.recalls = false)
    (hq : place.Before q) : SameEnd source forms place (some (a, q), m) (some (a, q), m') :=
  ⟨rfl, hm, hm', fun _ _ h => by cases h; exact hq⟩

theorem SameEnd.of_none {α : Type} {place : Place} {m m' : Memory}
    (hm : m.Holds (Recollection.Fresh source forms)) (hm' : m'.recalls = false) :
    SameEnd source forms place ((none, m) : Option (α × Place) × Memory) (none, m') :=
  ⟨rfl, hm, hm', fun _ _ h => by cases h⟩

/-- Two runs that come to the same either both match, with one value and one place,
or both do not. -/
theorem SameEnd.cases {α : Type} {place : Place} {x y : Option (α × Place) × Memory}
    (h : SameEnd source forms place x y) :
    (x = (none, x.2) ∧ y = (none, y.2)) ∨
      ∃ a q, x = (some (a, q), x.2) ∧ y = (some (a, q), y.2) ∧ place.Before q := by
  obtain ⟨r, m⟩ := x
  obtain ⟨r', m'⟩ := y
  obtain rfl : r = r' := h.value
  cases r with
  | none => exact .inl ⟨rfl, rfl⟩
  | some aq => exact .inr ⟨aq.1, aq.2, rfl, rfl, h.onward aq.1 aq.2 rfl⟩

/-! ## Each step -/

/-- Steps that do not look at the scope agree in all scopes, and so does what is made
of them. -/
theorem relatesElements_agreeIn {S : Scope → Scope → Prop} {levels : Nat}
    {inner : Grammar → Parser Node}
    (hnested : ∀ g, AgreeIn source forms S levels (nested [] (inner g)) (nested [] (inner g))) :
    RelatesElements (AgreeIn source forms S levels) inner inner where
  pure a := fun s t place m m' _ _ _ _ hm hm' => .of_some a hm hm' (.refl place)
  fail := fun s t place m m' _ _ _ _ hm hm' => .of_none hm hm'
  here := fun s t place m m' _ _ _ _ hm hm' => .of_some place hm hm' (.refl place)
  ofPlace {α step} hstep := fun s t place m m' _ _ _ _ hm hm' =>
    ⟨rfl, hm, hm', fun a q h => hstep place a q h⟩
  bind {α β p p' f f'} hp hf := by
    intro s t place m m' hS hforms hlevels hplace hm hm'
    have h := hp s t place m m' hS hforms hlevels hplace hm hm'
    rw [bind_apply, bind_apply]
    rcases h.cases with ⟨hx, hy⟩ | ⟨a, q, hx, hy, hq⟩
    · rw [hx, hy]
      exact .of_none h.fresh h.forgetful
    · rw [hx, hy]
      have h' := hf a s t q _ _ hS hforms hlevels (hplace.of_before hq) h.fresh h.forgetful
      exact ⟨h'.value, h'.fresh, h'.forgetful, fun b r hr => hq.trans (h'.onward b r hr)⟩
  orElse {α p q p' q'} hp hq := by
    intro s t place m m' hS hforms hlevels hplace hm hm'
    have h := hp s t place m m' hS hforms hlevels hplace hm hm'
    rw [orElse_apply, orElse_apply]
    rcases h.cases with ⟨hx, hy⟩ | ⟨a, q, hx, hy, -⟩
    · rw [hx, hy]
      exact hq s t place _ _ hS hforms hlevels hplace h.fresh h.forgetful
    · rw [hx, hy] at h ⊢
      exact h
  nested := hnested

/-- What repetition collects agrees when each round does. -/
theorem agreeIn_collect {S : Scope → Scope → Prop} {levels : Nat} {α : Type} {p p' : Parser α}
    (hp : AgreeIn source forms S levels p p') (s t : Scope) (hS : S s t)
    (hforms : s.catalog = forms) (hlevels : maxNesting - s.nesting = levels) (fuel : Nat) :
    ∀ (limit : Option Nat) (place : Place) (m m' : Memory), place.In source →
      m.Holds (Recollection.Fresh source forms) → m'.recalls = false →
      (collect p s fuel limit place m).1 = (collect p' t fuel limit place m').1 ∧
        (collect p s fuel limit place m).2.Holds (Recollection.Fresh source forms) ∧
        (collect p' t fuel limit place m').2.recalls = false ∧
        place.Before (collect p s fuel limit place m).1.2 := by
  induction fuel with
  | zero => exact fun limit place m m' _ hm hm' => ⟨rfl, hm, hm', .refl place⟩
  | succ fuel ih =>
    intro limit place m m' hplace hm hm'
    by_cases hlimit : limit = some 0
    · subst hlimit
      exact ⟨rfl, hm, hm', .refl place⟩
    have h := hp s t place m m' hS hforms hlevels hplace hm hm'
    rw [collect_succ _ _ _ _ _ hlimit, collect_succ _ _ _ _ _ hlimit]
    rcases h.cases with ⟨hx, hy⟩ | ⟨a, q, hx, hy, hq⟩
    · rw [hx, hy]
      exact ⟨rfl, h.fresh, h.forgetful, .refl place⟩
    · rw [hx, hy]
      dsimp only
      -- Both sides have come to one place, so both stop here or neither does.
      split
      · exact ⟨rfl, h.fresh, h.forgetful, .refl place⟩
      · obtain ⟨h1, h2, h3, h4⟩ :=
          ih (limit.map (· - 1)) q _ _ (hplace.of_before hq) h.fresh h.forgetful
        exact ⟨congrArg (fun x => (a :: x.1, x.2)) h1, h2, h3, hq.trans h4⟩

theorem agreeIn_many {S : Scope → Scope → Prop} {levels : Nat} {α : Type} {p p' : Parser α}
    (least : Nat) (most : Option Nat) (hp : AgreeIn source forms S levels p p') :
    AgreeIn source forms S levels (many p least most) (many p' least most) := by
  intro s t place m m' hS hforms hlevels hplace hm hm'
  obtain ⟨h1, h2, h3, h4⟩ :=
    agreeIn_collect hp s t hS hforms hlevels (place.left + 1) most place m m' hplace hm hm'
  rw [many_apply, many_apply]
  generalize collect p s (place.left + 1) most place m = x at *
  generalize collect p' t (place.left + 1) most place m' = y at *
  obtain ⟨⟨as, q⟩, mx⟩ := x
  obtain ⟨⟨as', q'⟩, my⟩ := y
  obtain ⟨rfl, rfl⟩ := Prod.mk.inj h1
  dsimp only
  split
  · exact .of_none h2 h3
  · exact .of_some as h2 h3 h4

/-! ## Elements -/

/-- Scopes that are akin read alike inside elements, so what is read around the
content need not know the local flags. -/
theorem agreeIn_nested {S : Scope → Scope → Prop} {levels : Nat}
    (hS : ∀ {s t}, S s t → s.Akin t)
    (hbelow : ∀ k, levels = k + 1 → ∀ g,
      AgreeIn source forms Scope.Alike k (Grammar.readAt k g) (Grammar.readAt k g))
    (g : Grammar) :
    AgreeIn source forms S levels (nested [] (Grammar.inside levels g))
      (nested [] (Grammar.inside levels g)) := by
  intro s t place m m' hst hforms hlevels hplace hm hm'
  have hakin := hS hst
  have hexhausted : s.exhausted = t.exhausted := by
    rw [Scope.exhausted, Scope.exhausted, hakin.nesting]
  rw [nested_apply, nested_apply, ← hexhausted]
  split
  · exact .of_none hm hm'
  · next hfits =>
    simp only [Scope.exhausted, decide_eq_true_eq, not_le] at hfits
    -- One element more around leaves one level less.
    obtain ⟨k, rfl⟩ : ∃ k, levels = k + 1 := ⟨levels - 1, by omega⟩
    refine hbelow k rfl g _ _ place m m' hakin.alike_push ?_ ?_ hplace hm hm'
    · rw [Scope.catalog_push_deeper, hforms]
    · rw [Scope.nesting_push_deeper]
      omega

theorem anew_apply (forms : Catalog) (t : Scope) (place : Place) (m : Memory) :
    (Grammar.anew forms : Parser Node) t place m =
      (ofCatalog (Grammar.inside (maxNesting - t.nesting)) forms : Parser Node) t place m := rfl

/-- At an opening brace, short of the limit, an element is taken from memory or read. -/
theorem read_element {s : Scope} {place : Place}
    (hopens : (place.startsWith '{' && !s.exhausted) = true) (m : Memory) :
    ((Grammar.rule .element).read : Parser Node) s place m =
      (recalling (ofCatalog (Grammar.inside (maxNesting - s.nesting)) s.catalog) : Parser Node)
        s place m := by
  rw [Grammar.read_apply]
  show (require (place.startsWith '{' && !s.exhausted) >>= fun _ => catalog >>= fun forms =>
    recalling (ofCatalog (Grammar.inside (maxNesting - s.nesting)) forms) : Parser Node)
      s place m = _
  rw [hopens]
  rfl

/-- What has just been read with fresh recollections is itself fresh. -/
theorem fresh_of_agreeIn {levels : Nat} {s : Scope} {place q : Place} {m : Memory} {node : Node}
    (hakin : AgreeIn source forms Scope.Akin levels
      (ofCatalog (Grammar.inside levels) forms) (ofCatalog (Grammar.inside levels) forms))
    (hforms : s.catalog = forms) (hlevels : maxNesting - s.nesting = levels)
    (hplace : place.In source) (hm : m.Holds (Recollection.Fresh source forms))
    (hread : ((ofCatalog (Grammar.inside levels) forms : Parser Node) s place m).1 =
      some (node, q)) :
    Recollection.Fresh source forms ⟨place.offset, s.nesting, node, q⟩ := by
  intro t place' m' hcatalog hnesting hplace' hoffset hm'
  obtain rfl : place' = place := hplace'.eq_of_offset hplace hoffset
  have h := hakin s t place' m m' ⟨hforms.trans hcatalog.symm, hnesting.symm⟩ hforms hlevels
    hplace hm hm'
  rw [anew_apply, hnesting, hlevels, ← h.value]
  exact ⟨hread, h.onward node q hread⟩

/-- An element that was taken from memory is the one that would have been read, and
one that is kept would have been read anew. -/
theorem agreeIn_recalling {levels : Nat}
    (hakin : ∀ forms', AgreeIn source forms Scope.Akin levels
      (ofCatalog (Grammar.inside levels) forms') (ofCatalog (Grammar.inside levels) forms')) :
    AgreeIn source forms Scope.Akin levels
      (catalog >>= fun forms' => recalling (ofCatalog (Grammar.inside levels) forms'))
      (catalog >>= fun forms' => recalling (ofCatalog (Grammar.inside levels) forms')) := by
  intro s t place m m' hst hforms hlevels hplace hm hm'
  rw [bind_apply, bind_apply, catalog_apply, catalog_apply, ← hst.catalog, hforms]
  dsimp only
  rw [recalling_apply, recalling_apply, Memory.find?_of_forgetful hm', ← hst.nesting]
  have h := hakin forms s t place m m' hst hforms hlevels hplace hm hm'
  cases hfound : m.find? place.offset s.nesting with
  | some r =>
    obtain ⟨hfresh, hstart, hnesting⟩ := hm.find? hfound
    obtain ⟨hvalue, hafter⟩ := hfresh t place m' (hst.catalog ▸ hforms)
      (hst.nesting ▸ hnesting.symm) hplace hstart.symm hm'
    rw [anew_apply, ← hst.nesting, hlevels] at hvalue
    -- The side that does not recall reads the element; whether it keeps it is no matter.
    rcases h.cases with ⟨-, hy⟩ | ⟨a, q, -, hy, -⟩
    · rw [hy] at hvalue
      cases hvalue
    · rw [hy] at hvalue ⊢
      cases hvalue
      dsimp only
      split
      · exact .of_some r.node hm h.forgetful hafter
      · exact .of_some r.node hm h.forgetful hafter
  | none =>
    rcases h.cases with ⟨hx, hy⟩ | ⟨node, q, hx, hy, hq⟩
    · rw [hx, hy]
      exact .of_none h.fresh h.forgetful
    · have hnew := fresh_of_agreeIn (hakin forms) hforms hlevels hplace hm (congrArg Prod.fst hx)
      rw [hx, hy]
      dsimp only
      split
      · exact .of_some node h.fresh h.forgetful hq
      · exact .of_some node (h.fresh.remember hnew) h.forgetful hq

/-! ## Grammars -/

/-- Reading with fresh recollections and reading without memory agree at every
level, by induction from the level at which no element may begin. -/
theorem agreeIn_readAt (levels : Nat) (g : Grammar) :
    AgreeIn source forms Scope.Alike levels (Grammar.readAt levels g)
      (Grammar.readAt levels g) := by
  induction levels using Nat.strong_induction_on generalizing g with
  | _ levels ih =>
    have hbelow : ∀ k, levels = k + 1 → ∀ g,
        AgreeIn source forms Scope.Alike k (Grammar.readAt k g) (Grammar.readAt k g) :=
      fun k hk g => ih k (by omega) g
    -- Elements of this level are compared under any local flags, for the sake of what
    -- is kept of them; everything else under the same.
    have hakin := relatesElements_agreeIn (agreeIn_nested (fun h => h) hbelow)
    have halike := relatesElements_agreeIn (agreeIn_nested Scope.Alike.toAkin hbelow)
    have hsteps : Relates (AgreeIn source forms Scope.Alike levels) (Grammar.inside levels)
        (Grammar.inside levels) :=
      { halike with
        many := fun least most hp => agreeIn_many least most hp
        localFlag := fun key s t place m m' hst _ _ _ hm hm' => by
          rw [localFlag_apply, localFlag_apply, hst.localFlag]
          exact .of_some _ hm hm' (.refl place)
        nesting := fun s t place m m' hst _ _ _ hm hm' => by
          rw [nesting_apply, nesting_apply, hst.nesting]
          exact .of_some _ hm hm' (.refl place)
        inCell := fun hp s t place m m' hst hforms hlevels hplace hm hm' =>
          hp _ _ place m m' hst.push_cell ((Scope.catalog_push_cell s).trans hforms)
            (by rwa [Scope.nesting_push_cell s]) hplace hm hm'
        recalling := fun _ => (agreeIn_recalling hakin.ofCatalog).mono Scope.Alike.toAkin }
    rw [Grammar.readAt_eq]
    exact hsteps.readAbove g

/-- A grammar reads the same with a memory of fresh recollections as without one, and
leaves such a memory. -/
theorem sameEnd_read (g : Grammar) {s : Scope} {place : Place} {m m' : Memory}
    (hforms : s.catalog = forms) (hplace : place.In source)
    (hm : m.Holds (Recollection.Fresh source forms)) (hm' : m'.recalls = false) :
    SameEnd source forms place ((g.read : Parser Node) s place m)
      ((g.read : Parser Node) s place m') :=
  agreeIn_readAt (maxNesting - s.nesting) g s s place m m' (.refl s) hforms rfl hplace hm hm'

end Parser

/-! ## Every point of a reading -/

/-- The memories that reading a source can come to: an empty one to begin with, and
then whatever any grammar leaves, at any place and in any scope with the catalogue.
What is read in the midst of something else is read like this, too. -/
inductive Memory.Reached : Memory → Prop
  | empty : Reached .empty
  | read {m : Memory} (g : Grammar) (s : Scope) (place : Place) (hforms : s.catalog = forms)
      (hplace : place.In source) (h : Reached m) : Reached ((g.read : Parser Node) s place m).2

variable {source forms}

theorem Memory.Reached.holds_fresh {m : Memory} (h : Memory.Reached source forms m) :
    m.Holds (Recollection.Fresh source forms) := by
  induction h with
  | empty => exact Memory.Holds.empty
  | read g s place hforms hplace _ ih =>
    have hread := Parser.sameEnd_read g hforms hplace ih (rfl : Memory.forgetful.recalls = false)
    exact hread.fresh

/-! ## Documents -/

namespace Document

theorem catalog_scope (forms : Catalog) : (scope forms).catalog = forms := by
  simp [scope, Scope.catalog, Scope.get?, Scope.ofFrame, Scope.newest?, Key.catalog, Key.topLevel,
    Setting.asCatalog?]

theorem readParts_eq_of_fresh (s : Scope) (hforms : s.catalog = forms) (fuel : Nat) :
    ∀ (place : Place) (m m' : Memory), place.In source →
      m.Holds (Recollection.Fresh source forms) → m'.recalls = false →
        readParts s fuel place m = readParts s fuel place m' := by
  induction fuel with
  | zero => exact fun _ _ _ _ _ _ => rfl
  | succ fuel ih =>
    intro place m m' hplace hm hm'
    have h := Parser.sameEnd_read .parts hforms hplace hm hm'
    rw [readParts, readParts]
    rcases h.cases with ⟨hx, hy⟩ | ⟨read, q, hx, hy, hq⟩
    · rw [hx, hy]
    · rw [hx, hy]
      dsimp only
      cases hstep : q.step? with
      | none => rfl
      | some step =>
        obtain ⟨c, span, next⟩ := step
        have hnext : q.Before next := Parser.advances_nextChar q c next (by
          rw [Parser.nextChar, hstep]
          rfl)
        dsimp only
        rw [ih next _ _ ((hplace.of_before hq).of_before hnext) h.fresh h.forgetful]

end Document

end

end Bracemark
