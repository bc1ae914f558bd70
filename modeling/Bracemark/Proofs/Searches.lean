/-
No element is searched for twice.

Alternatives are tried one after another, and each of them may read the same elements again. To say
how often the catalogue is searched for an element, reading is watched: a `Watcher` reads as a
parser does and writes down which searches begin and what is kept in memory. Its memory is what it
has written down as kept (`SearchLog.memory`), and it reads what a parser reads
(`Watcher.watches_readAt`).

What is read inside an element is deeper than the element. So while the catalogue is searched,
nothing happens to elements with as few others around them (`SearchLog.Continues`). And a search
never fails, since text in braces is tried last. So whenever a search begins, all earlier ones at
its depth are over and their elements are kept (`SearchLog.Settled`), and what is not in memory has
not been searched for.

The log also says which memories there are on the way, those of its earlier stages. All of them are
memories that reading can come to (`SearchLog.Orderly`): what is kept of an element is what reading
that element leaves.

The outermost elements are not kept. Nothing is around them that could be given up.
-/
import Bracemark.Proofs.Making

set_option autoImplicit false

namespace Bracemark

open Reading

/-! ## What happens to elements -/

/-- What an element is kept under: the offset at which it begins and the number of elements around
it. -/
def Recollection.key (r : Recollection) : Nat × Nat :=
  (r.start, r.nesting)

/-- What happens to elements while something is read. -/
inductive SearchEvent where
  /-- The catalogue is searched for the element at an offset inside so many others. -/
  | searched (start nesting : Nat)
  /-- An element is kept in memory. -/
  | kept (r : Recollection)

/-- The element that an event is about. -/
def SearchEvent.key : SearchEvent → Nat × Nat
  | .searched start nesting => (start, nesting)
  | .kept r => r.key

/-- What has happened, newest first. -/
abbrev SearchLog := List SearchEvent

namespace SearchLog

/-- The elements that have been searched for. -/
def searches (l : SearchLog) : List (Nat × Nat) :=
  l.filterMap fun
    | .searched start nesting => some (start, nesting)
    | .kept _ => none

/-- The elements that have been kept. -/
def keeps (l : SearchLog) : List Recollection :=
  l.filterMap fun
    | .searched _ _ => none
    | .kept r => some r

/-- The memory: all that has been kept. -/
def memory (l : SearchLog) : Memory :=
  ⟨keeps l, true⟩

/-- Whether there is an element in memory under a key. -/
def Knows (l : SearchLog) (key : Nat × Nat) : Prop :=
  key ∈ (keeps l).map Recollection.key

end SearchLog

/-! ## Watched reading -/

/-- A parser that writes down what happens to elements. -/
def Watcher (α : Type) : Type :=
  Scope → Place → SearchLog → Option (α × Place) × SearchLog

namespace Watcher

variable {α β : Type}

/-- Repetition, as parsers have it. -/
def collect (w : Watcher α) (scope : Scope) :
    Nat → Option Nat → Place → SearchLog → (List α × Place) × SearchLog
  | 0, _, place, log => (([], place), log)
  | _ + 1, some 0, place, log => (([], place), log)
  | fuel + 1, limit, place, log =>
    match w scope place log with
    | (none, log) => (([], place), log)
    | (some (a, next), log) =>
      if next.offset = place.offset then (([], place), log)
      else
        let ((as, last), log) := collect w scope fuel (limit.map (· - 1)) next log
        ((a :: as, last), log)

/-- All steps are those of parsers, but for what is written down when an element is not found in
memory. -/
instance : Reading Watcher where
  pure a := fun _ place log => (some (a, place), log)
  bind w f := fun scope place log =>
    match w scope place log with
    | (none, log) => (none, log)
    | (some (a, place), log) => f a scope place log
  fail := fun _ _ log => (none, log)
  here := fun _ place log => (some (place, place), log)
  ofPlace step := fun _ place log => (step place, log)
  orElse w v := fun scope place log =>
    match w scope place log with
    | (none, log) => v scope place log
    | matched => matched
  many w least most := fun scope place log =>
    let ((as, last), log) := collect w scope (place.left + 1) most place log
    if as.length < least then (none, log) else (some (as, last), log)
  localFlag key := fun scope place log => (some (scope.localFlag key, place), log)
  catalog := fun scope place log => (some (scope.catalog, place), log)
  nesting := fun scope place log => (some (scope.nesting, place), log)
  inFrame frame w := fun scope place log => w (scope.push frame) place log
  nested frame w := fun scope place log =>
    if scope.exhausted then (none, log) else w (scope.push (scope.deeper frame)) place log
  recalling w := fun scope place log =>
    match log.memory.find? place.offset scope.nesting with
    | some r => (some (r.node, r.after), log)
    | none =>
      match w scope place (.searched place.offset scope.nesting :: log) with
      | (none, log) => (none, log)
      | (some (node, after), log) =>
        if scope.nesting = 0 then (some (node, after), log)
        else (some (node, after), .kept ⟨place.offset, scope.nesting, node, after⟩ :: log)

section

variable (s : Scope) (place : Place) (l : SearchLog)

theorem bind_apply (w : Watcher α) (f : α → Watcher β) :
    (w >>= f) s place l =
      match w s place l with
      | (none, l) => (none, l)
      | (some (a, place), l) => f a s place l := rfl

theorem orElse_apply (w v : Watcher α) :
    (Reading.orElse w v) s place l =
      match w s place l with
      | (none, l) => v s place l
      | matched => matched := rfl

theorem collect_succ (w : Watcher α) (fuel : Nat) {limit : Option Nat} (h : limit ≠ some 0) :
    collect w s (fuel + 1) limit place l =
      match w s place l with
      | (none, l) => (([], place), l)
      | (some (a, next), l) =>
        if next.offset = place.offset then (([], place), l)
        else
          let ((as, last), l) := collect w s fuel (limit.map (· - 1)) next l
          ((a :: as, last), l) := by
  rw [collect]
  exact h

theorem many_apply (w : Watcher α) (least : Nat) (most : Option Nat) :
    (Reading.many w least most) s place l =
      let ((as, last), l) := collect w s (place.left + 1) most place l
      if as.length < least then (none, l) else (some (as, last), l) := rfl

theorem nested_apply (frame : Frame) (w : Watcher α) :
    (Reading.nested frame w) s place l =
      if s.exhausted then (none, l) else w (s.push (s.deeper frame)) place l := rfl

theorem recalling_apply (w : Watcher Node) :
    (Reading.recalling w) s place l =
      match l.memory.find? place.offset s.nesting with
      | some r => (some (r.node, r.after), l)
      | none =>
        match w s place (.searched place.offset s.nesting :: l) with
        | (none, l) => (none, l)
        | (some (node, after), l) =>
          if s.nesting = 0 then (some (node, after), l)
          else (some (node, after), .kept ⟨place.offset, s.nesting, node, after⟩ :: l) := rfl

end

end Watcher

/-! ## Orderly logs -/

/-- An opening brace stands at an offset of the source. -/
def OpensAt (source : List Char) (offset : Nat) : Prop :=
  ∃ before after, source = before ++ '{' :: after ∧ width before = offset

theorem Place.In.opensAt {source : List Char} {place : Place} (h : place.In source)
    (hbrace : place.startsWith '{' = true) : OpensAt source place.offset := by
  obtain ⟨before, hsource, hwidth, -⟩ := h
  rw [startsWith, beq_iff_eq] at hbrace
  obtain ⟨after, hrest⟩ := List.head?_eq_some_iff.mp hbrace
  exact ⟨before, after, by rw [← hsource, hrest], hwidth⟩

namespace SearchLog

variable {source : List Char} {forms : Catalog} {l l' new : SearchLog} {key : Nat × Nat}
  {start nesting k k' : Nat}

theorem find?_eq_none : (memory l).find? start nesting = none ↔ ¬ l.Knows (start, nesting) := by
  simp [Memory.find?, memory, Knows, Recollection.key]

theorem searches_append (new l : SearchLog) : searches (new ++ l) = searches new ++ searches l :=
  List.filterMap_append

theorem knows_append : Knows (new ++ l) key ↔ new.Knows key ∨ l.Knows key := by
  rw [Knows, keeps, List.filterMap_append, List.map_append, List.mem_append]
  rfl

theorem exists_of_mem_searches (h : key ∈ searches l) : ∃ e ∈ l, e.key = key := by
  obtain ⟨e, he, hkey⟩ := List.mem_filterMap.mp h
  cases e with
  | searched start nesting => exact ⟨_, he, Option.some.inj hkey⟩
  | kept r => cases hkey

theorem exists_of_knows (h : l.Knows key) : ∃ e ∈ l, e.key = key := by
  obtain ⟨r, hr, rfl⟩ := List.mem_map.mp h
  obtain ⟨e, he, hkept⟩ := List.mem_filterMap.mp hr
  cases e with
  | searched start nesting => cases hkept
  | kept r' => exact ⟨_, he, congrArg Recollection.key (Option.some.inj hkept)⟩

theorem forall_suffix_cons {P : SearchLog → Prop} {e : SearchEvent} (h : P (e :: l))
    (hl : ∀ earlier, earlier <:+ l → P earlier) : ∀ earlier, earlier <:+ e :: l → P earlier := by
  intro earlier hearlier
  rcases List.suffix_cons_iff.mp hearlier with rfl | hearlier
  · exact h
  · exact hl earlier hearlier

/-- What a log must be like: an element inside others is searched for once at most, and kept once at
most. It is an opening brace that is searched at, not inside too many elements, and what is kept
has been searched for and ends in the source. The memory at every stage of the log is one that
reading can come to. -/
structure Orderly (source : List Char) (forms : Catalog) (l : SearchLog) : Prop where
  searchedOnce : ∀ key, 0 < key.2 → (searches l).count key ≤ 1
  keptOnce : ((keeps l).map Recollection.key).Nodup
  opens : ∀ key ∈ searches l, OpensAt source key.1 ∧ key.2 < maxNesting
  kept : ∀ r ∈ keeps l, r.EndsIn source ∧ 0 < r.nesting ∧ r.key ∈ searches l
  reached : ∀ earlier, earlier <:+ l → Memory.Reached source forms (memory earlier)

/-- In the beginning nothing has happened. -/
theorem Orderly.nil : Orderly source forms [] where
  searchedOnce _ _ := Nat.zero_le 1
  keptOnce := List.nodup_nil
  opens := List.forall_mem_nil _
  kept := List.forall_mem_nil _
  reached earlier hearlier := by
    obtain rfl := List.suffix_nil.mp hearlier
    exact .empty

/-- Every element inside `k` others or more that has been searched for is in memory. -/
def Settled (k : Nat) (l : SearchLog) : Prop :=
  ∀ key ∈ searches l, k ≤ key.2 → 0 < key.2 → l.Knows key

theorem Settled.mono (h : l.Settled k) (hk : k ≤ k') : l.Settled k' :=
  fun key hkey hle => h key hkey (hk.trans hle)

/-- An orderly log goes on, with events that are about elements inside `k` others or more. -/
structure Continues (source : List Char) (forms : Catalog) (k : Nat) (l l' : SearchLog) : Prop where
  grown : ∃ new, l' = new ++ l ∧ ∀ e ∈ new, k ≤ e.key.2
  orderly : l'.Orderly source forms
  settled : l'.Settled k

namespace Continues

theorem refl (h : l.Orderly source forms) (hk : l.Settled k) : l.Continues source forms k l :=
  ⟨⟨[], rfl, List.forall_mem_nil _⟩, h, hk⟩

theorem trans {l'' : SearchLog} (h : l.Continues source forms k l')
    (h' : l'.Continues source forms k l'') : l.Continues source forms k l'' := by
  obtain ⟨new, rfl, hnew⟩ := h.grown
  obtain ⟨new', rfl, hnew'⟩ := h'.grown
  refine ⟨⟨new' ++ new, by rw [List.append_assoc], ?_⟩, h'.orderly, h'.settled⟩
  exact List.forall_mem_append.mpr ⟨hnew', hnew⟩

theorem knows (h : l.Continues source forms k l') (hkey : l.Knows key) : l'.Knows key := by
  obtain ⟨new, rfl, -⟩ := h.grown
  exact knows_append.mpr (.inr hkey)

/-- Nothing has happened to elements inside fewer others. -/
theorem of_lt (h : l.Continues source forms k l') (hk : key.2 < k) :
    (key ∈ searches l' → key ∈ searches l) ∧ (l'.Knows key → l.Knows key) := by
  obtain ⟨new, rfl, hnew⟩ := h.grown
  have hnone : ∀ e ∈ new, e.key ≠ key := fun e he heq => by
    have := hnew e he
    rw [heq] at this
    omega
  constructor
  · intro hkey
    rw [searches_append, List.mem_append] at hkey
    refine hkey.resolve_left fun hmem => ?_
    obtain ⟨e, he, heq⟩ := exists_of_mem_searches hmem
    exact hnone e he heq
  · intro hkey
    refine (knows_append.mp hkey).resolve_left fun hmem => ?_
    obtain ⟨e, he, heq⟩ := exists_of_knows hmem
    exact hnone e he heq

/-- What goes on at some depth goes on at any lower one that is settled. -/
theorem lower (h : l.Continues source forms k' l') (hk : k ≤ k') (hl : l.Settled k) :
    l.Continues source forms k l' := by
  obtain ⟨new, hgrown, hnew⟩ := h.grown
  refine ⟨⟨new, hgrown, fun e he => hk.trans (hnew e he)⟩, h.orderly, ?_⟩
  intro key hkey hle hpos
  by_cases hdeep : k' ≤ key.2
  · exact h.settled key hkey hdeep hpos
  · exact h.knows (hl key ((h.of_lt (by omega)).1 hkey) hle hpos)

end Continues

/-! ## One search -/

/-- What is not in memory has not been searched for, and may be searched for now. -/
theorem Orderly.search (h : l.Orderly source forms) (hl : l.Settled nesting)
    (hmissing : ¬ l.Knows (start, nesting)) (hopens : OpensAt source start)
    (hfits : nesting < maxNesting) :
    Orderly source forms (.searched start nesting :: l) where
  searchedOnce key hpos := by
    have hcons : searches (.searched start nesting :: l) = (start, nesting) :: searches l := rfl
    rw [hcons, List.count_cons]
    split
    · next heq =>
      obtain rfl : (start, nesting) = key := beq_iff_eq.mp heq
      have hnot : (start, nesting) ∉ searches l := fun hmem =>
        hmissing (hl _ hmem (Nat.le_refl _) hpos)
      rw [List.count_eq_zero.mpr hnot]
    · exact h.searchedOnce key hpos
  keptOnce := h.keptOnce
  opens := List.forall_mem_cons.mpr ⟨⟨hopens, hfits⟩, h.opens⟩
  kept r hr := (h.kept r hr).imp id (And.imp id (List.mem_cons_of_mem _))
  -- Nothing is kept when a search begins, so the memory is the same.
  reached := forall_suffix_cons (h.reached l List.suffix_rfl) h.reached

/-- An element that has been searched for and is not in memory may be kept. -/
theorem Orderly.keep {r : Recollection} (h : l.Orderly source forms) (hends : r.EndsIn source)
    (hpos : 0 < r.nesting) (hsearched : r.key ∈ searches l) (hmissing : ¬ l.Knows r.key)
    (hreached : Memory.Reached source forms (memory (.kept r :: l))) :
    Orderly source forms (.kept r :: l) where
  searchedOnce := h.searchedOnce
  keptOnce := List.nodup_cons.mpr ⟨hmissing, h.keptOnce⟩
  opens := h.opens
  kept := List.forall_mem_cons.mpr ⟨⟨hends, hpos, hsearched⟩, h.kept⟩
  reached := forall_suffix_cons hreached h.reached

/-- The search that begins is not over, so only what is deeper is settled. -/
theorem Settled.search (h : l.Settled nesting) :
    Settled (nesting + 1) (.searched start nesting :: l) := by
  intro key hkey hle hpos
  rcases List.mem_cons.mp hkey with rfl | hkey
  · exact absurd hle (Nat.not_succ_le_self nesting)
  · exact h key hkey (by omega) hpos

/-- When the search is over its element is kept, and everything is settled again. -/
theorem Continues.keep {r : Recollection} (hl : l.Settled r.nesting) (hpos : 0 < r.nesting)
    (h : Continues source forms (r.nesting + 1) (.searched r.start r.nesting :: l) l')
    (hmissing : ¬ l.Knows r.key) (hends : r.EndsIn source)
    (hreached : Memory.Reached source forms (memory (.kept r :: l'))) :
    l.Continues source forms r.nesting (.kept r :: l') := by
  obtain ⟨new, rfl, hnew⟩ := h.grown
  have hlow : r.key.2 < r.nesting + 1 := Nat.lt_succ_self _
  have hsearched : r.key ∈ searches (new ++ .searched r.start r.nesting :: l) := by
    rw [searches_append]
    exact List.mem_append_right _ List.mem_cons_self
  -- All that has happened since the search began is deeper, so the element is still missing.
  have hstill : ¬ Knows (new ++ .searched r.start r.nesting :: l) r.key := fun hknown =>
    hmissing ((h.of_lt hlow).2 hknown)
  refine ⟨⟨.kept r :: new ++ [.searched r.start r.nesting], by simp, ?_⟩,
    h.orderly.keep hends hpos hsearched hstill hreached, ?_⟩
  · intro e he
    rcases List.mem_append.mp he with he | he
    · rcases List.mem_cons.mp he with rfl | he
      · exact Nat.le_refl _
      · exact Nat.le_of_succ_le (hnew e he)
    · rw [List.mem_singleton.mp he]
      exact Nat.le_refl _
  · intro key hkey hle hkeypos
    -- At the depth of the element itself there is this search and what was settled before it.
    by_cases hdeep : r.nesting + 1 ≤ key.2
    · exact List.mem_cons_of_mem _ (h.settled key hkey hdeep hkeypos)
    · rcases List.mem_cons.mp ((h.of_lt (by omega)).1 hkey) with rfl | hkey
      · exact List.mem_cons_self
      · refine List.mem_cons_of_mem _ (h.knows ?_)
        exact hl key hkey hle hkeypos

/-- An outermost element is not kept, and need not be. -/
theorem Continues.outermost (h : Continues source forms 1 (.searched start 0 :: l) l') :
    l.Continues source forms 0 l' := by
  obtain ⟨new, rfl, hnew⟩ := h.grown
  refine ⟨⟨new ++ [.searched start 0], by simp, fun _ _ => Nat.zero_le _⟩, h.orderly, ?_⟩
  exact fun key hkey _ hpos => h.settled key hkey hpos hpos

end SearchLog

/-! ## Each step -/

namespace Watcher

open SearchLog

variable {α β : Type} {source : List Char} {forms : Catalog} {levels k k' : Nat} {place : Place}
  {l : SearchLog}

/-- A watched run and a run come to the same, what matches goes on, and the log does so at some
depth. -/
def Watched (source : List Char) (forms : Catalog) (k : Nat) (place : Place) (l : SearchLog)
    (x : Option (α × Place) × SearchLog) (y : Option (α × Place) × Memory) : Prop :=
  (∃ a q l', place.Before q ∧ l.Continues source forms k l' ∧ x = (some (a, q), l') ∧
    y = (some (a, q), l'.memory)) ∨
  ∃ l', l.Continues source forms k l' ∧ x = (none, l') ∧ y = (none, l'.memory)

theorem Watched.lower {x : Option (α × Place) × SearchLog} {y : Option (α × Place) × Memory}
    (h : Watched source forms k' place l x y) (hk : k ≤ k') (hl : l.Settled k) :
    Watched source forms k place l x y := by
  rcases h with ⟨a, q, l', hq, hl', hx, hy⟩ | ⟨l', hl', hx, hy⟩
  · exact .inl ⟨a, q, l', hq, hl'.lower hk hl, hx, hy⟩
  · exact .inr ⟨l', hl'.lower hk hl, hx, hy⟩

/-- The watcher reads what the parser reads with the memory of the log, where elements may be nested
`levels` deeper. All that happens to elements on the way happens `down` levels deeper or more. -/
def Watches (source : List Char) (forms : Catalog) (levels down : Nat) ⦃α : Type⦄ (w : Watcher α)
    (p : Parser α) : Prop :=
  ∀ s place l, s.catalog = forms → maxNesting - s.nesting = levels → place.In source →
    l.Orderly source forms → l.Settled (s.nesting + down) →
      Watched source forms (s.nesting + down) place l (w s place l) (p s place l.memory)

section

variable {down : Nat}

theorem watches_pure (a : α) : Watches source forms levels down (pure a) (pure a) :=
  fun _ place l _ _ _ hl hk => .inl ⟨a, place, l, .refl place, .refl hl hk, rfl, rfl⟩

theorem watches_fail : Watches source forms levels down (fail : Watcher α) fail :=
  fun _ _ l _ _ _ hl hk => .inr ⟨l, .refl hl hk, rfl, rfl⟩

theorem watches_ofPlace {step : Place → Option (α × Place)} (hstep : Advances step) :
    Watches source forms levels down (ofPlace step) (ofPlace step) := by
  intro s place l _ _ _ hl hk
  show Watched source forms _ place l (step place, l) (step place, l.memory)
  cases h : step place with
  | none => exact .inr ⟨l, .refl hl hk, rfl, rfl⟩
  | some aq => exact .inl ⟨aq.1, aq.2, l, hstep _ _ _ h, .refl hl hk, rfl, rfl⟩

theorem watches_bind {w : Watcher α} {p : Parser α} {f : α → Watcher β} {f' : α → Parser β}
    (hw : Watches source forms levels down w p)
    (hf : ∀ a, Watches source forms levels down (f a) (f' a)) :
    Watches source forms levels down (w >>= f) (p >>= f') := by
  intro s place l hforms hlevels hplace hl hk
  rw [bind_apply, Parser.bind_apply]
  rcases hw s place l hforms hlevels hplace hl hk with
    ⟨a, q, l', hq, hl', hx, hy⟩ | ⟨l', hl', hx, hy⟩
  · rw [hx, hy]
    rcases hf a s q l' hforms hlevels (hplace.of_before hq) hl'.orderly hl'.settled with
      ⟨b, r, l'', hr, hl'', hx', hy'⟩ | ⟨l'', hl'', hx', hy'⟩
    · exact .inl ⟨b, r, l'', hq.trans hr, hl'.trans hl'', hx', hy'⟩
    · exact .inr ⟨l'', hl'.trans hl'', hx', hy'⟩
  · rw [hx, hy]
    exact .inr ⟨l', hl', rfl, rfl⟩

theorem watches_orElse {w v : Watcher α} {p q : Parser α}
    (hw : Watches source forms levels down w p) (hv : Watches source forms levels down v q) :
    Watches source forms levels down (orElse w v) (orElse p q) := by
  intro s place l hforms hlevels hplace hl hk
  rw [orElse_apply, Parser.orElse_apply]
  rcases hw s place l hforms hlevels hplace hl hk with
    ⟨a, r, l', hr, hl', hx, hy⟩ | ⟨l', hl', hx, hy⟩
  · rw [hx, hy]
    exact .inl ⟨a, r, l', hr, hl', rfl, rfl⟩
  · rw [hx, hy]
    -- The first alternative is given up, but what it has searched for is in memory.
    rcases hv s place l' hforms hlevels hplace hl'.orderly hl'.settled with
      ⟨a, r, l'', hr, hl'', hx', hy'⟩ | ⟨l'', hl'', hx', hy'⟩
    · exact .inl ⟨a, r, l'', hr, hl'.trans hl'', hx', hy'⟩
    · exact .inr ⟨l'', hl'.trans hl'', hx', hy'⟩

theorem watches_collect {w : Watcher α} {p : Parser α} (hw : Watches source forms levels down w p)
    {s : Scope} (hforms : s.catalog = forms) (hlevels : maxNesting - s.nesting = levels)
    (fuel : Nat) :
    ∀ (limit : Option Nat) (place : Place) (l : SearchLog), place.In source →
      l.Orderly source forms → l.Settled (s.nesting + down) →
        ∃ as q l', place.Before q ∧ l.Continues source forms (s.nesting + down) l' ∧
          collect w s fuel limit place l = ((as, q), l') ∧
          Parser.collect p s fuel limit place l.memory = ((as, q), l'.memory) := by
  induction fuel with
  | zero => exact fun limit place l _ hl hk => ⟨[], place, l, .refl place, .refl hl hk, rfl, rfl⟩
  | succ fuel ih =>
    intro limit place l hplace hl hk
    by_cases hlimit : limit = some 0
    · subst hlimit
      exact ⟨[], place, l, .refl place, .refl hl hk, rfl, rfl⟩
    rw [collect_succ _ _ _ _ _ hlimit, Parser.collect_succ _ _ _ _ _ hlimit]
    rcases hw s place l hforms hlevels hplace hl hk with
      ⟨a, q, l', hq, hl', hx, hy⟩ | ⟨l', hl', hx, hy⟩
    · rw [hx, hy]
      dsimp only
      split
      · exact ⟨[], place, l', .refl place, hl', rfl, rfl⟩
      · obtain ⟨as, r, l'', hr, hl'', hx', hy'⟩ :=
          ih (limit.map (· - 1)) q l' (hplace.of_before hq) hl'.orderly hl'.settled
        rw [hx', hy']
        exact ⟨a :: as, r, l'', hq.trans hr, hl'.trans hl'', rfl, rfl⟩
    · rw [hx, hy]
      exact ⟨[], place, l', .refl place, hl', rfl, rfl⟩

theorem watches_many {w : Watcher α} {p : Parser α} (least : Nat) (most : Option Nat)
    (hw : Watches source forms levels down w p) :
    Watches source forms levels down (many w least most) (many p least most) := by
  intro s place l hforms hlevels hplace hl hk
  obtain ⟨as, q, l', hq, hl', hx, hy⟩ :=
    watches_collect hw hforms hlevels (place.left + 1) most place l hplace hl hk
  rw [many_apply, Parser.many_apply, hx, hy]
  dsimp only
  split
  · exact .inr ⟨l', hl', rfl, rfl⟩
  · exact .inl ⟨as, q, l', hq, hl', rfl, rfl⟩

/-! ## One element deeper -/

/-- What is read one level deeper does nothing to elements of this level. -/
theorem watches_nested (hdown : down ≤ 1)
    (hbelow : ∀ k, levels = k + 1 → ∀ g,
      Watches source forms k 0 (Grammar.readAt k g) (Grammar.readAt k g)) (g : Grammar) :
    Watches source forms levels down (nested [] (Grammar.inside levels g))
      (nested [] (Grammar.inside levels g)) := by
  intro s place l hforms hlevels hplace hl hk
  rw [nested_apply, Parser.nested_apply]
  split
  · exact .inr ⟨l, .refl hl hk, rfl, rfl⟩
  · next hfits =>
    simp only [Scope.exhausted, decide_eq_true_eq, not_le] at hfits
    -- One element more around leaves one level less.
    obtain ⟨k, rfl⟩ : ∃ k, levels = k + 1 := ⟨levels - 1, by omega⟩
    have hle : s.nesting + down ≤ s.nesting + 1 := Nat.add_le_add_left hdown _
    have hdeeper := Scope.nesting_push_deeper s
    have h := hbelow k rfl g (s.push (s.deeper [])) place l
      ((Scope.catalog_push_deeper s).trans hforms) (by omega) hplace hl
      (by rw [hdeeper]; exact hk.mono hle)
    rw [hdeeper] at h
    exact h.lower hle hk

theorem relatesElements_watches (hdown : down ≤ 1)
    (hbelow : ∀ k, levels = k + 1 → ∀ g,
      Watches source forms k 0 (Grammar.readAt k g) (Grammar.readAt k g)) :
    RelatesElements (Watches source forms levels down) (Grammar.inside levels)
      (Grammar.inside levels) where
  pure := watches_pure
  bind := watches_bind
  fail := watches_fail
  here := fun _ place l _ _ _ hl hk => .inl ⟨place, place, l, .refl place, .refl hl hk, rfl, rfl⟩
  ofPlace := watches_ofPlace
  orElse := watches_orElse
  nested := watches_nested hdown hbelow

end

/-! ## Elements -/

/-- At an opening brace an element is taken from memory, or searched for and kept. The search does
not fail, so it is over when reading goes on. -/
theorem watched_recalling {w : Watcher Node} {p : Parser Node} {s : Scope}
    (hw : Watches source forms levels 1 w p) (hforms : s.catalog = forms)
    (hlevels : maxNesting - s.nesting = levels) (hplace : place.In source)
    (hbrace : place.startsWith '{' = true) (hfits : s.exhausted = false)
    (hmatches : Parser.Matches s place p) (hl : l.Orderly source forms) (hk : l.Settled s.nesting)
    (hreached : Memory.Reached source forms (recalling p s place l.memory).2) :
    Watched source forms s.nesting place l (recalling w s place l)
      (recalling p s place l.memory) := by
  rw [recalling_apply, Parser.recalling_apply]
  cases hfound : l.memory.find? place.offset s.nesting with
  | some r =>
    have hends : l.memory.Holds (Recollection.EndsIn source) := fun r hr => (hl.kept r hr).1
    obtain ⟨⟨hin, hle⟩, hstart, -⟩ := hends.find? hfound
    exact .inl ⟨r.node, r.after, l, hplace.before_of_le hin (hstart ▸ hle), .refl hl hk, rfl, rfl⟩
  | none =>
    have hmissing := find?_eq_none.mp hfound
    have hlimit : s.nesting < maxNesting := by
      simpa only [Scope.exhausted, decide_eq_false_iff_not, not_le] using hfits
    have hlog := hl.search hk hmissing (hplace.opensAt hbrace) hlimit
    dsimp only
    rcases hw s place _ hforms hlevels hplace hlog hk.search with
      ⟨node, q, l', hq, hl', hx, hy⟩ | ⟨l', -, -, hy⟩
    · have hy' : p s place l.memory = (some (node, q), l'.memory) := hy
      rw [hx, hy']
      dsimp only
      split
      · next hzero =>
        rw [hzero] at hl' ⊢
        exact .inl ⟨node, q, l', hq, hl'.outermost, rfl, rfl⟩
      · next hpos =>
        have hends : Recollection.EndsIn source ⟨place.offset, s.nesting, node, q⟩ :=
          ⟨hplace.of_before hq, hq.offset_le⟩
        -- What is kept is what reading this element has left in memory.
        have hkept : Memory.Reached source forms
            (memory (.kept ⟨place.offset, s.nesting, node, q⟩ :: l')) := by
          rw [Parser.recalling_apply, hfound] at hreached
          simp only [hy', if_neg hpos] at hreached
          exact hreached
        exact .inl ⟨node, q, _, hq,
          .keep hk (Nat.pos_of_ne_zero hpos) hl' hmissing hends hkept, rfl, rfl⟩
    · -- Text in braces is tried last, so a search does not fail.
      obtain ⟨a, q, m, hx⟩ := hmatches l.memory
      have hy' : p s place l.memory = (none, l'.memory) := hy
      rw [hx] at hy'
      cases hy'

/-- What is read between the braces of an element is deeper, so an element is one search. -/
theorem watches_element
    (helement : ∀ forms', Watches source forms levels 1
      (Parser.ofCatalog (Grammar.inside levels) forms')
      (Parser.ofCatalog (Grammar.inside levels) forms')) :
    Watches source forms levels 0 (Parser.element (Grammar.inside levels))
      (Parser.element (Grammar.inside levels)) := by
  intro s place l hforms hlevels hplace hl hk
  rw [Nat.add_zero] at hk ⊢
  show Watched source forms s.nesting place l
    ((require (place.startsWith '{' && !s.exhausted) >>= fun _ => catalog >>= fun forms =>
      recalling (Parser.ofCatalog (Grammar.inside levels) forms) : Watcher Node) s place l)
    ((require (place.startsWith '{' && !s.exhausted) >>= fun _ => catalog >>= fun forms =>
      recalling (Parser.ofCatalog (Grammar.inside levels) forms) : Parser Node) s place l.memory)
  cases hopens : place.startsWith '{' && !s.exhausted with
  | false => exact .inr ⟨l, .refl hl hk, rfl, rfl⟩
  | true =>
    -- The memory of the log can be reached, so the one that reading the element leaves can be, too.
    have hreached : Memory.Reached source forms
        ((recalling (Parser.ofCatalog (Grammar.inside levels) s.catalog) : Parser Node)
          s place l.memory).2 := by
      rw [← hlevels, ← Parser.read_element hopens]
      exact .read (.rule .element) s place hforms hplace (hl.reached l List.suffix_rfl)
    rw [Bool.and_eq_true, Bool.not_eq_true'] at hopens
    obtain ⟨hbrace, hfits⟩ := hopens
    obtain ⟨cs, hrest⟩ := List.head?_eq_some_iff.mp (beq_iff_eq.mp hbrace)
    have hmatches : Parser.Matches s place
        (Parser.ofCatalog (Grammar.inside levels) s.catalog) := by
      rw [← hlevels]
      exact Parser.matches_ofCatalog
        (Parser.matches_unknown hrest hfits fun _ => Parser.matches_inside hfits _) _
    exact watched_recalling (helement s.catalog) hforms hlevels hplace hbrace hfits hmatches hl hk
      hreached

/-! ## Grammars -/

/-- **A watcher reads what a parser reads**, and its log stays in order, at every level. -/
theorem watches_readAt (levels : Nat) (g : Grammar) :
    Watches source forms levels 0 (Grammar.readAt levels g) (Grammar.readAt levels g) := by
  induction levels using Nat.strong_induction_on generalizing g with
  | _ levels ih =>
    have hbelow : ∀ k, levels = k + 1 → ∀ g,
        Watches source forms k 0 (Grammar.readAt k g) (Grammar.readAt k g) :=
      fun k hk g => ih k (by omega) g
    -- The forms of an element are deeper than the element; other parts may be elements themselves.
    have helements := relatesElements_watches (Nat.le_refl 1) hbelow
    have hsteps := relatesElements_watches (Nat.zero_le 1) hbelow
    have hparts : RelatesParts (Watches source forms levels 0) (Grammar.inside levels)
        (Grammar.inside levels) :=
      { hsteps with
        many := fun least most hw => watches_many least most hw
        localFlag := fun key s place l _ _ _ hl hk =>
          .inl ⟨s.localFlag key, place, l, .refl place, .refl hl hk, rfl, rfl⟩
        nesting := fun s place l _ _ _ hl hk =>
          .inl ⟨s.nesting, place, l, .refl place, .refl hl hk, rfl, rfl⟩
        inCell := fun hw s place l hforms hlevels hplace hl hk => by
          have h := hw (s.push Parser.cellFrame) place l ((Scope.catalog_push_cell s).trans hforms)
            (by rwa [Scope.nesting_push_cell]) hplace hl (by rwa [Scope.nesting_push_cell])
          rwa [Scope.nesting_push_cell] at h
        element := watches_element helements.ofCatalog }
    rw [Grammar.readAt_eq, Grammar.readAt_eq]
    exact hparts.readAbove g

/-- Watching from the beginning, nothing has happened yet. -/
theorem watched_read (g : Grammar) (s : Scope) (hforms : s.catalog = forms)
    (hplace : place.In source) :
    Watched source forms s.nesting place [] ((g.read : Watcher Node) s place [])
      ((g.read : Parser Node) s place .empty) :=
  watches_readAt (maxNesting - s.nesting) g s place [] hforms rfl hplace .nil
    (List.forall_mem_nil _)

end Watcher

/-! ## Documents -/

namespace Document

/-- What happens to elements while a document is read. -/
def searchLog (forms : Catalog) (source : String) : SearchLog :=
  ((Grammar.parts.read : Watcher Node) (scope forms) (.first source.toList) []).2

/-- Watching a document from the beginning comes to what reading it does, with the same memory. The
log is in order, and no search is left open. -/
theorem watched_searchLog (forms : Catalog) (source : String) :
    (Grammar.parts.read : Watcher Node) (scope forms) (.first source.toList) [] =
        (((Grammar.parts.read : Parser Node) (scope forms) (.first source.toList) .empty).1,
          searchLog forms source) ∧
      ((Grammar.parts.read : Parser Node) (scope forms) (.first source.toList) .empty).2 =
        (searchLog forms source).memory ∧
      (searchLog forms source).Orderly source.toList forms ∧
      (searchLog forms source).Settled 0 := by
  have h := Watcher.watched_read .parts (scope forms) (catalog_scope forms) (.first source.toList)
  rw [nesting_scope] at h
  rcases h with ⟨a, q, log, -, hlog, hwatched, hparsed⟩ | ⟨log, hlog, hwatched, hparsed⟩
  · rw [searchLog, hwatched, hparsed]
    exact ⟨rfl, rfl, hlog.orderly, hlog.settled⟩
  · rw [searchLog, hwatched, hparsed]
    exact ⟨rfl, rfl, hlog.orderly, hlog.settled⟩

/-- **No element is searched for twice.** A document is what a parser reads from the beginning of
its source to the end, and watched reading comes to the same, with the same memory. Whenever an
element is kept, there is none in memory yet that begins at the same offset inside as many others.
It begins with an opening brace and has others around it, but fewer than the limit. Searches begin
at opening braces only. For an element inside others there is one search at most, however many
alternatives around it are given up, and a search that begins ends with an element that is kept. -/
theorem read_searchesOnce (forms : Catalog) (source : String) :
    ∃ node q, (Grammar.parts.read : Parser Node) (scope forms) (.first source.toList) .empty =
        (some (node, q), (searchLog forms source).memory) ∧
      (Grammar.parts.read : Watcher Node) (scope forms) (.first source.toList) [] =
        (some (node, q), searchLog forms source) ∧
      q.rest = [] ∧
      (read forms source).root =
        (Node.branch ⟨0, source.utf8ByteSize⟩ .document node.children).assemble ∧
      (∀ later r earlier, searchLog forms source = later ++ .kept r :: earlier →
        (SearchLog.memory earlier).find? r.start r.nesting = none ∧
          1 ≤ r.nesting ∧ r.nesting ≤ maxNesting - 1 ∧ OpensAt source.toList r.start) ∧
      (∀ start nesting, 0 < nesting →
        (searchLog forms source).searches.count (start, nesting) ≤ 1) ∧
      ∀ key ∈ (searchLog forms source).searches,
        OpensAt source.toList key.1 ∧ (0 < key.2 → (searchLog forms source).Knows key) := by
  obtain ⟨node, q, m, -, hread, hend, -, hroot⟩ := Cursor.read_document forms source
  obtain ⟨hwatched, hmemory, horderly, hsettled⟩ := watched_searchLog forms source
  rw [hread] at hwatched hmemory
  obtain rfl : m = (searchLog forms source).memory := hmemory
  refine ⟨node, q, hread, hwatched, hend, hroot, ?_, fun _ _ hpos => horderly.searchedOnce _ hpos,
    ?_⟩
  · intro later r earlier hlog
    rw [hlog] at horderly
    have hkeeps : SearchLog.keeps (later ++ .kept r :: earlier) =
        SearchLog.keeps later ++ r :: SearchLog.keeps earlier := List.filterMap_append
    have honce := horderly.keptOnce
    rw [hkeeps, List.map_append, List.map_cons] at honce
    have hnew := (List.nodup_cons.mp honce.of_append_right).1
    have hr : r ∈ SearchLog.keeps (later ++ .kept r :: earlier) := by
      rw [hkeeps]
      exact List.mem_append_right _ List.mem_cons_self
    obtain ⟨-, hpos, hsearched⟩ := horderly.kept r hr
    obtain ⟨hopens, hlimit⟩ := horderly.opens _ hsearched
    exact ⟨SearchLog.find?_eq_none.mpr hnew, hpos, Nat.le_sub_one_of_lt hlimit, hopens⟩
  · intro key hkey
    exact ⟨(horderly.opens key hkey).1, hsettled key hkey (Nat.zero_le _)⟩

-- The text after the item is no part of a list, so the list is given up and what it holds is read
-- again as content. The emphasized text has been searched for by then, and the item has not.
example : (searchLog .standard "\x7blist|\x7bitem|\x7bb|x\x7d\x7d y\x7d").searches =
    [(6, 1), (12, 2), (0, 0)] := by
  decide +kernel

end Document

end Bracemark
