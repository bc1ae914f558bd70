/-
Counting a variable up.

A variable holds text, so each step of counting reads a number from the text and writes the next
one. That nothing is lost on the way is a round trip: what is written for a number is read as that
number (`writesInteger_toString`), whatever white space stands around it, and nothing else is read
as a number (`readNumber?_trim_eq_some_iff`).

With that a step depends on the number alone. It is possible below the largest number and refused
there, and a step that is refused changes nothing, so all later ones are refused as well. Some
steps together are those that are possible and then those that are refused
(`Variables.increments_add`).
-/
import Bracemark.Proofs.DecodedArguments
import Bracemark.Proofs.OtherSettings

set_option autoImplicit false

namespace Bracemark

open Text

namespace Text

/-! ## Numbers in text -/

/-- The characters are decimal digits, one at least, which write the number. -/
structure WritesNatural (cs : List Char) (n : Nat) : Prop where
  nonempty : cs ≠ []
  digits : ∀ c ∈ cs, c.isDigit = true
  value : Nat.ofDigitChars 10 cs 0 = n

/-- Digits that may have one sign before them. -/
inductive WritesInteger : List Char → Int → Prop
  | bare {cs : List Char} {n : Nat} : WritesNatural cs n → WritesInteger cs n
  | plus {cs : List Char} {n : Nat} : WritesNatural cs n → WritesInteger ('+' :: cs) n
  | minus {cs : List Char} {n : Nat} : WritesNatural cs n → WritesInteger ('-' :: cs) (-n)

/-- The text is a number, apart from white space around it. -/
structure HoldsNumber (text : String) (n : Int) : Prop where
  fits : isNumber n = true
  written : ∃ before cs after, allBlank before = true ∧ allBlank after = true ∧
    text.toList = before ++ cs ++ after ∧ WritesInteger cs n

/-! ### Reading -/

theorem readNatural?_eq_some_iff {cs : List Char} {n : Nat} :
    readNatural? cs = some n ↔ WritesNatural cs n := by
  -- Reading folds the digits in the same way as the value of the digits is defined.
  have hvalue : cs.foldl (fun n c => 10 * n + digitValue c) 0 = Nat.ofDigitChars 10 cs 0 := rfl
  unfold readNatural?
  constructor
  · intro h
    split at h
    · cases h
    · next hcs =>
      simp only [Bool.or_eq_true, List.isEmpty_iff, Bool.not_eq_true', not_or,
        Bool.not_eq_false] at hcs
      rw [hvalue, Option.some.injEq] at h
      exact ⟨hcs.1, List.all_eq_true.mp hcs.2, h⟩
  · intro h
    rw [if_neg, hvalue, h.value]
    simp only [Bool.or_eq_true, List.isEmpty_iff, Bool.not_eq_true', not_or, Bool.not_eq_false]
    exact ⟨h.nonempty, List.all_eq_true.mpr h.digits⟩

/-- Digits have no sign before them. -/
theorem readInteger?_of_digits {cs : List Char} (h : ∀ c ∈ cs, c.isDigit = true) :
    readInteger? cs = (readNatural? cs).map fun n => (n : Int) := by
  unfold readInteger?
  split
  · exact absurd (h _ List.mem_cons_self) (by decide)
  · exact absurd (h _ List.mem_cons_self) (by decide)
  · rfl

theorem readInteger?_eq_some_iff {cs : List Char} {n : Int} :
    readInteger? cs = some n ↔ WritesInteger cs n := by
  constructor
  · intro h
    unfold readInteger? at h
    split at h
    all_goals
      obtain ⟨value, hvalue, rfl⟩ := Option.map_eq_some_iff.mp h
      obtain ⟨m, hm, hcast⟩ := Option.bind_eq_some_iff.mp hvalue
      cases hcast
      have hwrites := readNatural?_eq_some_iff.mp hm
    · exact .minus hwrites
    · exact .plus hwrites
    · exact .bare hwrites
  · intro h
    cases h with
    | bare hwrites =>
      rw [readInteger?_of_digits hwrites.digits, readNatural?_eq_some_iff.mpr hwrites]
      rfl
    | plus hwrites | minus hwrites =>
      rw [readInteger?, readNatural?_eq_some_iff.mpr hwrites]
      rfl

/-! ### Writing -/

theorem writesNatural_toString (n : Nat) : WritesNatural (toString n).toList n where
  nonempty := by
    rw [Nat.toString_eq_repr, Nat.toList_repr]
    exact Nat.toDigits_ne_nil
  digits := Html.isDigit_of_mem_toString n
  value := by
    rw [Nat.toString_eq_repr, Nat.toList_repr]
    exact Nat.ofDigitChars_ten_toDigits

/-- What is written for a number is read as that number. -/
theorem writesInteger_toString (n : Int) : WritesInteger (toString n).toList n := by
  cases n with
  | ofNat n => exact .bare (writesNatural_toString n)
  | negSucc n =>
    have hsplit : (toString (Int.negSucc n)).toList = '-' :: (toString (n + 1)).toList := by
      rw [show toString (Int.negSucc n) = "-" ++ toString (n + 1) from rfl, String.toList_append]
      rfl
    rw [hsplit]
    exact .minus (writesNatural_toString (n + 1))

/-! ### White space -/

theorem WritesInteger.solid {cs : List Char} {n : Int} (h : WritesInteger cs n) :
    ∀ c ∈ cs, isBlank c = false := by
  cases h with
  | bare hwrites => exact fun c hc => isBlank_of_isDigit (hwrites.digits c hc)
  | plus hwrites | minus hwrites =>
    intro c hc
    rcases List.mem_cons.mp hc with hsign | hdigit
    · rw [hsign]
      decide
    · exact isBlank_of_isDigit (hwrites.digits c hdigit)

theorem dropTrailingBlanks_append {cs margin : List Char} (hmargin : allBlank margin = true)
    (hcs : ∀ c ∈ cs, isBlank c = false) : dropTrailingBlanks (cs ++ margin) = cs := by
  have hreverse : allBlank margin.reverse = true := by
    rwa [allBlank, List.all_reverse]
  have hfirst : ∀ c ∈ cs.reverse.head?, isBlank c = false :=
    fun c hc => hcs c (List.mem_reverse.mp (List.mem_of_mem_head? hc))
  have hdrop := dropLeadingBlanks_append hreverse hfirst
  rw [dropTrailingBlanks, List.reverse_append]
  show (dropLeadingBlanks _).reverse = _
  rw [hdrop, List.reverse_reverse]

/-- Trimming takes away the white space around a text that has none in it. -/
theorem trimBlanks_margins {before cs after : List Char} (hbefore : allBlank before = true)
    (hafter : allBlank after = true) (hcs : ∀ c ∈ cs, isBlank c = false) :
    trimBlanks (before ++ cs ++ after) = cs := by
  by_cases hnil : cs = []
  · subst hnil
    have hall : (before ++ after).all isBlank = true := by
      rw [List.all_append, Bool.and_eq_true]
      exact ⟨hbefore, hafter⟩
    rw [List.append_nil, trimBlanks, dropLeadingBlanks,
      List.dropWhile_eq_nil_iff.mpr (List.all_eq_true.mp hall), dropTrailingBlanks_nil]
  · have hfirst : ∀ c ∈ (cs ++ after).head?, isBlank c = false := by
      intro c hc
      rw [List.head?_append_of_ne_nil _ hnil] at hc
      exact hcs c (List.mem_of_mem_head? hc)
    rw [trimBlanks, List.append_assoc, dropLeadingBlanks_append hbefore hfirst,
      dropTrailingBlanks_append hafter hcs]

/-- Trimming takes away nothing but white space. -/
theorem exists_margins (cs : List Char) : ∃ before after, allBlank before = true ∧
    allBlank after = true ∧ cs = before ++ trimBlanks cs ++ after := by
  let rest := dropLeadingBlanks cs
  have hafter : allBlank (rest.reverse.takeWhile isBlank).reverse = true := by
    rw [allBlank, List.all_reverse]
    exact allBlank_takeWhile _
  have hrest : dropTrailingBlanks rest ++ (rest.reverse.takeWhile isBlank).reverse = rest := by
    rw [dropTrailingBlanks, ← List.reverse_append, List.takeWhile_append_dropWhile,
      List.reverse_reverse]
  refine ⟨cs.takeWhile isBlank, _, allBlank_takeWhile cs, hafter, ?_⟩
  rw [List.append_assoc, trimBlanks, hrest]
  exact List.takeWhile_append_dropWhile.symm

/-- **Reading a trimmed text gives a number exactly where the text holds it.** -/
theorem readNumber?_trim_eq_some_iff {text : String} {n : Int} :
    readNumber? (trim text) = some n ↔ HoldsNumber text n := by
  rw [readNumber?, Option.filter_eq_some_iff, toList_trim, readInteger?_eq_some_iff]
  constructor
  · rintro ⟨hwrites, hfits⟩
    obtain ⟨before, after, hbefore, hafter, hsplit⟩ := exists_margins text.toList
    exact ⟨hfits, before, _, after, hbefore, hafter, hsplit, hwrites⟩
  · rintro ⟨hfits, before, cs, after, hbefore, hafter, hsplit, hwrites⟩
    rw [hsplit, trimBlanks_margins hbefore hafter hwrites.solid]
    exact ⟨hwrites, hfits⟩

theorem holdsNumber_margins {before after : String} {n : Int} (hbefore : isBlankText before = true)
    (hafter : isBlankText after = true) (hn : isNumber n = true) :
    HoldsNumber (before ++ toString n ++ after) n := by
  refine ⟨hn, before.toList, (toString n).toList, after.toList, hbefore, hafter, ?_,
    writesInteger_toString n⟩
  rw [String.toList_append, String.toList_append]

theorem holdsNumber_toString {n : Int} (hn : isNumber n = true) : HoldsNumber (toString n) n := by
  refine ⟨hn, [], (toString n).toList, [], rfl, rfl, ?_, writesInteger_toString n⟩
  rw [List.nil_append, List.append_nil]

theorem isNumber_succ {n : Int} (hn : isNumber n = true) (hlt : n < maxNumber) :
    isNumber (n + 1) = true := by
  simp only [isNumber, Bool.and_eq_true, decide_eq_true_eq] at hn ⊢
  omega

end Text

/-! ## Steps of counting -/

namespace Variables

variable {v : Variables} {name other value : String} {n : Int}

theorem increment_of_lt (hvalue : v.get? name = some value) (hn : HoldsNumber value n)
    (hlt : n < maxNumber) : v.increment name = (true, v.insert name (toString (n + 1))) := by
  rw [increment, hvalue, counted?, readNumber?_trim_eq_some_iff.mpr hn, Option.bind_some,
    if_pos hlt]

theorem increment_of_none (hvalue : v.get? name = none) :
    v.increment name = (true, v.insert name (toString (1 : Int))) := by
  rw [increment, hvalue, counted?]

/-- The value is no number, or the largest. -/
def Refuses (v : Variables) (name : String) : Prop :=
  counted? (v.get? name) = none

theorem refuses_of_max (hvalue : v.get? name = some value) (hn : HoldsNumber value maxNumber) :
    v.Refuses name := by
  rw [Refuses, hvalue, counted?, readNumber?_trim_eq_some_iff.mpr hn, Option.bind_some,
    if_neg (Int.lt_irrefl _)]

theorem refuses_of_no_number (hvalue : v.get? name = some value)
    (hnone : ∀ n, ¬ HoldsNumber value n) : v.Refuses name := by
  have hread : readNumber? (trim value) = none := by
    rw [Option.eq_none_iff_forall_not_mem]
    intro n hn
    exact hnone n (readNumber?_trim_eq_some_iff.mp hn)
  rw [Refuses, hvalue, counted?, hread, Option.bind_none]

theorem Refuses.increment (h : v.Refuses name) : v.increment name = (false, v) := by
  rw [Variables.increment, h]

theorem get?_increment_of_ne (h : other ≠ name) :
    (v.increment name).2.get? other = v.get? other := by
  rw [get?_increment, if_neg h]

/-! ### Some steps -/

/-- So many steps of counting one after another: whether each was possible, and the variables
after them. -/
def increments (v : Variables) (name : String) : Nat → List Bool × Variables
  | 0 => ([], v)
  | k + 1 =>
    let (possible, w) := v.increment name
    let (later, u) := w.increments name k
    (possible :: later, u)

theorem increments_succ (v : Variables) (name : String) (k : Nat) :
    v.increments name (k + 1) =
      ((v.increment name).1 :: ((v.increment name).2.increments name k).1,
        ((v.increment name).2.increments name k).2) := rfl

theorem increments_add (j k : Nat) : ∀ v : Variables,
    v.increments name (j + k) =
      ((v.increments name j).1 ++ ((v.increments name j).2.increments name k).1,
        ((v.increments name j).2.increments name k).2) := by
  induction j with
  | zero =>
    intro v
    rw [Nat.zero_add]
    rfl
  | succ j ih =>
    intro v
    rw [Nat.succ_add, increments_succ, increments_succ, ih]
    rfl

/-- Where a step is refused, all later ones are. -/
theorem Refuses.increments (h : v.Refuses name) (k : Nat) :
    v.increments name k = (List.replicate k false, v) := by
  induction k with
  | zero => rfl
  | succ k ih =>
    rw [increments_succ, h.increment, ih]
    rfl

theorem get?_increments_of_ne (h : other ≠ name) (k : Nat) : ∀ v : Variables,
    (v.increments name k).2.get? other = v.get? other := by
  induction k with
  | zero => exact fun _ => rfl
  | succ k ih => exact fun v => (ih _).trans (get?_increment_of_ne h)

/-- After no step the text is that of the number itself. -/
theorem toString_add_steps (n : Int) (k : Nat) :
    (if k = 0 then toString n else toString (n + k)) = toString (n + k) := by
  by_cases hzero : k = 0
  · rw [if_pos hzero, hzero, Nat.cast_zero, Int.add_zero]
  · rw [if_neg hzero]

/-- As long as no number is passed over, every step is possible and counts by one. -/
theorem increments_of_le (k : Nat) : ∀ {v : Variables} {value : String} {n : Int},
    v.get? name = some value → HoldsNumber value n → n + k ≤ maxNumber →
      (v.increments name k).1 = List.replicate k true ∧
        (v.increments name k).2.get? name =
          some (if k = 0 then value else toString (n + k)) := by
  induction k with
  | zero => exact fun hvalue _ _ => ⟨rfl, hvalue⟩
  | succ k ih =>
    intro v value n hvalue hn hle
    have hlt : n < maxNumber := by omega
    have hnext : (v.insert name (toString (n + 1))).get? name = some (toString (n + 1)) :=
      get?_insert_self v name _
    obtain ⟨htold, hget⟩ :=
      ih hnext (holdsNumber_toString (isNumber_succ hn.fits hlt)) (by omega)
    have hstep : v.increments name (k + 1) =
        (true :: ((v.insert name (toString (n + 1))).increments name k).1,
          ((v.insert name (toString (n + 1))).increments name k).2) := by
      rw [increments_succ, increment_of_lt hvalue hn hlt]
    have hsum : n + 1 + k = n + (k + 1 : Nat) := by omega
    rw [hstep, htold, hget, if_neg (Nat.succ_ne_zero k), toString_add_steps, hsum]
    exact ⟨rfl, rfl⟩

/-- Once the largest number is reached, the steps are refused and nothing changes any more. -/
theorem increments_of_gt {k : Nat} (hvalue : v.get? name = some value) (hn : HoldsNumber value n)
    (hgt : maxNumber < n + k) :
    let possible := (maxNumber - n).toNat
    (v.increments name k).1 =
        List.replicate possible true ++ List.replicate (k - possible) false ∧
      (v.increments name k).2 = (v.increments name possible).2 ∧
      (v.increments name k).2.get? name =
        some (if n = maxNumber then value else toString maxNumber) := by
  intro possible
  have hle : n ≤ maxNumber := le_maxNumber_of_isNumber hn.fits
  have hsum : n + possible = maxNumber := by omega
  have hsplit : possible + (k - possible) = k := by omega
  obtain ⟨htold, hget⟩ := increments_of_le possible hvalue hn hsum.le
  -- After the possible steps the variable holds the largest number.
  have hmax : isNumber maxNumber = true := by decide
  have hvalue' : (if possible = 0 then value else toString (n + possible)) =
      if n = maxNumber then value else toString maxNumber := by
    rw [hsum]
    by_cases hzero : possible = 0
    · rw [if_pos hzero, if_pos (by omega)]
    · rw [if_neg hzero, if_neg (by omega)]
  have hrefuses : (v.increments name possible).2.Refuses name := by
    refine refuses_of_max hget ?_
    rw [hvalue']
    by_cases heq : n = maxNumber
    · rw [if_pos heq, ← heq]
      exact hn
    · rw [if_neg heq]
      exact holdsNumber_toString hmax
  have hall : v.increments name k =
      (List.replicate possible true ++ List.replicate (k - possible) false,
        (v.increments name possible).2) := by
    conv_lhs => rw [← hsplit]
    rw [increments_add, hrefuses.increments, htold]
  rw [hall]
  exact ⟨rfl, rfl, hget.trans (congrArg some hvalue')⟩

/-- A variable without a value counts from one. -/
theorem increments_of_none {k : Nat} (hvalue : v.get? name = none) (hpos : 1 ≤ k)
    (hle : (k : Int) ≤ maxNumber) :
    (v.increments name k).1 = List.replicate k true ∧
      (v.increments name k).2.get? name = some (toString (k : Int)) := by
  obtain ⟨j, rfl⟩ := Nat.exists_eq_add_of_le' hpos
  have hone : isNumber 1 = true := by decide
  have hnext : (v.insert name (toString (1 : Int))).get? name = some (toString (1 : Int)) :=
    get?_insert_self v name _
  obtain ⟨htold, hget⟩ := increments_of_le j hnext (holdsNumber_toString hone) (by omega)
  have hstep : v.increments name (j + 1) =
      (true :: ((v.insert name (toString (1 : Int))).increments name j).1,
        ((v.insert name (toString (1 : Int))).increments name j).2) := by
    rw [increments_succ, increment_of_none hvalue]
  have hsum : 1 + (j : Int) = (j + 1 : Nat) := by omega
  rw [hstep, htold, hget, toString_add_steps, hsum]
  exact ⟨rfl, rfl⟩

/-- **Steps of counting are exact.** From a variable that has been given the text of a number, with
any white space around it, so many steps come to the text of the number that is so much larger. If
that would pass the largest number, exactly the steps up to it are possible; the variable then holds
the largest number, or the text that it was given if it was that already, and nothing changes any
more. A variable without a value counts from one. Other variables keep their values, whether one is
given a value or counted up, and a value that is no number stays as it is. -/
theorem increments_exact (v : Variables) (name : String) :
    (∀ (n : Int) (before after : String), isNumber n = true → isBlankText before = true →
      isBlankText after = true →
        let text := before ++ toString n ++ after
        let w := v.insert name text
        let possible := (maxNumber - n).toNat
        ∀ k : Nat,
          (1 ≤ k → n + k ≤ maxNumber →
            (w.increments name k).1 = List.replicate k true ∧
              (w.increments name k).2.get? name = some (toString (n + k))) ∧
          (maxNumber < n + k →
            (w.increments name k).1 =
                List.replicate possible true ++ List.replicate (k - possible) false ∧
              (w.increments name k).2 = (w.increments name possible).2 ∧
              (w.increments name k).2.get? name =
                some (if n = maxNumber then text else toString maxNumber))) ∧
      (v.get? name = none → ∀ k : Nat, 1 ≤ k → (k : Int) ≤ maxNumber →
        (v.increments name k).1 = List.replicate k true ∧
          (v.increments name k).2.get? name = some (toString (k : Int))) ∧
      (∀ other : String, other ≠ name →
        (∀ value, (v.insert name value).get? other = v.get? other) ∧
          ∀ k, (v.increments name k).2.get? other = v.get? other) ∧
      ∀ value, v.get? name = some value → (∀ n, ¬ HoldsNumber value n) →
        ∀ k, v.increments name k = (List.replicate k false, v) := by
  refine ⟨?_, ?_, ?_, ?_⟩
  · intro n before after hfits hbefore hafter text w possible k
    have hvalue : w.get? name = some text := get?_insert_self v name text
    have hn : HoldsNumber text n := holdsNumber_margins hbefore hafter hfits
    refine ⟨?_, increments_of_gt hvalue hn⟩
    intro hpos hle
    obtain ⟨htold, hget⟩ := increments_of_le k hvalue hn hle
    rw [if_neg (Nat.ne_of_gt hpos)] at hget
    exact ⟨htold, hget⟩
  · intro hvalue k hpos hle
    exact increments_of_none hvalue hpos hle
  · intro other hother
    exact ⟨fun value => get?_insert_of_ne v value hother, fun k => get?_increments_of_ne hother k v⟩
  · intro value hvalue hnone k
    exact (refuses_of_no_number hvalue hnone).increments k

/-- From the last number but one, with wide spaces around it, one step of three is possible. A new
variable counts to two, and `Ada` is never counted up. -/
theorem increments_exact_limit :
    let v := empty.insert "who" "Ada"
    let w := v.insert "n" ("\u2003" ++ toString (maxNumber - 1) ++ "\t")
    isNumber (maxNumber - 1) = true ∧ isBlankText "\u2003" = true ∧ isBlankText "\t" = true ∧
      (w.increments "n" 3).1 = [true, false, false] ∧
      (w.increments "n" 3).2.get? "n" = some (toString maxNumber) ∧
      (w.increments "n" 1).2.get? "n" = some (toString (maxNumber - 1 + (1 : Nat))) ∧
      v.get? "n" = none ∧ (v.increments "n" 2).2.get? "n" = some (toString (2 : Int)) ∧
      (v.increments "n" 2).2.get? "who" = v.get? "who" ∧
      v.get? "who" = some "Ada" ∧ v.increments "who" 2 = ([false, false], v) := by
  intro v w
  have hfits : isNumber (maxNumber - 1) = true := by decide
  have hwide : isBlankText "\u2003" = true := by decide +kernel
  have htab : isBlankText "\t" = true := by decide
  have hnew : v.get? "n" = none := by decide
  have hada : v.get? "who" = some "Ada" := by decide
  have hnone : ∀ n, ¬ HoldsNumber "Ada" n := by
    intro n hn
    have hread := readNumber?_trim_eq_some_iff.mpr hn
    have hunread : readNumber? (trim "Ada") = none := by decide +kernel
    rw [hunread] at hread
    cases hread
  obtain ⟨hcounts, hstarts, hothers, -⟩ := increments_exact v "n"
  obtain ⟨-, -, -, hrefused⟩ := increments_exact v "who"
  have hsteps := hcounts (maxNumber - 1) "\u2003" "\t" hfits hwide htab
  obtain ⟨htold, -, hlast⟩ := (hsteps 3).2 (by decide)
  obtain ⟨-, hfirst⟩ := (hsteps 1).1 (by decide) (by decide)
  refine ⟨hfits, hwide, htab, htold, ?_, hfirst, hnew, (hstarts hnew 2 (by decide) (by decide)).2,
    (hothers "who" (by decide)).2 2, hada, hrefused "Ada" hada hnone 2⟩
  rw [hlast, if_neg (by decide)]

end Variables

end Bracemark
