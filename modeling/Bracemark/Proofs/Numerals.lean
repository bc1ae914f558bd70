/-
What list markers stand for.

The letters of a number are its digits in the bijective numeration in base twenty-six. There is no
zero among them, so a number is taken down by one before each division, and every word of letters
stands for a number of its own: writing and reading letters are inverse to each other
(`lettersValue_reverse`, `lettersFromEnd_lettersValue`).

Roman numerals write each value of a table as often as it goes into the number. How often that is
can be told from the text alone, because what the later entries of the table write never begins
with the numeral of this entry (`Legible.not_isPrefix`). For some entries the first letter is
enough to see this. `CM` begins with a letter that later entries begin with, but its second letter
does not occur in any of them. So equal numerals come from equal numbers, by induction on the table
(`romanFrom_injective`).

The numbers too large for roman numerals are written in decimal. Digits are no letters, so the two
ways of writing do not meet.
-/
import Bracemark.Proofs.Markup
import Bracemark.Numbering.Style
import Bracemark.Text.Integer

set_option autoImplicit false

namespace Bracemark

open Text

/-! ## Letters -/

/-- The value of a letter, from one for A to twenty-six for Z. -/
def letterValue (c : Char) : Nat :=
  c.toNat - 'A'.toNat + 1

/-- The number that a word of letters stands for in bijective base twenty-six. -/
def lettersValue (cs : List Char) : Nat :=
  cs.foldl (fun n c => 26 * n + letterValue c) 0

@[simp] theorem lettersValue_nil : lettersValue [] = 0 := rfl

theorem lettersValue_concat (cs : List Char) (c : Char) :
    lettersValue (cs ++ [c]) = 26 * lettersValue cs + letterValue c := by
  rw [lettersValue, List.foldl_append]
  rfl

/-- The letters from A to Z are the capitals. -/
theorem isUpper_iff_toNat {c : Char} : c.isUpper = true ↔ 65 ≤ c.toNat ∧ c.toNat ≤ 90 := by
  simp only [Char.isUpper, decide_eq_true_eq, ge_iff_le, UInt32.le_iff_toNat_le]
  exact Iff.rfl

theorem toNat_letter {digit : Nat} (h : digit < 26) : (letter digit).toNat = 'A'.toNat + digit := by
  have hvalid : ('A'.toNat + digit).isValidChar := by
    apply Or.inl
    show 65 + digit < 0xd800
    omega
  rw [letter, Char.ofNat, dif_pos hvalid]
  rfl

theorem isUpper_letter {digit : Nat} (h : digit < 26) : (letter digit).isUpper = true := by
  have hbound : 65 ≤ 'A'.toNat + digit ∧ 'A'.toNat + digit ≤ 90 := by
    show 65 ≤ 65 + digit ∧ 65 + digit ≤ 90
    omega
  rwa [isUpper_iff_toNat, toNat_letter h]

theorem letterValue_letter {digit : Nat} (h : digit < 26) :
    letterValue (letter digit) = digit + 1 := by
  rw [letterValue, toNat_letter h, Nat.add_sub_cancel_left]

theorem letterValue_bounds {c : Char} (h : c.isUpper = true) :
    1 ≤ letterValue c ∧ letterValue c ≤ 26 := by
  have hupper : c.toNat ≤ 90 := (isUpper_iff_toNat.mp h).2
  have hvalue : letterValue c = c.toNat - 65 + 1 := rfl
  omega

theorem letter_of_value {c : Char} (h : c.isUpper = true) : letter (letterValue c - 1) = c := by
  have hlower : 65 ≤ c.toNat := (isUpper_iff_toNat.mp h).1
  have hcode : 'A'.toNat + (letterValue c - 1) = c.toNat := by
    show 65 + (c.toNat - 65 + 1 - 1) = c.toNat
    omega
  rw [letter, hcode, Char.ofNat_toNat]

/-! ### Writing -/

theorem lettersFromEnd_of_pos {n : Nat} (h : 0 < n) :
    lettersFromEnd n = letter ((n - 1) % 26) :: lettersFromEnd ((n - 1) / 26) := by
  rw [lettersFromEnd, dif_neg (Nat.ne_of_gt h)]

theorem isUpper_of_mem_lettersFromEnd (n : Nat) : ∀ c ∈ lettersFromEnd n, c.isUpper = true := by
  fun_induction lettersFromEnd n with
  | case1 => exact fun c hc => absurd hc List.not_mem_nil
  | case2 n h ih =>
    intro c hc
    rcases List.mem_cons.mp hc with hfirst | hrest
    · rw [hfirst]
      exact isUpper_letter (Nat.mod_lt _ (by omega))
    · exact ih c hrest

/-- The letters of a number stand for it. -/
theorem lettersValue_reverse (n : Nat) : lettersValue (lettersFromEnd n).reverse = n := by
  fun_induction lettersFromEnd n with
  | case1 => rfl
  | case2 n h ih =>
    have hdigit : (n - 1) % 26 < 26 := Nat.mod_lt _ (by omega)
    rw [List.reverse_cons, lettersValue_concat, ih, letterValue_letter hdigit]
    -- Quotient and remainder are those of the number before `n`.
    omega

/-! ### Reading -/

/-- Every word of letters is what its number is written as. -/
theorem lettersFromEnd_lettersValue {cs : List Char} (h : ∀ c ∈ cs, c.isUpper = true) :
    lettersFromEnd (lettersValue cs) = cs.reverse := by
  induction cs using List.reverseRecOn with
  | nil => rw [lettersValue_nil, lettersFromEnd, dif_pos rfl, List.reverse_nil]
  | append_singleton cs c ih =>
    have hinit : ∀ d ∈ cs, d.isUpper = true := fun d hd => h d (List.mem_append_left _ hd)
    have hlast : c.isUpper = true := h c (List.mem_append_right _ (List.mem_singleton_self c))
    have hbounds := letterValue_bounds hlast
    have hpos : 0 < 26 * lettersValue cs + letterValue c := by omega
    -- The value of the last letter lies between 1 and 26, so one less is a remainder.
    have hdigit : (26 * lettersValue cs + letterValue c - 1) % 26 = letterValue c - 1 := by omega
    have hrest : (26 * lettersValue cs + letterValue c - 1) / 26 = lettersValue cs := by omega
    rw [lettersValue_concat, lettersFromEnd_of_pos hpos, hdigit, hrest, ih hinit,
      letter_of_value hlast, List.reverse_append, List.reverse_singleton, List.singleton_append]

/-! ### Numbers -/

theorem toList_toAlpha {n : Int} (h : 1 ≤ n) :
    (toAlpha n).toList = (lettersFromEnd n.toNat).reverse := by
  rw [toAlpha, if_neg (Int.not_lt.mpr h), String.toList_ofList]

theorem isUpper_toAlpha {n : Int} (h : 1 ≤ n) : ∀ c ∈ (toAlpha n).toList, c.isUpper = true := by
  intro c hc
  rw [toList_toAlpha h, List.mem_reverse] at hc
  exact isUpper_of_mem_lettersFromEnd _ c hc

theorem lettersValue_toAlpha {n : Int} (h : 1 ≤ n) :
    (lettersValue (toAlpha n).toList : Int) = n := by
  rw [toList_toAlpha h, lettersValue_reverse]
  omega

theorem toAlpha_ne_empty {n : Int} (h : 1 ≤ n) : toAlpha n ≠ "" := by
  intro hempty
  have hzero := lettersValue_toAlpha h
  rw [hempty] at hzero
  have hnone : lettersValue "".toList = 0 := rfl
  omega

theorem toAlpha_lettersValue {s : String} (hne : s ≠ "") (h : ∀ c ∈ s.toList, c.isUpper = true) :
    toAlpha (lettersValue s.toList) = s := by
  have hpos : (1 : Int) ≤ lettersValue s.toList := by
    by_contra hlt
    have hzero : lettersValue s.toList = 0 := by omega
    have hletters := lettersFromEnd_lettersValue h
    rw [hzero, lettersFromEnd, dif_pos rfl] at hletters
    exact hne (String.toList_eq_nil_iff.mp (List.reverse_eq_nil_iff.mp hletters.symm))
  rw [← String.toList_inj, toList_toAlpha hpos, Int.toNat_natCast, lettersFromEnd_lettersValue h,
    List.reverse_reverse]

theorem toAlpha_injective {m n : Int} (hm : 1 ≤ m) (hn : 1 ≤ n) (h : toAlpha m = toAlpha n) :
    m = n := by
  rw [← lettersValue_toAlpha hm, h, lettersValue_toAlpha hn]

/-! ## Roman numerals -/

/-- Where neither rest begins with a word, one can tell how often the word stands before it. -/
theorem flatten_replicate_append_inj {word x y : List Char} (hx : ¬ word <+: x)
    (hy : ¬ word <+: y) : ∀ {a b : Nat},
      (List.replicate a word).flatten ++ x = (List.replicate b word).flatten ++ y →
        a = b ∧ x = y := by
  intro a
  induction a with
  | zero =>
    intro b h
    cases b with
    | zero => exact ⟨rfl, h⟩
    | succ b =>
      apply absurd _ hx
      refine ⟨(List.replicate b word).flatten ++ y, ?_⟩
      rw [← List.append_assoc]
      exact h.symm
  | succ a ih =>
    intro b h
    cases b with
    | zero =>
      apply absurd _ hy
      refine ⟨(List.replicate a word).flatten ++ x, ?_⟩
      rw [← List.append_assoc]
      exact h
    | succ b =>
      rw [List.replicate_succ, List.replicate_succ, List.flatten_cons, List.flatten_cons,
        List.append_assoc, List.append_assoc] at h
      obtain ⟨hcount, hrest⟩ := ih (List.append_cancel_left h)
      exact ⟨congrArg (· + 1) hcount, hrest⟩

theorem toList_join_replicate (count : Nat) (s : String) :
    (String.join (List.replicate count s)).toList = (List.replicate count s.toList).flatten := by
  induction count with
  | zero => rfl
  | succ count ih =>
    rw [List.replicate_succ, List.replicate_succ, String.join_cons, String.toList_append, ih,
      List.flatten_cons]

theorem toList_romanFrom_cons (value : Nat) (numeral : String) (values : List (Nat × String))
    (n : Nat) :
    (romanFrom ((value, numeral) :: values) n).toList =
      (List.replicate (n / value) numeral.toList).flatten ++
        (romanFrom values (n % value)).toList := by
  rw [romanFrom, String.toList_append, toList_join_replicate]

/-- What is written consists of letters of the table. -/
theorem exists_of_mem_romanFrom {c : Char} (values : List (Nat × String)) :
    ∀ {n : Nat}, c ∈ (romanFrom values n).toList → ∃ e ∈ values, c ∈ e.2.toList := by
  induction values with
  | nil => exact fun hc => absurd hc List.not_mem_nil
  | cons e values ih =>
    intro n hc
    rw [toList_romanFrom_cons, List.mem_append, List.mem_flatten] at hc
    rcases hc with ⟨word, hword, hc⟩ | hc
    · rw [List.eq_of_mem_replicate hword] at hc
      exact ⟨e, List.mem_cons_self, hc⟩
    · obtain ⟨e', he', hc⟩ := ih hc
      exact ⟨e', List.mem_cons_of_mem _ he', hc⟩

/-- What is written begins as an entry of the table does. -/
theorem exists_of_head?_romanFrom {c : Char} (values : List (Nat × String)) :
    ∀ {n : Nat}, (romanFrom values n).toList.head? = some c →
      ∃ e ∈ values, e.2.toList.head? = some c := by
  induction values with
  | nil =>
    intro n hc
    cases hc
  | cons e values ih =>
    intro n hc
    rw [toList_romanFrom_cons] at hc
    by_cases hnone : (List.replicate (n / e.1) e.2.toList).flatten = []
    · rw [hnone, List.nil_append] at hc
      obtain ⟨e', he', hc⟩ := ih hc
      exact ⟨e', List.mem_cons_of_mem _ he', hc⟩
    · refine ⟨e, List.mem_cons_self, ?_⟩
      rw [List.head?_append_of_ne_nil _ hnone] at hc
      cases hcount : n / e.1 with
      | zero => exact absurd (by rw [hcount]; rfl) hnone
      | succ count =>
        rw [hcount, List.replicate_succ, List.flatten_cons] at hnone hc
        by_cases hempty : e.2.toList = []
        · rw [hempty] at hnone
          simp at hnone
        · rwa [List.head?_append_of_ne_nil _ hempty] at hc

/-- A table of numerals that can be read back. No numeral begins as a later one does, or else it
has a letter that later ones do not have, and the last value is one. -/
def Legible : List (Nat × String) → Prop
  | [] => False
  | (value, numeral) :: values =>
    numeral.toList ≠ [] ∧
      ((∀ e ∈ values, e.2.toList.head? ≠ numeral.toList.head?) ∨
        ∃ c ∈ numeral.toList, ∀ e ∈ values, c ∉ e.2.toList) ∧
      (values = [] ∧ value = 1 ∨ Legible values)

theorem legible_romanValues : Legible romanValues := by
  simp [Legible, romanValues]

/-- The numeral of an entry can be told from what later entries write. -/
theorem Legible.not_isPrefix {value : Nat} {numeral : String} {values : List (Nat × String)}
    (h : Legible ((value, numeral) :: values)) (n : Nat) :
    ¬ numeral.toList <+: (romanFrom values n).toList := by
  obtain ⟨hne, happart, -⟩ := h
  rintro ⟨rest, hrest⟩
  rcases happart with hheads | ⟨c, hc, hletters⟩
  · obtain ⟨c, cs, hcons⟩ := List.exists_cons_of_ne_nil hne
    have hhead : (romanFrom values n).toList.head? = some c := by
      rw [← hrest, hcons]
      rfl
    obtain ⟨e, he, hsame⟩ := exists_of_head?_romanFrom values hhead
    apply hheads e he
    rw [hsame, hcons]
    rfl
  · have hmem : c ∈ (romanFrom values n).toList := by
      rw [← hrest]
      exact List.mem_append_left _ hc
    obtain ⟨e, he, hce⟩ := exists_of_mem_romanFrom values hmem
    exact hletters e he hce

/-- **Equal numerals come from equal numbers**, in any table that can be read back. -/
theorem romanFrom_injective (values : List (Nat × String)) : Legible values →
    ∀ {m n : Nat}, romanFrom values m = romanFrom values n → m = n := by
  induction values with
  | nil => exact fun h => h.elim
  | cons e values ih =>
    obtain ⟨value, numeral⟩ := e
    intro h m n heq
    rw [← String.toList_inj, toList_romanFrom_cons, toList_romanFrom_cons] at heq
    obtain ⟨hcount, hrest⟩ :=
      flatten_replicate_append_inj (h.not_isPrefix _) (h.not_isPrefix _) heq
    rw [String.toList_inj] at hrest
    rw [← Nat.div_add_mod m value, ← Nat.div_add_mod n value, hcount]
    rcases h.2.2 with ⟨-, hone⟩ | hlater
    · rw [hone, Nat.mod_one, Nat.mod_one]
    · rw [ih hlater hrest]

/-- The letters of roman numerals are capitals. -/
theorem isUpper_of_mem_roman {c : Char} {n : Nat} (h : c ∈ (romanFrom romanValues n).toList) :
    c.isUpper = true := by
  have hcapitals : ∀ e ∈ romanValues, ∀ d ∈ e.2.toList, d.isUpper = true := by
    simp [romanValues]
  obtain ⟨e, he, hc⟩ := exists_of_mem_romanFrom romanValues h
  exact hcapitals e he c hc

theorem romanFrom_ne_empty {n : Nat} (h : 0 < n) : romanFrom romanValues n ≠ "" := by
  intro hempty
  have hzero : romanFrom romanValues 0 = "" := by decide
  exact Nat.ne_of_gt h (romanFrom_injective _ legible_romanValues (hempty.trans hzero.symm))

/-! ### The switch to decimal -/

theorem toRoman_of_le {n : Int} (h : 1 ≤ n) (hroman : n ≤ maxRoman) :
    toRoman n = romanFrom romanValues n.toNat := by
  rw [toRoman, if_neg (Int.not_lt.mpr h), if_neg (Int.not_lt.mpr hroman)]

theorem toRoman_of_gt {n : Int} (h : 1 ≤ n) (hlarge : maxRoman < n) : toRoman n = toString n := by
  rw [toRoman, if_neg (Int.not_lt.mpr h), if_pos hlarge]

/-- A positive number has no sign before its digits. -/
theorem isDigit_of_mem_positive {n : Int} (h : 1 ≤ n) :
    ∀ c ∈ (toString n).toList, c.isDigit = true := by
  obtain ⟨k, rfl⟩ := Int.eq_ofNat_of_zero_le (Int.le_trans Int.one_nonneg h)
  exact Html.isDigit_of_mem_toString k

theorem not_isDigit_of_isUpper {c : Char} (h : c.isUpper = true) : c.isDigit = false := by
  have hlower : 65 ≤ c.toNat := (isUpper_iff_toNat.mp h).1
  rw [← Bool.not_eq_true, Char.isDigit_iff_toNat]
  have hnine : '9'.toNat = 57 := rfl
  omega

/-- Roman numerals and decimal numbers have no text in common. -/
theorem toRoman_ne_of_switch {m n : Int} (hm : 1 ≤ m) (hroman : m ≤ maxRoman)
    (hlarge : maxRoman < n) : toRoman m ≠ toRoman n := by
  have hn : 1 ≤ n := by omega
  intro heq
  rw [toRoman_of_le hm hroman, toRoman_of_gt hn hlarge] at heq
  have hpos : 0 < m.toNat := by omega
  have hne := mt String.toList_eq_nil_iff.mp (romanFrom_ne_empty hpos)
  obtain ⟨c, cs, hcons⟩ := List.exists_cons_of_ne_nil hne
  have hc : c ∈ (romanFrom romanValues m.toNat).toList := by
    rw [hcons]
    exact List.mem_cons_self
  have hletter := not_isDigit_of_isUpper (isUpper_of_mem_roman hc)
  rw [heq] at hc
  exact absurd (isDigit_of_mem_positive hn c hc) (hletter ▸ Bool.false_ne_true)

theorem toRoman_injective {m n : Int} (hm : 1 ≤ m) (hn : 1 ≤ n) (h : toRoman m = toRoman n) :
    m = n := by
  by_cases hmroman : m ≤ maxRoman <;> by_cases hnroman : n ≤ maxRoman
  · rw [toRoman_of_le hm hmroman, toRoman_of_le hn hnroman] at h
    have hnat := romanFrom_injective romanValues legible_romanValues h
    omega
  · exact absurd h (toRoman_ne_of_switch hm hmroman (Int.not_le.mp hnroman))
  · exact absurd h.symm (toRoman_ne_of_switch hn hnroman (Int.not_le.mp hmroman))
  · rw [toRoman_of_gt hm (Int.not_le.mp hmroman), toRoman_of_gt hn (Int.not_le.mp hnroman)] at h
    exact Int.repr_inj.mp h

/-! ## Styles -/

/-! ### Small letters -/

theorem not_isLower_of_isDigit {c : Char} (h : c.isDigit = true) : ¬ c.isLower := by
  have hupper : c.toNat ≤ 57 := (Char.isDigit_iff_toNat.mp h).2
  simp only [Char.isLower, Bool.and_eq_true, decide_eq_true_eq, UInt32.le_iff_toNat_le]
  intro hlower
  have hsmall : 97 ≤ c.toNat := hlower.1
  omega

theorem not_isLower_toRoman {n : Int} (h : 1 ≤ n) : ∀ c ∈ (toRoman n).toList, ¬ c.isLower := by
  intro c hc
  by_cases hroman : n ≤ maxRoman
  · rw [toRoman_of_le h hroman] at hc
    exact Char.not_isLower_of_isUpper (isUpper_of_mem_roman hc)
  · rw [toRoman_of_gt h (Int.not_le.mp hroman)] at hc
    exact not_isLower_of_isDigit (isDigit_of_mem_positive h c hc)

/-- A text without small letters is got back by raising those of the lowered text. -/
theorem map_toUpper_lowered {s : String} (h : ∀ c ∈ s.toList, ¬ c.isLower) :
    (lowered s).toList.map Char.toUpper = s.toList := by
  rw [toList_lowered, List.map_map]
  conv_rhs => rw [← List.map_id s.toList]
  apply List.map_congr_left
  intro c hc
  rw [Function.comp_apply, Char.toUpper_toLower_eq_toUpper, Char.toUpper_eq_of_not_isLower (h c hc),
    id_eq]

theorem lowered_injective {s t : String} (hs : ∀ c ∈ s.toList, ¬ c.isLower)
    (ht : ∀ c ∈ t.toList, ¬ c.isLower) (h : lowered s = lowered t) : s = t := by
  rw [← String.toList_inj, ← map_toUpper_lowered hs, ← map_toUpper_lowered ht, h]

/-! ### Markers -/

/-- An ordered list gives no two items of different numbers the same marker. -/
theorem Style.format_injective {style : Style} (hstyle : style.isOrdered = true) {m n : Int}
    (hm : 1 ≤ m) (hn : 1 ≤ n) (h : style.format m = style.format n) : m = n := by
  cases style with
  | decimal => exact Int.repr_inj.mp h
  | upperAlpha => exact toAlpha_injective hm hn h
  | upperRoman => exact toRoman_injective hm hn h
  | lowerAlpha =>
    have hsame := lowered_injective
      (fun c hc => Char.not_isLower_of_isUpper (isUpper_toAlpha hm c hc))
      (fun c hc => Char.not_isLower_of_isUpper (isUpper_toAlpha hn c hc)) h
    exact toAlpha_injective hm hn hsame
  | lowerRoman =>
    have hsame := lowered_injective (not_isLower_toRoman hm) (not_isLower_toRoman hn) h
    exact toRoman_injective hm hn hsame
  | disc => exact absurd hstyle Bool.false_ne_true
  | circle => exact absurd hstyle Bool.false_ne_true

/-- **Letters are a bijective numeration, and markers are told apart.** The letters of a positive
number are a word that is not empty, from A to Z, and stands for the number in bijective base
twenty-six; every such word is the letters of what it stands for. Numbers below one show a question
mark. In every ordered style, different positive numbers have different markers, also where roman
numerals go over to decimal. -/
theorem numerals_bijective :
    (∀ n : Int, 1 ≤ n →
      toAlpha n ≠ "" ∧ (∀ c ∈ (toAlpha n).toList, c.isUpper = true) ∧
        (lettersValue (toAlpha n).toList : Int) = n) ∧
      (∀ s : String, s ≠ "" → (∀ c ∈ s.toList, c.isUpper = true) →
        toAlpha (lettersValue s.toList) = s) ∧
      (∀ n : Int, n < 1 → toAlpha n = "?") ∧
      ∀ style : Style, style.isOrdered = true → ∀ m n : Int, 1 ≤ m → 1 ≤ n →
        style.format m = style.format n → m = n := by
  refine ⟨?_, ?_, ?_, ?_⟩
  · intro n hn
    exact ⟨toAlpha_ne_empty hn, isUpper_toAlpha hn, lettersValue_toAlpha hn⟩
  · intro s hne hcapital
    exact toAlpha_lettersValue hne hcapital
  · intro n hn
    rw [toAlpha, if_pos hn]
  · intro style hstyle m n hm hn heq
    exact style.format_injective hstyle hm hn heq

/-- The largest number has fourteen letters, which are the letters of the number they stand for.
The last roman numeral is not the text of the number after it. -/
theorem numerals_bijective_limits :
    let word := "CRPXNLSKVLJFHG"
    1 ≤ maxNumber ∧ lettersValue (toAlpha maxNumber).toList = maxNumber ∧
      word ≠ "" ∧ (∀ c ∈ word.toList, c.isUpper = true) ∧ lettersValue word.toList = maxNumber ∧
      toAlpha (lettersValue word.toList) = word ∧
      (0 : Int) < 1 ∧ toAlpha 0 = "?" ∧
      Style.lowerRoman.isOrdered = true ∧
      Style.lowerRoman.format maxRoman ≠ Style.lowerRoman.format (maxRoman + 1) := by
  intro word
  obtain ⟨hwrites, hreads, hnone, hstyles⟩ := numerals_bijective
  have hcapital : ∀ c ∈ word.toList, c.isUpper = true := by
    simp [word]
  have hvalue : lettersValue word.toList = maxNumber := by
    decide
  refine ⟨one_le_maxNumber, (hwrites maxNumber one_le_maxNumber).2.2, by decide, hcapital, hvalue,
    hreads word (by decide) hcapital, by decide, hnone 0 (by decide), rfl, ?_⟩
  intro heq
  exact absurd (hstyles .lowerRoman rfl _ _ (by decide) (by decide) heq) (by decide)

end Bracemark
