import Mathlib.Computability.Language
import Mathlib.Data.List.Forall2
import ObjectRelational.Store.Milestoning

/-!
# Dates and flags

The values of some milestoning arguments are more than names of columns. A flag is a word in any letter case. The
date that stands for infinity is written as `YYYY-MM-DD`, with or without a time of day: its shape is the language
of a regular expression, which is read from left to right, one piece after the other.

* `InAnyCase`: a word in any letter case. `map_toLower_eq_iff`: what becomes the word when its letters are made
  small.
* `dateText`: the language of dates. `isDateText_iff`: what is taken for a date is exactly what lies in it.
-/

open scoped Computability

namespace ObjectRelational.MilestoningClause

/-! ## Letter case -/

/-- The text is the word, each letter small or capital. -/
def InAnyCase (word text : List Char) : Prop :=
  List.Forall₂ (fun letter c => c = letter ∨ c = letter.toUpper) word text

theorem toLower_eq_iff {letter c : Char} (h : letter.isLower = true) :
    c.toLower = letter ↔ c = letter ∨ c = letter.toUpper := by
  have hA : 'A'.val = 65 := rfl
  have hZ : 'Z'.val = 90 := rfl
  have ha : 'a'.val = 97 := rfl
  have hz : 'z'.val = 122 := rfl
  have h : (decide (letter.val ≥ 97) && decide (letter.val ≤ 122)) = true := h
  simp only [Bool.and_eq_true, decide_eq_true_eq] at h
  unfold Char.toLower Char.toUpper
  simp only [hA, hZ, ha, hz, Char.ext_iff]
  rw [dif_pos h]
  -- from here on it is about code points, which are moved by 32 up or down
  have hup : (97 - 65 : UInt32).toNat = 32 := rfl
  have hdown : (65 - 97 : UInt32).toNat = 2 ^ 32 - 32 := rfl
  have h65 : (65 : UInt32).toNat = 65 := rfl
  have h90 : (90 : UInt32).toNat = 90 := rfl
  have h97 : (97 : UInt32).toNat = 97 := rfl
  have h122 : (122 : UInt32).toNat = 122 := rfl
  have hc := c.val.toNat_lt
  have hl := letter.val.toNat_lt
  simp only [ge_iff_le, UInt32.le_iff_toNat_le, h65, h90, h97, h122] at h ⊢
  split
  · simp only [← UInt32.toNat_inj, UInt32.toNat_add, hup, hdown]
    omega
  · simp only [← UInt32.toNat_inj, UInt32.toNat_add, hdown]
    omega

/-- Small letters are what the text becomes if and only if it is made of these letters, small or capital. -/
theorem map_toLower_eq_iff {word text : List Char} (h : ∀ letter ∈ word, letter.isLower = true) :
    text.map Char.toLower = word ↔ InAnyCase word text := by
  unfold InAnyCase
  induction word generalizing text with
  | nil => simp
  | cons letter rest ih =>
    obtain ⟨hletter, hrest⟩ := List.forall_mem_cons.1 h
    rw [List.map_eq_cons_iff, List.forall₂_cons_left_iff]
    simp only [toLower_eq_iff hletter, ih hrest]
    constructor
    · rintro ⟨c, others, rfl, hc, hothers⟩
      exact ⟨c, others, hc, hothers, rfl⟩
    · rintro ⟨c, others, hc, hothers, rfl⟩
      exact ⟨c, others, rfl, hc, hothers⟩

/-! ## The language of dates -/

/-- One decimal digit, of any script. -/
def digit : Language Char := {text | ∃ c, isDecimalDigit c = true ∧ text = [c]}

/-- A fraction of a second: a point and at least one digit. -/
def fraction : Language Char := {['.']} * digit * digit∗

/-- Seconds behind a colon, with or without a fraction. -/
def seconds : Language Char := {[':']} * digit ^ 2 * (1 + fraction)

/-- Hours and minutes behind a `T`, with or without seconds. -/
def timeOfDay : Language Char := {['T']} * digit ^ 2 * {[':']} * digit ^ 2 * (1 + seconds)

/-- A date, with or without a time of day. -/
def dateText : Language Char :=
  digit ^ 4 * {['-']} * digit ^ 2 * {['-']} * digit ^ 2 * (1 + timeOfDay)

/-! ## Reading one piece -/

variable {text : List Char} {l : Language Char}

theorem mem_digit_iff {c : Char} : [c] ∈ digit ↔ isDecimalDigit c = true := by
  constructor
  · rintro ⟨d, hd, hsame⟩
    obtain rfl := List.singleton_inj.1 hsame
    exact hd
  · intro hc
    exact ⟨c, hc, rfl⟩

theorem mem_digit_mul_iff :
    text ∈ digit * l ↔ ∃ c rest, text = c :: rest ∧ isDecimalDigit c = true ∧ rest ∈ l := by
  rw [Language.mem_mul]
  constructor
  · rintro ⟨_, ⟨c, hc, rfl⟩, rest, hrest, rfl⟩
    exact ⟨c, rest, rfl, hc, hrest⟩
  · rintro ⟨c, rest, rfl, hc, hrest⟩
    exact ⟨[c], ⟨c, hc, rfl⟩, rest, hrest, rfl⟩

/-- Behind a character stands what is left when it is dropped. -/
theorem mem_char_mul_iff {c : Char} :
    text ∈ {[c]} * l ↔ ∃ rest, dropChar? c text = some rest ∧ rest ∈ l := by
  rw [Language.mem_mul]
  constructor
  · rintro ⟨_, rfl, rest, hrest, rfl⟩
    exact ⟨rest, by simp [dropChar?], hrest⟩
  · rintro ⟨rest, hdrop, hrest⟩
    cases text with
    | nil => cases hdrop
    | cons d others =>
      simp only [dropChar?, Option.ite_none_right_eq_some, Option.some.injEq] at hdrop
      obtain ⟨rfl, rfl⟩ := hdrop
      exact ⟨[d], rfl, others, hrest, rfl⟩

/-- Behind a number of digits stands what is left when they are dropped. -/
theorem mem_digits_mul_iff {count : Nat} :
    text ∈ digit ^ count * l ↔ ∃ rest, dropDigits? count text = some rest ∧ rest ∈ l := by
  induction count generalizing text with
  | zero => simp [dropDigits?]
  | succ count ih =>
    rw [pow_succ', mul_assoc, mem_digit_mul_iff]
    cases text with
    | nil => simp [dropDigits?]
    | cons c rest =>
      by_cases hc : isDecimalDigit c = true
      · simp [dropDigits?, hc, ih]
      · simp [dropDigits?, hc]

theorem mem_digit_kstar_iff : text ∈ digit∗ ↔ text.all isDecimalDigit = true := by
  rw [Language.mem_kstar]
  constructor
  · rintro ⟨pieces, rfl, hpieces⟩
    rw [List.all_flatten, List.all_eq_true]
    intro piece hpiece
    obtain ⟨c, hc, rfl⟩ := hpieces piece hpiece
    simpa using hc
  · intro hdigits
    refine ⟨text.map fun c => [c], by rw [← List.flatMap_def, List.flatMap_singleton'], ?_⟩
    intro piece hpiece
    obtain ⟨c, hc, rfl⟩ := List.mem_map.1 hpiece
    exact mem_digit_iff.2 (List.all_eq_true.1 hdigits c hc)

/-! ## Reading a date -/

theorem isFractionOrEnd_iff : isFractionOrEnd text = true ↔ text ∈ 1 + fraction := by
  rw [Language.mem_add, Language.mem_one, fraction, mul_assoc, mem_char_mul_iff]
  simp only [mem_digit_mul_iff, mem_digit_kstar_iff]
  unfold isFractionOrEnd
  split
  · simp
  · simp [dropChar?]
  · rename_i hnil hpoint
    cases text with
    | nil => exact absurd rfl hnil
    | cons c rest =>
      have hne : ∀ d others, dropChar? '.' (c :: rest) ≠ some (d :: others) := by
        intro d others hdrop
        simp only [dropChar?, Option.ite_none_right_eq_some, Option.some.injEq] at hdrop
        obtain ⟨rfl, rfl⟩ := hdrop
        exact hpoint d others rfl
      simp only [Bool.false_eq_true, reduceCtorEq, false_or, false_iff, not_exists, not_and]
      rintro rest' hdrop d others rfl
      exact absurd hdrop (hne d others)

/-- A test of what is left behind some pieces. -/
theorem tested_iff {left : Option (List Char)} {test : List Char → Bool} :
    (match left with
      | some rest => test rest
      | none => false) = true ↔ ∃ rest, left = some rest ∧ test rest = true := by
  cases left <;> simp

/-- Pieces are read one after the other. -/
theorem exists_bind_iff {left : Option (List Char)} {next : List Char → Option (List Char)}
    {P : List Char → Prop} :
    (∃ rest, (left >>= next) = some rest ∧ P rest) ↔
      ∃ mid, left = some mid ∧ ∃ rest, next mid = some rest ∧ P rest := by
  cases left <;> simp

theorem isSecondsOrEnd_iff : isSecondsOrEnd text = true ↔ text ∈ 1 + seconds := by
  rw [Language.mem_add, Language.mem_one, seconds]
  simp only [mul_assoc, mem_char_mul_iff, mem_digits_mul_iff, ← isFractionOrEnd_iff]
  unfold isSecondsOrEnd
  split
  · simp
  · rename_i hnil
    rw [or_iff_right hnil, ← exists_bind_iff]
    exact tested_iff

theorem isTimeOrEnd_iff : isTimeOrEnd text = true ↔ text ∈ 1 + timeOfDay := by
  rw [Language.mem_add, Language.mem_one, timeOfDay]
  simp only [mul_assoc, mem_char_mul_iff, mem_digits_mul_iff, ← isSecondsOrEnd_iff]
  unfold isTimeOrEnd
  split
  · simp
  · rename_i hnil
    rw [or_iff_right hnil, ← exists_bind_iff, ← exists_bind_iff, ← exists_bind_iff]
    exact tested_iff

/-- What is taken for a date is what has the shape of one. -/
theorem isDateText_iff : isDateText text = true ↔ text ∈ dateText := by
  rw [dateText]
  simp only [mul_assoc, mem_char_mul_iff, mem_digits_mul_iff, ← isTimeOrEnd_iff]
  rw [← exists_bind_iff, ← exists_bind_iff, ← exists_bind_iff, ← exists_bind_iff]
  exact tested_iff

end ObjectRelational.MilestoningClause
