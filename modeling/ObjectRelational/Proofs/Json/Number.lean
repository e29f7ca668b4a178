import Mathlib.Data.List.TakeDrop
import ObjectRelational.Json.Printer
import ObjectRelational.Proofs.Number.Shortest

/-!
# The text of numbers in JSON

The text of a floating-point number gives its sign and the value of its shortest decimal away, and
with them the number.

* `Magnitude` is a magnitude as it is written: digits, digits behind a point, an exponent.
* `Magnitude.chars_injective`: the text tells the parts apart.
* `value_magnitudeOf`: all layouts of a decimal have its value.
* `numberText_injective`: different numbers have different texts.
-/

namespace ObjectRelational.Json

/-! ## Runs -/

/-- A run of one kind ends where something of another kind comes. -/
theorem append_inj_of_run {α : Type} {p : α → Bool} {a b r s : List α} (ha : ∀ c ∈ a, p c = true)
    (hb : ∀ c ∈ b, p c = true) (hr : ∀ c ∈ r.head?, p c = false)
    (hs : ∀ c ∈ s.head?, p c = false) (h : a ++ r = b ++ s) : a = b ∧ r = s := by
  have hstop : ∀ t : List α, (∀ c ∈ t.head?, p c = false) → t.takeWhile p = [] := by
    intro t ht
    cases t with
    | nil => rfl
    | cons c rest => simp [ht c rfl]
  have hrun := congrArg (List.takeWhile p) h
  rw [List.takeWhile_append_of_pos ha, List.takeWhile_append_of_pos hb, hstop r hr, hstop s hs,
    List.append_nil, List.append_nil] at hrun
  subst hrun
  exact ⟨rfl, List.append_cancel_left h⟩

/-- All characters are digits. -/
def Digits (l : List Char) : Prop := ∀ c ∈ l, c.isDigit = true

theorem digits_toDigits (n : Nat) : Digits (Nat.toDigits 10 n) := by
  intro c hc
  exact Nat.isDigit_of_mem_toDigits (by omega) (by omega) hc

theorem digits_replicate (n : Nat) : Digits (List.replicate n '0') := by
  intro c hc
  rw [List.eq_of_mem_replicate hc]
  rfl

theorem Digits.append {a b : List Char} (ha : Digits a) (hb : Digits b) : Digits (a ++ b) := by
  intro c hc
  rcases List.mem_append.1 hc with hc | hc
  · exact ha c hc
  · exact hb c hc

theorem Digits.take {a : List Char} (ha : Digits a) (n : Nat) : Digits (a.take n) :=
  fun c hc => ha c (List.mem_of_mem_take hc)

theorem Digits.drop {a : List Char} (ha : Digits a) (n : Nat) : Digits (a.drop n) :=
  fun c hc => ha c (List.mem_of_mem_drop hc)

theorem toDigits_injective {m n : Nat} (h : Nat.toDigits 10 m = Nat.toDigits 10 n) : m = n := by
  rw [← Nat.ofDigitChars_ten_toDigits (n := m), h, Nat.ofDigitChars_ten_toDigits]

/-! ## Magnitudes -/

/-- A magnitude as it is written. -/
structure Magnitude where
  /-- The digits before the point. -/
  whole : List Char
  /-- The digits behind the point; there is a point if there is one of them. -/
  fraction : List Char
  /-- The exponent, where one is written. -/
  exponent : Option Int

namespace Magnitude

/-- The point and the digits behind it. -/
def pointChars : List Char → List Char
  | [] => []
  | d :: rest => '.' :: d :: rest

/-- The exponent with its sign. -/
def exponentChars : Option Int → List Char
  | none => []
  | some e => 'e' :: (if e < 0 then '-' else '+') :: Nat.toDigits 10 e.natAbs

/-- The characters of a magnitude. -/
def chars (m : Magnitude) : List Char :=
  m.whole ++ (pointChars m.fraction ++ exponentChars m.exponent)

/-- The number that a magnitude writes. -/
def value (m : Magnitude) : ℚ :=
  Nat.ofDigitChars 10 (m.whole ++ m.fraction) 0 * 10 ^ (m.exponent.getD 0 - m.fraction.length)

/-- Nothing but digits stands on either side of the point. -/
def Valid (m : Magnitude) : Prop := Digits m.whole ∧ Digits m.fraction

theorem exponentChars_head {e : Option Int} {c : Char} (h : c ∈ (exponentChars e).head?) :
    c = 'e' := by
  cases e with
  | none => cases h
  | some e => simpa [exponentChars] using h.symm

theorem pointChars_head {fraction : List Char} {e : Option Int} {c : Char}
    (h : c ∈ (pointChars fraction ++ exponentChars e).head?) : c = '.' ∨ c = 'e' := by
  cases fraction with
  | nil => exact .inr (exponentChars_head h)
  | cons d rest => exact .inl (by simpa [pointChars] using h.symm)

theorem exponentChars_injective {e f : Option Int} (h : exponentChars e = exponentChars f) :
    e = f := by
  cases e with
  | none => cases f with
    | none => rfl
    | some f => cases h
  | some e => cases f with
    | none => cases h
    | some f =>
      simp only [exponentChars, List.cons.injEq, true_and] at h
      have habs := toDigits_injective h.2
      have hsign : e < 0 ↔ f < 0 := by
        by_cases he : e < 0 <;> by_cases hf : f < 0
        · exact ⟨fun _ => hf, fun _ => he⟩
        · simp [he, hf] at h
        · simp [he, hf] at h
        · exact ⟨fun h => absurd h he, fun h => absurd h hf⟩
      exact congrArg some (by omega)

theorem pointChars_inj {a b : List Char} {e f : Option Int} (ha : Digits a) (hb : Digits b)
    (h : pointChars a ++ exponentChars e = pointChars b ++ exponentChars f) : a = b ∧ e = f := by
  cases a with
  | nil => cases b with
    | nil => exact ⟨rfl, exponentChars_injective h⟩
    | cons d rest => cases e <;> simp [pointChars, exponentChars] at h
  | cons d rest => cases b with
    | nil => cases f <;> simp [pointChars, exponentChars] at h
    | cons d' rest' =>
      have htail : (d :: rest) ++ exponentChars e = (d' :: rest') ++ exponentChars f := by
        simpa [pointChars] using h
      obtain ⟨hdigits, hexponent⟩ := append_inj_of_run ha hb
        (fun c hc => by rw [exponentChars_head hc]; rfl)
        (fun c hc => by rw [exponentChars_head hc]; rfl) htail
      exact ⟨hdigits, exponentChars_injective hexponent⟩

/-- The text of a magnitude tells its parts. -/
theorem chars_injective {m n : Magnitude} (hm : m.Valid) (hn : n.Valid) (h : m.chars = n.chars) :
    m = n := by
  have hstop : ∀ fraction e, ∀ c ∈ (pointChars fraction ++ exponentChars e).head?,
      c.isDigit = false := by
    intro fraction e c hc
    rcases pointChars_head hc with rfl | rfl <;> rfl
  rcases append_inj_of_run hm.1 hn.1 (hstop _ _) (hstop _ _) h with ⟨hwhole, hrest⟩
  rcases pointChars_inj hm.2 hn.2 hrest with ⟨hfraction, hexponent⟩
  cases m
  cases n
  simp_all

end Magnitude

/-! ## The layout -/

/-- How the digits of a decimal are laid out; `scale` is the decimal exponent of the first one. -/
def magnitudeOf (digits : List Char) (scale : Int) : Magnitude :=
  if -5 ≤ scale ∧ scale < 16 then
    if scale < 0 then ⟨['0'], List.replicate (-scale - 1).toNat '0' ++ digits, none⟩
    else if digits.length ≤ scale.toNat + 1 then
      ⟨digits ++ List.replicate (scale.toNat + 1 - digits.length) '0', ['0'], none⟩
    else ⟨digits.take (scale.toNat + 1), digits.drop (scale.toNat + 1), none⟩
  else ⟨digits.take 1, digits.drop 1, some scale⟩

/-- The digits of the shortest decimal of a number. -/
def shortestDigits (x : Binary64) : List Char := Nat.toDigits 10 x.shortest.digits

/-- The decimal exponent of the first one. -/
def shortestScale (x : Binary64) : Int := x.shortest.exponent + (shortestDigits x).length - 1

/-- The sign of a number. -/
def signChars (negative : Bool) : List Char := if negative then ['-'] else []

theorem inPlace_eq {digits : List Char} {scale : Int} (hne : digits ≠ [])
    (h : -5 ≤ scale ∧ scale < 16) :
    (numberLayout.inPlace digits scale).toList = (magnitudeOf digits scale).chars := by
  unfold magnitudeOf FloatLayout.inPlace
  rw [if_pos h]
  by_cases hsmall : scale < 0
  · have hpoint : List.replicate (-scale - 1).toNat '0' ++ digits ≠ [] := by simp [hne]
    rcases List.exists_cons_of_ne_nil hpoint with ⟨d, rest, hcons⟩
    simp only [hsmall, if_true, FloatLayout.zeros, String.toList_append, String.toList_ofList,
      List.append_assoc]
    rw [Magnitude.chars, hcons]
    simp [Magnitude.pointChars, Magnitude.exponentChars]
  · by_cases hshort : digits.length ≤ scale.toNat + 1
    · simp [hsmall, hshort, FloatLayout.zeros, Magnitude.chars, Magnitude.pointChars,
        Magnitude.exponentChars, numberLayout]
    · have hpoint : digits.drop (scale.toNat + 1) ≠ [] := by
        simp only [ne_eq, List.drop_eq_nil_iff]
        exact hshort
      rcases List.exists_cons_of_ne_nil hpoint with ⟨d, rest, hcons⟩
      simp [hsmall, hshort, Magnitude.chars, Magnitude.pointChars, Magnitude.exponentChars, hcons]

theorem withExponent_eq {digits : List Char} {scale : Int} (hne : digits ≠ [])
    (h : ¬ (-5 ≤ scale ∧ scale < 16)) :
    (numberLayout.withExponent digits scale).toList = (magnitudeOf digits scale).chars := by
  unfold magnitudeOf FloatLayout.withExponent
  rw [if_neg h]
  have hsign : (if scale < 0 then "-" else if numberLayout.signsExponent then "+" else "").toList =
      [if scale < 0 then '-' else '+'] := by
    split <;> simp [numberLayout]
  match digits, hne with
  | [d], _ =>
    simp only [String.toList_append, hsign]
    simp [FloatLayout.digitsText, Magnitude.chars, Magnitude.pointChars, Magnitude.exponentChars,
      numberLayout]
  | d :: second :: rest, _ =>
    simp only [String.toList_append, hsign]
    simp [FloatLayout.digitsText, Magnitude.chars, Magnitude.pointChars, Magnitude.exponentChars,
      numberLayout]

/-- The text of a number is its sign and its magnitude. -/
theorem numberText_toList (x : Binary64) :
    (numberLayout.text x).toList =
      signChars x.negative ++ (magnitudeOf (shortestDigits x) (shortestScale x)).chars := by
  have hdigits : (FloatLayout.digitsText x.shortest.digits).toList = shortestDigits x := by
    simp [FloatLayout.digitsText, shortestDigits]
  have hne : shortestDigits x ≠ [] := Nat.toDigits_ne_nil
  have hmagnitude :
      (if numberLayout.leastInPlace ≤ shortestScale x ∧
          shortestScale x < numberLayout.firstTooLarge then
        numberLayout.inPlace (shortestDigits x) (shortestScale x)
      else numberLayout.withExponent (shortestDigits x) (shortestScale x)).toList =
        (magnitudeOf (shortestDigits x) (shortestScale x)).chars := by
    split
    · rename_i h
      exact inPlace_eq hne h
    · rename_i h
      exact withExponent_eq hne h
  unfold FloatLayout.text signChars
  simp only [hdigits]
  split
  · rw [String.toList_append]
    exact congrArg _ hmagnitude
  · exact hmagnitude

theorem valid_magnitudeOf {digits : List Char} (h : Digits digits) (scale : Int) :
    (magnitudeOf digits scale).Valid := by
  have hzero : Digits ['0'] := digits_replicate 1
  unfold magnitudeOf
  split
  · split
    · exact ⟨hzero, (digits_replicate _).append h⟩
    · split
      · exact ⟨h.append (digits_replicate _), hzero⟩
      · exact ⟨h.take _, h.drop _⟩
  · exact ⟨h.take _, h.drop _⟩

/-- However the digits are laid out, the value is that of the decimal. -/
theorem value_magnitudeOf {digits : List Char} (hne : digits ≠ []) (scale : Int) :
    (magnitudeOf digits scale).value =
      Nat.ofDigitChars 10 digits 0 * 10 ^ (scale + 1 - digits.length) := by
  have hlength : 0 < digits.length := List.length_pos_iff.2 hne
  unfold magnitudeOf
  split
  · split
    · -- zeros before the digits do not count
      have hexp : (0 : Int) - ((-scale - 1).toNat + digits.length : Nat) =
          scale + 1 - digits.length := by omega
      simp only [Magnitude.value, Option.getD_none, List.length_append, List.length_replicate,
        Nat.ofDigitChars_append, Nat.ofDigitChars_replicate_zero, hexp]
      simp [Nat.ofDigitChars_cons]
    · split
      · -- zeros behind the digits are powers of ten
        rename_i hsmall hshort
        rcases Nat.exists_eq_add_of_le hshort with ⟨k, hk⟩
        have hcount : scale.toNat + 1 - digits.length = k := by omega
        have hexp : scale + 1 - digits.length = (k : Int) := by omega
        simp only [Magnitude.value, Option.getD_none, hcount, hexp, Nat.ofDigitChars_append,
          Nat.ofDigitChars_replicate_zero]
        simp [Nat.ofDigitChars_cons]
        ring
      · rename_i hsmall hlong
        have hexp : (0 : Int) - (digits.length - (scale.toNat + 1) : Nat) =
            scale + 1 - digits.length := by omega
        simp only [Magnitude.value, Option.getD_none, List.take_append_drop, List.length_drop, hexp]
  · have hexp : scale - (digits.length - 1 : Nat) = scale + 1 - digits.length := by omega
    simp only [Magnitude.value, Option.getD_some, List.take_append_drop, List.length_drop, hexp]

/-! ## The numbers -/

/-- The magnitude that is written has the value of the shortest decimal. -/
theorem value_shortest (x : Binary64) :
    (magnitudeOf (shortestDigits x) (shortestScale x)).value = x.shortest.value := by
  have hexp : x.shortest.exponent + (shortestDigits x).length - 1 + 1 - (shortestDigits x).length =
      x.shortest.exponent := by omega
  have hne : shortestDigits x ≠ [] := Nat.toDigits_ne_nil
  rw [value_magnitudeOf hne, shortestScale, hexp, shortestDigits, Nat.ofDigitChars_ten_toDigits,
    Decimal.value]

theorem magnitudeOf_head {digits : List Char} (h : Digits digits) (hne : digits ≠ []) (scale : Int) :
    ∃ c rest, (magnitudeOf digits scale).chars = c :: rest ∧ c.isDigit = true := by
  rcases List.exists_cons_of_ne_nil hne with ⟨d, rest, rfl⟩
  have hd : d.isDigit = true := h d List.mem_cons_self
  unfold magnitudeOf
  split
  · split
    · exact ⟨'0', _, rfl, rfl⟩
    · split
      · exact ⟨d, _, rfl, hd⟩
      · exact ⟨d, _, rfl, hd⟩
  · exact ⟨d, _, rfl, hd⟩

/-- Different numbers have different texts. -/
theorem numberText_injective {x y : Binary64} (h : numberLayout.text x = numberLayout.text y) :
    x = y := by
  have hchars := congrArg String.toList h
  rw [numberText_toList, numberText_toList] at hchars
  have hx := digits_toDigits x.shortest.digits
  have hy := digits_toDigits y.shortest.digits
  rcases magnitudeOf_head hx Nat.toDigits_ne_nil (shortestScale x) with ⟨c, restx, heqx, hc⟩
  rcases magnitudeOf_head hy Nat.toDigits_ne_nil (shortestScale y) with ⟨d, resty, heqy, hd⟩
  -- a minus sign is no digit, so the signs agree
  have hsign : x.negative = y.negative := by
    unfold shortestDigits at hchars
    rw [heqx, heqy] at hchars
    cases hxneg : x.negative <;> cases hyneg : y.negative
    · rfl
    · rw [hxneg, hyneg] at hchars
      obtain rfl : c = '-' := (List.cons.inj hchars).1
      cases hc
    · rw [hxneg, hyneg] at hchars
      obtain rfl : '-' = d := (List.cons.inj hchars).1
      cases hd
    · rfl
  rw [hsign] at hchars
  have hmagnitude := Magnitude.chars_injective (valid_magnitudeOf hx _) (valid_magnitudeOf hy _)
    (List.append_cancel_left hchars)
  apply Binary64.eq_of_shortest_value hsign
  rw [← value_shortest, ← value_shortest]
  exact congrArg Magnitude.value hmagnitude

end ObjectRelational.Json
