import ObjectRelational.Proofs.Json.Number
import Std.Data.String.ToInt

/-!
# JSON text is unambiguous

The compact text of a value is the text of no other one.

* `quoted_append_inj`: a quoted string tells the string and what stands behind it.
* `chars_append_inj`: so does the text of a value, unless what is behind it goes on with a number.
* `text_injective`: different values have different texts.
-/

namespace ObjectRelational.Json

/-! ## Strings -/

/-- The value of a hexadecimal digit in lower case. -/
def hexValue (c : Char) : Nat := if c.isDigit then c.toNat - 48 else c.toNat - 87

theorem hexValue_hexDigit : ∀ n < 16, hexValue (hexDigit n) = n := by decide

/-- The character that stands escaped at the front of a text, and what is behind it. -/
def unescape? : List Char → Option (Char × List Char)
  | '\\' :: 'n' :: rest => some ('\n', rest)
  | '\\' :: 'r' :: rest => some ('\r', rest)
  | '\\' :: 't' :: rest => some ('\t', rest)
  | '\\' :: 'b' :: rest => some ('\x08', rest)
  | '\\' :: 'f' :: rest => some ('\x0c', rest)
  | '\\' :: 'u' :: '0' :: '0' :: a :: b :: rest =>
    some (Char.ofNat (16 * hexValue a + hexValue b), rest)
  | '\\' :: c :: rest => some (c, rest)
  | '"' :: _ => none
  | c :: rest => some (c, rest)
  | [] => none

theorem unescape?_escapeChar (c : Char) (rest : List Char) :
    unescape? (escapeChar c ++ rest) = some (c, rest) := by
  unfold escapeChar
  split
  · subst_vars; rfl
  split
  · subst_vars; rfl
  split
  · subst_vars; rfl
  split
  · subst_vars; rfl
  split
  · subst_vars; rfl
  split
  · subst_vars; rfl
  split
  · subst_vars; rfl
  split
  · rename_i hcontrol
    have hhigh := hexValue_hexDigit (c.toNat / 16) (by omega)
    have hlow := hexValue_hexDigit (c.toNat % 16) (by omega)
    have hsum : 16 * (c.toNat / 16) + c.toNat % 16 = c.toNat := by omega
    simp only [List.cons_append, List.nil_append, unescape?, hhigh, hlow, hsum, Char.ofNat_toNat]
  · rename_i hquote hbackslash _ _ _ _ _ _
    simp only [List.cons_append, List.nil_append]
    unfold unescape?
    split <;> simp_all

/-- A closing quote tells where a string ends. -/
theorem escaped_append_inj {s t r u : List Char}
    (h : s.flatMap escapeChar ++ '"' :: r = t.flatMap escapeChar ++ '"' :: u) : s = t ∧ r = u := by
  induction s generalizing t with
  | nil =>
    cases t with
    | nil => exact ⟨rfl, (List.cons.inj h).2⟩
    | cons d rest =>
      have hnext := congrArg unescape? h
      rw [List.flatMap_cons, List.append_assoc, unescape?_escapeChar] at hnext
      cases hnext
  | cons c rest ih =>
    have hnext := congrArg unescape? h
    rw [List.flatMap_cons, List.append_assoc, unescape?_escapeChar] at hnext
    cases t with
    | nil => cases hnext
    | cons d rest' =>
      rw [List.flatMap_cons, List.append_assoc, unescape?_escapeChar] at hnext
      rcases Prod.mk.inj (Option.some.inj hnext) with ⟨hchar, hrest⟩
      rcases ih hrest with ⟨htail, hbehind⟩
      exact ⟨by rw [hchar, htail], hbehind⟩

/-- A quoted string tells the string and what stands behind it. -/
theorem quoted_append_inj {s t : String} {r u : List Char}
    (h : quoted s ++ r = quoted t ++ u) : s = t ∧ r = u := by
  unfold quoted at h
  simp only [List.cons_append, List.append_assoc, List.nil_append, List.cons.injEq, true_and] at h
  rcases escaped_append_inj h with ⟨hchars, hrest⟩
  exact ⟨String.toList_inj.1 hchars, hrest⟩

/-! ## Numbers -/

/-- Can the character stand in a number? -/
def isNumberChar (c : Char) : Bool := c.isDigit || c = '-' || c = '+' || c = '.' || c = 'e'

/-- What comes does not go on with a number. -/
def Stops (rest : List Char) : Prop := ∀ c ∈ rest.head?, isNumberChar c = false

theorem Digits.isNumberChar {l : List Char} (h : Digits l) : ∀ c ∈ l, isNumberChar c = true := by
  intro c hc
  simp [Json.isNumberChar, h c hc]

/-- The text of an integer is made of digits, behind a minus sign perhaps. -/
theorem intText_toList (n : Int) :
    ∃ negative, (toString n).toList = signChars negative ++ Nat.toDigits 10 n.natAbs := by
  cases n with
  | ofNat n => exact ⟨false, by simp [signChars, toString, Int.repr]⟩
  | negSucc n =>
    refine ⟨true, ?_⟩
    simp only [toString, Int.repr, String.toList_append, Nat.toList_repr, signChars, if_true,
      Int.natAbs_negSucc]
    rfl

theorem isNumberChar_signChars (negative : Bool) :
    ∀ c ∈ signChars negative, isNumberChar c = true := by
  cases negative
  · simp [signChars]
  · simp [signChars, isNumberChar]

theorem isNumberChar_intText (n : Int) : ∀ c ∈ (toString n).toList, isNumberChar c = true := by
  rcases intText_toList n with ⟨negative, htext⟩
  intro c hc
  rw [htext] at hc
  rcases List.mem_append.1 hc with hc | hc
  · exact isNumberChar_signChars negative c hc
  · exact (digits_toDigits _).isNumberChar c hc

theorem isNumberChar_magnitude {m : Magnitude} (hm : m.Valid) :
    ∀ c ∈ m.chars, isNumberChar c = true := by
  intro c hc
  rcases List.mem_append.1 hc with hc | hc
  · exact hm.1.isNumberChar c hc
  · rcases List.mem_append.1 hc with hc | hc
    · have hfraction := hm.2.isNumberChar
      cases hparts : m.fraction with
      | nil =>
        rw [hparts] at hc
        cases hc
      | cons d rest =>
        rw [hparts] at hc hfraction
        rcases List.mem_cons.1 hc with rfl | hc
        · rfl
        · exact hfraction c hc
    · cases hparts : m.exponent with
      | none =>
        rw [hparts] at hc
        cases hc
      | some e =>
        rw [hparts] at hc
        rcases List.mem_cons.1 hc with rfl | hc
        · rfl
        · rcases List.mem_cons.1 hc with rfl | hc
          · split <;> rfl
          · exact (digits_toDigits _).isNumberChar c hc

theorem isNumberChar_numberText (x : Binary64) :
    ∀ c ∈ (numberLayout.text x).toList, isNumberChar c = true := by
  intro c hc
  rw [numberText_toList] at hc
  rcases List.mem_append.1 hc with hc | hc
  · exact isNumberChar_signChars _ c hc
  · exact isNumberChar_magnitude (valid_magnitudeOf (digits_toDigits _) _) c hc

/-- A floating-point number has a point or an exponent. -/
theorem point_or_exponent_mem (x : Binary64) :
    '.' ∈ (numberLayout.text x).toList ∨ 'e' ∈ (numberLayout.text x).toList := by
  rw [numberText_toList]
  have hpoint : ∀ m : Magnitude, m.fraction ≠ [] → '.' ∈ m.chars := by
    intro m hm
    rcases List.exists_cons_of_ne_nil hm with ⟨d, rest, hparts⟩
    simp [Magnitude.chars, hparts, Magnitude.pointChars]
  have hne : shortestDigits x ≠ [] := Nat.toDigits_ne_nil
  unfold magnitudeOf
  split
  · refine .inl (List.mem_append_right _ (hpoint _ ?_))
    split
    · simp [hne]
    · split
      · simp
      · rename_i hlong
        simp only [ne_eq, List.drop_eq_nil_iff]
        exact hlong
  · exact .inr (List.mem_append_right _ (by simp [Magnitude.chars, Magnitude.exponentChars]))

/-- No integer is written like a floating-point number. -/
theorem intText_ne_numberText (n : Int) (x : Binary64) :
    (toString n).toList ≠ (numberLayout.text x).toList := by
  intro h
  rcases intText_toList n with ⟨negative, htext⟩
  have hdigits := digits_toDigits n.natAbs
  rcases point_or_exponent_mem x with hmem | hmem
  all_goals
    rw [← h, htext] at hmem
    rcases List.mem_append.1 hmem with hsign | hdigit
    · cases negative <;> simp [signChars] at hsign
    · cases hdigits _ hdigit

/-! ## Values -/

/-- The kinds of values that are told by their first characters. -/
inductive Shape where
  | null
  | true
  | false
  | number
  | str
  | arr
  | obj
  | other
deriving DecidableEq

/-- The kind of a value. -/
def shape : Json → Shape
  | null => .null
  | bool true => .true
  | bool false => .false
  | int _ => .number
  | float _ => .number
  | str _ => .str
  | arr _ => .arr
  | obj _ => .obj

/-- The kind of the values that start with a character. -/
def shapeOf (c : Char) : Shape :=
  if isNumberChar c then .number
  else if c = 'n' then .null
  else if c = 't' then .true
  else if c = 'f' then .false
  else if c = '"' then .str
  else if c = '[' then .arr
  else if c = '\x7b' then .obj
  else .other

theorem shapeOf_of_isNumberChar {c : Char} (h : isNumberChar c = true) : shapeOf c = .number := by
  unfold shapeOf
  rw [if_pos h]

theorem head_shape_of_number {l : List Char} (hne : l ≠ [])
    (h : ∀ c ∈ l, isNumberChar c = true) : ∃ c rest, l = c :: rest ∧ shapeOf c = .number := by
  rcases List.exists_cons_of_ne_nil hne with ⟨c, rest, rfl⟩
  exact ⟨c, rest, rfl, shapeOf_of_isNumberChar (h c List.mem_cons_self)⟩

/-- The first character of a value tells its kind. -/
theorem chars_head (json : Json) : ∃ c rest, json.chars = c :: rest ∧ shapeOf c = json.shape := by
  match json with
  | null => exact ⟨'n', _, rfl, by decide⟩
  | bool true => exact ⟨'t', _, rfl, by decide⟩
  | bool false => exact ⟨'f', _, rfl, by decide⟩
  | int n =>
    apply head_shape_of_number _ (isNumberChar_intText n)
    rcases intText_toList n with ⟨negative, htext⟩
    rw [htext]
    simp [Nat.toDigits_ne_nil]
  | float x =>
    apply head_shape_of_number _ (isNumberChar_numberText x)
    obtain ⟨c, rest, hmagnitude, -⟩ :=
      magnitudeOf_head (digits_toDigits x.shortest.digits) Nat.toDigits_ne_nil (shortestScale x)
    rw [numberText_toList]
    simp only [shortestDigits, hmagnitude]
    simp
  | str _ => exact ⟨'"', _, rfl, (by decide : shapeOf '"' = .str)⟩
  | arr _ => exact ⟨'[', _, by rw [chars], (by decide : shapeOf '[' = .arr)⟩
  | obj _ => exact ⟨'\x7b', _, by rw [chars], (by decide : shapeOf '\x7b' = .obj)⟩

theorem shape_eq_of_append {a b : Json} {r s : List Char} (h : a.chars ++ r = b.chars ++ s) :
    a.shape = b.shape := by
  rcases chars_head a with ⟨c, restc, heqc, hc⟩
  rcases chars_head b with ⟨d, restd, heqd, hd⟩
  rw [heqc, heqd] at h
  rw [← hc, ← hd, (List.cons.inj h).1]

/-- No value starts with a closing bracket. -/
theorem chars_append_ne_close (json : Json) (r s : List Char) : json.chars ++ r ≠ ']' :: s := by
  intro h
  rcases chars_head json with ⟨c, rest, heq, hc⟩
  rw [heq] at h
  obtain rfl : c = ']' := (List.cons.inj h).1
  have hother : json.shape = .other := hc.symm.trans (by decide)
  cases json with
  | bool value => cases value <;> cases hother
  | _ => cases hother

/-- The items behind one, up to the closing bracket. -/
def moreItems : List Json → List Char
  | [] => [']']
  | item :: rest => ',' :: itemChars (item :: rest)

theorem itemChars_cons (item : Json) (rest : List Json) :
    itemChars (item :: rest) = item.chars ++ moreItems rest := by
  cases rest with
  | nil => simp [itemChars, moreItems]
  | cons next rest => simp [itemChars, moreItems]

/-- The members behind one, up to the closing brace. -/
def moreMembers : List (String × Json) → List Char
  | [] => ['\x7d']
  | member :: rest => ',' :: memberChars (member :: rest)

theorem memberChars_cons (key : String) (value : Json) (rest : List (String × Json)) :
    memberChars ((key, value) :: rest) =
      quoted key ++ ':' :: (value.chars ++ moreMembers rest) := by
  cases rest with
  | nil => simp [memberChars, moreMembers]
  | cons next rest => simp [memberChars, moreMembers]

theorem stops_cons {c : Char} (h : isNumberChar c = false) (rest : List Char) :
    Stops (c :: rest) := by
  intro d hd
  obtain rfl : c = d := by simpa using hd
  exact h

theorem stops_moreItems (items : List Json) (rest : List Char) : Stops (moreItems items ++ rest) := by
  cases items <;> exact stops_cons (by decide) _

theorem stops_moreMembers (members : List (String × Json)) (rest : List Char) :
    Stops (moreMembers members ++ rest) := by
  cases members <;> exact stops_cons (by decide) _

mutual

/-- The text of a value tells the value and what stands behind it. -/
theorem chars_append_inj : ∀ (a b : Json) {r s : List Char}, Stops r → Stops s →
    a.chars ++ r = b.chars ++ s → a = b ∧ r = s
  | null, b, r, s, _, _, h => by
    -- in every case the shapes leave only values of the same kind
    have hshape := shape_eq_of_append h
    cases b with
    | null => exact ⟨rfl, List.append_cancel_left h⟩
    | bool value => cases value <;> cases hshape
    | _ => cases hshape
  | bool value, b, r, s, _, _, h => by
    have hshape := shape_eq_of_append h
    cases b with
    | bool other =>
      cases value <;> cases other
      · exact ⟨rfl, List.append_cancel_left h⟩
      · cases hshape
      · cases hshape
      · exact ⟨rfl, List.append_cancel_left h⟩
    | _ => cases value <;> cases hshape
  | int n, b, r, s, hr, hs, h => by
    have hshape := shape_eq_of_append h
    cases b with
    | int m =>
      rcases append_inj_of_run (isNumberChar_intText n) (isNumberChar_intText m) hr hs h with
        ⟨htext, hrest⟩
      exact ⟨by rw [Int.repr_injective (String.toList_inj.1 htext)], hrest⟩
    | float y =>
      -- the two kinds of numbers differ by the point or the exponent
      rcases append_inj_of_run (isNumberChar_intText n) (isNumberChar_numberText y) hr hs h with
        ⟨htext, -⟩
      exact absurd htext (intText_ne_numberText n y)
    | bool value => cases value <;> cases hshape
    | _ => cases hshape
  | float x, b, r, s, hr, hs, h => by
    have hshape := shape_eq_of_append h
    cases b with
    | int m =>
      rcases append_inj_of_run (isNumberChar_numberText x) (isNumberChar_intText m) hr hs h with
        ⟨htext, -⟩
      exact absurd htext.symm (intText_ne_numberText m x)
    | float y =>
      rcases append_inj_of_run (isNumberChar_numberText x) (isNumberChar_numberText y) hr hs h with
        ⟨htext, hrest⟩
      exact ⟨by rw [numberText_injective (String.toList_inj.1 htext)], hrest⟩
    | bool value => cases value <;> cases hshape
    | _ => cases hshape
  | str value, b, r, s, _, _, h => by
    have hshape := shape_eq_of_append h
    cases b with
    | str other =>
      rcases quoted_append_inj h with ⟨htext, hrest⟩
      exact ⟨by rw [htext], hrest⟩
    | bool value => cases value <;> cases hshape
    | _ => cases hshape
  | arr items, b, r, s, _, _, h => by
    have hshape := shape_eq_of_append h
    cases b with
    | arr others =>
      have hitems : itemChars items ++ r = itemChars others ++ s := by simpa [chars] using h
      rcases itemChars_append_inj items others hitems with ⟨heq, hrest⟩
      exact ⟨by rw [heq], hrest⟩
    | bool value => cases value <;> cases hshape
    | _ => cases hshape
  | obj members, b, r, s, _, _, h => by
    have hshape := shape_eq_of_append h
    cases b with
    | obj others =>
      have hmembers : memberChars members ++ r = memberChars others ++ s := by
        simpa [chars] using h
      rcases memberChars_append_inj members others hmembers with ⟨heq, hrest⟩
      exact ⟨by rw [heq], hrest⟩
    | bool value => cases value <;> cases hshape
    | _ => cases hshape

/-- A closing bracket tells where the items end. -/
theorem itemChars_append_inj : ∀ (items others : List Json) {r s : List Char},
    itemChars items ++ r = itemChars others ++ s → items = others ∧ r = s
  | [], [], _, _, h => ⟨rfl, by simpa [itemChars] using h⟩
  | [], b :: rest', r, s, h => by
    rw [itemChars_cons, List.append_assoc] at h
    exact absurd h.symm (chars_append_ne_close b _ _)
  | a :: rest, [], r, s, h => by
    rw [itemChars_cons, List.append_assoc] at h
    exact absurd h (chars_append_ne_close a _ _)
  | a :: rest, b :: rest', r, s, h => by
    rw [itemChars_cons, itemChars_cons, List.append_assoc, List.append_assoc] at h
    rcases chars_append_inj a b (stops_moreItems rest r) (stops_moreItems rest' s) h with
      ⟨hitem, hmore⟩
    cases rest with
    | nil => cases rest' with
      | nil => exact ⟨by rw [hitem], by simpa [moreItems] using hmore⟩
      | cons next others => simp [moreItems] at hmore
    | cons next items => cases rest' with
      | nil => simp [moreItems] at hmore
      | cons next' others =>
        have htail : itemChars (next :: items) ++ r = itemChars (next' :: others) ++ s := by
          simpa [moreItems] using hmore
        rcases itemChars_append_inj (next :: items) (next' :: others) htail with ⟨heq, hrest⟩
        exact ⟨by rw [hitem, heq], hrest⟩

/-- A closing brace tells where the members end. -/
theorem memberChars_append_inj : ∀ (members others : List (String × Json)) {r s : List Char},
    memberChars members ++ r = memberChars others ++ s → members = others ∧ r = s
  | [], [], _, _, h => ⟨rfl, by simpa [memberChars] using h⟩
  | [], (key', b) :: rest', r, s, h => by
    rw [memberChars_cons] at h
    simp [memberChars, quoted] at h
  | (key, a) :: rest, [], r, s, h => by
    rw [memberChars_cons] at h
    simp [memberChars, quoted] at h
  | (key, a) :: rest, (key', b) :: rest', r, s, h => by
    rw [memberChars_cons, memberChars_cons, List.append_assoc, List.append_assoc] at h
    rcases quoted_append_inj h with ⟨hkey, hvalue⟩
    simp only [List.cons_append, List.append_assoc, List.cons.injEq, true_and] at hvalue
    rcases chars_append_inj a b (stops_moreMembers rest r) (stops_moreMembers rest' s) hvalue with
      ⟨hmember, hmore⟩
    cases rest with
    | nil => cases rest' with
      | nil => exact ⟨by rw [hkey, hmember], by simpa [moreMembers] using hmore⟩
      | cons next others => simp [moreMembers] at hmore
    | cons next members => cases rest' with
      | nil => simp [moreMembers] at hmore
      | cons next' others =>
        have htail : memberChars (next :: members) ++ r = memberChars (next' :: others) ++ s := by
          simpa [moreMembers] using hmore
        rcases memberChars_append_inj (next :: members) (next' :: others) htail with ⟨heq, hrest⟩
        exact ⟨by rw [hkey, hmember, heq], hrest⟩

end

/-- Different values have different texts. -/
theorem text_injective {a b : Json} (h : a.text = b.text) : a = b := by
  have hchars : a.chars = b.chars := by simpa [text] using congrArg String.toList h
  have hstops : Stops [] := fun c hc => by cases hc
  exact (chars_append_inj a b hstops hstops (by rw [hchars])).1

end ObjectRelational.Json
