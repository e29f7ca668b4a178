import Mathlib.Tactic.SplitIfs
import ObjectRelational.OrderedMap
import ObjectRelational.Proofs.Fingerprint

/-!
# The order of texts

Keys that are texts ascend in the order of their characters. It is the order of the bytes that the texts
are encoded in, because an encoding starts with its length and goes on with digits, the highest first.

* `lt_iff_utf8_lt`, `le_iff_utf8_le`: texts are ordered as their bytes are.
-/

namespace ObjectRelational

open Fingerprint

/-- The bytes of a lower character come first, whatever follows them. -/
theorem utf8_char_lt {c d : Char} (h : c < d) (rest rest' : List UInt8) :
    String.utf8EncodeChar c ++ rest < String.utf8EncodeChar d ++ rest' := by
  have hval : c.val.toNat < d.val.toNat := UInt32.lt_iff_toNat_lt.1 (Char.lt_def.1 h)
  have hmax : d.val.toNat < 0x110000 := by
    have := d.valid
    unfold UInt32.isValidChar Nat.isValidChar at this
    omega
  unfold String.utf8EncodeChar
  dsimp only
  -- one case for every two lengths
  split_ifs <;>
    simp (disch := omega) only [List.cons_append, List.nil_append, List.cons_lt_cons_iff,
      UInt8.lt_iff_toNat_lt, ← UInt8.toNat_inj, UInt8.toNat_ofNat', Nat.mod_eq_of_lt] <;> omega

theorem utf8_lt_of_lt {l l' : List Char} (h : l < l') :
    l.flatMap String.utf8EncodeChar < l'.flatMap String.utf8EncodeChar := by
  induction h with
  | @nil c rest =>
    obtain ⟨byte, bytes, hbytes⟩ :=
      List.exists_cons_of_ne_nil (String.utf8EncodeChar_ne_nil (c := c))
    simp [hbytes]
  | rel hlt => exact utf8_char_lt hlt _ _
  | cons _ ih => exact List.append_left_lt ih

/-- Texts are ordered as their bytes are. -/
theorem lt_iff_utf8_lt {s t : String} : s < t ↔ s.toUTF8.data.toList < t.toUTF8.data.toList := by
  have hlt : ∀ {s t : String}, s < t → s.toUTF8.data.toList < t.toUTF8.data.toList := fun h => by
    rw [utf8_bytes, utf8_bytes]
    exact utf8_lt_of_lt (String.lt_iff.1 h)
  refine ⟨hlt, fun h => ?_⟩
  by_contra hnot
  by_cases hgt : t < s
  · exact List.lt_asymm (hlt hgt) h
  · rw [KeyOrder.connected s t hnot hgt] at h
    exact List.lt_irrefl _ h

theorem le_iff_utf8_le {s t : String} : s ≤ t ↔ s.toUTF8.data.toList ≤ t.toUTF8.data.toList :=
  not_congr lt_iff_utf8_lt

end ObjectRelational
