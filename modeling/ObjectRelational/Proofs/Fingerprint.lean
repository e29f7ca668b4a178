import ObjectRelational.Fingerprint
import ObjectRelational.Proofs.Json.Text

/-!
# What is fingerprinted

A fingerprint tells what it is made from, as long as no two of the messages that are hashed collide.

* `jsonBytes_injective`: the bytes hashed for a value tell the value.
* `partBytes_injective`: the bytes hashed for a list of texts tell the texts, if no text contains the
  zero character. `zero_not_mem_hex`: a fingerprint never does.
* `NoCollision`: no two messages of a list have the same digest. `NoCollision.ofJson_inj` and
  `NoCollision.combine_inj`: then fingerprints tell what they are made from.
-/

namespace ObjectRelational

namespace Fingerprint

/-! ## Texts as bytes -/

theorem utf8_bytes (s : String) :
    s.toUTF8.data.toList = s.toList.flatMap String.utf8EncodeChar := by
  rw [String.toUTF8_eq_toByteArray, ← String.utf8Encode_toList, List.utf8Encode,
    List.data_toByteArray]

theorem utf8_injective {s t : String} (h : s.toUTF8.data.toList = t.toUTF8.data.toList) : s = t := by
  rw [String.toUTF8_eq_toByteArray, String.toUTF8_eq_toByteArray] at h
  exact String.toByteArray_inj.1 (ByteArray.ext (Array.toList_inj.1 h))

/-- Only the zero character has a zero byte. -/
theorem eq_zero_of_zero_mem {c : Char} (h : 0 ∈ String.utf8EncodeChar c) : c = '\x00' := by
  have hbyte : ∀ n : Nat, (0 : UInt8) = UInt8.ofNat n ↔ n % 256 = 0 := by
    intro n
    rw [← UInt8.toNat_inj, UInt8.toNat_ofNat']
    simp [eq_comm]
  have hval : c.val.toNat = 0 := by
    unfold String.utf8EncodeChar at h
    simp only at h
    split at h
    · simp only [List.mem_singleton, hbyte] at h
      omega
    · split at h
      · simp only [List.mem_cons, List.not_mem_nil, or_false, hbyte] at h
        omega
      · split at h
        · simp only [List.mem_cons, List.not_mem_nil, or_false, hbyte] at h
          omega
        · simp only [List.mem_cons, List.not_mem_nil, or_false, hbyte] at h
          omega
  exact Char.ext (UInt32.toNat_inj.1 hval)

theorem zero_not_mem_utf8 {s : String} (h : '\x00' ∉ s.toList) : 0 ∉ s.toUTF8.data.toList := by
  rw [utf8_bytes]
  intro hmem
  rcases List.mem_flatMap.1 hmem with ⟨c, hc, hzero⟩
  exact h (eq_zero_of_zero_mem hzero ▸ hc)

/-! ## What is hashed -/

/-- What is hashed for a value, character by character, which evaluates faster than by way of a text. -/
theorem jsonBytes_eq (json : Json) : jsonBytes json = json.chars.flatMap String.utf8EncodeChar := by
  rw [jsonBytes, utf8_bytes, Json.text, String.toList_ofList]

theorem partBytes_eq (parts : List String) : partBytes parts =
    parts.flatMap fun part => part.toList.flatMap String.utf8EncodeChar ++ [0] := by
  unfold partBytes
  simp only [utf8_bytes]

/-- The bytes hashed for a value tell the value. -/
theorem jsonBytes_injective {a b : Json} (h : jsonBytes a = jsonBytes b) : a = b :=
  Json.text_injective (utf8_injective h)

/-- The bytes hashed for a list of texts tell the texts. -/
theorem partBytes_injective {parts others : List String} (hparts : ∀ s ∈ parts, '\x00' ∉ s.toList)
    (hothers : ∀ s ∈ others, '\x00' ∉ s.toList) (h : partBytes parts = partBytes others) :
    parts = others := by
  induction parts generalizing others with
  | nil =>
    cases others with
    | nil => rfl
    | cons t rest => simp [partBytes] at h
  | cons s rest ih =>
    cases others with
    | nil => simp [partBytes] at h
    | cons t rest' =>
      simp only [partBytes, List.flatMap_cons, List.append_assoc, List.cons_append,
        List.nil_append] at h
      have hs := zero_not_mem_utf8 (hparts s List.mem_cons_self)
      have ht := zero_not_mem_utf8 (hothers t List.mem_cons_self)
      -- each text is a run of bytes that are not zero
      obtain ⟨htext, hrest⟩ := Json.append_inj_of_run (p := fun b : UInt8 => b ≠ 0)
        (fun b hb => decide_eq_true fun hzero => hs (hzero ▸ hb))
        (fun b hb => decide_eq_true fun hzero => ht (hzero ▸ hb)) (by simp) (by simp) h
      have htail := ih (fun u hu => hparts u (List.mem_cons_of_mem _ hu))
        (fun u hu => hothers u (List.mem_cons_of_mem _ hu)) (List.cons.inj hrest).2
      rw [utf8_injective htext, htail]

/-! ## Digests -/

/-- The text is the digest of a message. -/
def IsDigest (s : String) : Prop := ∃ message, s = Sha256.hex message

theorem isDigest_ofJson (value : Json) : IsDigest (ofJson value) := ⟨_, rfl⟩

theorem isDigest_combine (parts : List String) : IsDigest (combine parts) := ⟨_, rfl⟩

/-- A digest in hexadecimal digits does not contain the zero character. -/
theorem zero_not_mem_hex (message : List UInt8) : '\x00' ∉ (Sha256.hex message).toList := by
  unfold Sha256.hex
  simp only [String.toList_ofList, List.mem_flatMap, not_exists, not_and]
  intro word _ hmem
  unfold Sha256.wordChars at hmem
  rcases List.mem_map.1 hmem with ⟨i, -, hdigit⟩
  simp only at hdigit
  have hlt : (word.toNat >>> (4 * (7 - i))) % 16 < 16 := Nat.mod_lt _ (by omega)
  revert hdigit
  generalize (word.toNat >>> (4 * (7 - i))) % 16 = digit at hlt
  revert digit
  decide

theorem IsDigest.zero_not_mem {s : String} (h : IsDigest s) : '\x00' ∉ s.toList := by
  rcases h with ⟨message, rfl⟩
  exact zero_not_mem_hex message

/-! ## Collisions -/

/-- No two of the messages have the same digest. -/
def NoCollision (messages : List (List UInt8)) : Prop :=
  ∀ a ∈ messages, ∀ b ∈ messages, Sha256.hex a = Sha256.hex b → a = b

theorem NoCollision.mono {messages others : List (List UInt8)} (h : NoCollision others)
    (hsubset : messages ⊆ others) : NoCollision messages :=
  fun a ha b hb => h a (hsubset ha) b (hsubset hb)

/-- Among such messages the fingerprint of a value tells the value. -/
theorem NoCollision.ofJson_inj {messages : List (List UInt8)} (h : NoCollision messages)
    {a b : Json} (ha : jsonBytes a ∈ messages) (hb : jsonBytes b ∈ messages)
    (hab : ofJson a = ofJson b) : a = b := jsonBytes_injective (h _ ha _ hb hab)

/-- A fingerprint that is combined from digests tells these. -/
theorem NoCollision.combine_inj {messages : List (List UInt8)} (h : NoCollision messages)
    {parts others : List String} (hparts : partBytes parts ∈ messages)
    (hothers : partBytes others ∈ messages) (hdigests : ∀ s ∈ parts, IsDigest s)
    (hdigests' : ∀ s ∈ others, IsDigest s) (hsame : combine parts = combine others) :
    parts = others :=
  partBytes_injective (fun s hs => (hdigests s hs).zero_not_mem)
    (fun s hs => (hdigests' s hs).zero_not_mem) (h _ hparts _ hothers hsame)

end Fingerprint

end ObjectRelational
