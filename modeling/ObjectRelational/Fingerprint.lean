import ObjectRelational.Json.Printer
import ObjectRelational.Sha256

/-!
# Fingerprints

A source is recognised by the digest of its JSON text, and a list of fingerprints by the digest of
all of them, each ended by a zero byte. What is hashed is named apart from the hash, so that the
absence of collisions can be said of it.
-/

namespace ObjectRelational.Fingerprint

/-- The bytes hashed for a value: its compact JSON text. -/
def jsonBytes (json : Json) : List UInt8 := json.text.toUTF8.data.toList

/-- The bytes hashed for a list of texts: each text is ended by a zero byte. -/
def partBytes (parts : List String) : List UInt8 :=
  parts.flatMap fun part => part.toUTF8.data.toList ++ [0]

/-- The fingerprint of a value, from its JSON form. -/
def ofJson (json : Json) : String := Sha256.hex (jsonBytes json)

/-- The fingerprint of several fingerprints in their order. -/
def combine (parts : List String) : String := Sha256.hex (partBytes parts)

end ObjectRelational.Fingerprint
