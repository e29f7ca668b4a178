/-!
# Positions in source text

Where an element was written. Positions are only carried along, so that a diagnostic can point back
at the text.
-/

namespace ObjectRelational

/-- A range in one source; lines and columns count from one, both ends included. -/
structure Span where
  /-- The source that the range lies in. -/
  sourceId : String := ""
  startLine : UInt32 := 0
  startColumn : UInt32 := 0
  endLine : UInt32 := 0
  endColumn : UInt32 := 0
deriving DecidableEq, Inhabited

namespace Span

/-- The text of a range: `source:[line:column-line:column]`. -/
def text (s : Span) : String :=
  s!"{s.sourceId}:[{s.startLine.toNat}:{s.startColumn.toNat}-{s.endLine.toNat}:{s.endColumn.toNat}]"

end Span

/-- A value together with the place where it is written. -/
structure Spanned (α : Type) where
  value : α
  span : Span := {}
deriving DecidableEq

/-- A name as it is written in a source. -/
abbrev Name := Spanned String

end ObjectRelational
