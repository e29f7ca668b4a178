import ObjectRelational.Span

/-!
# Diagnostics

What is reported to an editor or a build: a kind of error, a message and the place it applies to.
-/

namespace ObjectRelational

/-- The broad kinds of errors. -/
inductive ErrorKind where
  /-- The text is malformed. -/
  | parse
  /-- The text is well formed and means nothing. -/
  | compilation
deriving DecidableEq

/-- The kind as it is printed. -/
def ErrorKind.text : ErrorKind → String
  | parse => "ParseError"
  | compilation => "CompilationError"

/-- A diagnostic. -/
structure Diagnostic where
  kind : ErrorKind
  message : String
  span : Span
deriving DecidableEq

namespace Diagnostic

/-- Is the diagnosed text malformed? -/
def isParseError (d : Diagnostic) : Bool := d.kind = .parse

/-- The diagnostic in one line. -/
def text (d : Diagnostic) : String := s!"{d.kind.text} at {d.span.text}: {d.message}"

end Diagnostic

end ObjectRelational
