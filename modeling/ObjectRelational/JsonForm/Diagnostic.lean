import ObjectRelational.JsonForm.Types
import ObjectRelational.Workspace.Basic

/-!
# The JSON form of diagnostics
-/

namespace ObjectRelational

open Json

/-- The JSON form of a kind of error. -/
def ErrorKind.toJson : ErrorKind → Json
  | parse => .str "Parse"
  | compilation => .str "Compilation"

/-- A kind of error. -/
def ErrorKind.ofJson? : Decoder ErrorKind := fun json =>
  match variant? json with
  | some ("Parse", none) => some parse
  | some ("Compilation", none) => some compilation
  | _ => none

/-- The JSON form of a diagnostic. -/
def Diagnostic.toJson (d : Diagnostic) : Json :=
  .obj [("kind", d.kind.toJson), ("message", .str d.message), ("span", d.span.toJson)]

/-- The JSON form of a failure of a unit. -/
def UnitFailure.toJson (f : UnitFailure) : Json :=
  .obj [("unit", .str f.unit), ("diagnostic", f.failure.diagnostic.toJson)]

end ObjectRelational
