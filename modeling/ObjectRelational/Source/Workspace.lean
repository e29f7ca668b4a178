import ObjectRelational.Model.Basic
import ObjectRelational.Source.Database
import ObjectRelational.Source.Mapping

/-!
# Workspace documents

An object model, databases and mapping units in one document.
-/

namespace ObjectRelational.Source

/-- A whole workspace. -/
structure Workspace where
  model : Model.Definition := {}
  databases : List Database := []
  mappings : List Mapping := []

end ObjectRelational.Source
