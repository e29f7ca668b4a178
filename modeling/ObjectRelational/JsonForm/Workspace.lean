import ObjectRelational.JsonForm.Database
import ObjectRelational.JsonForm.Mapping
import ObjectRelational.JsonForm.Model
import ObjectRelational.Source.Workspace

/-!
# The JSON form of workspace documents
-/

namespace ObjectRelational.Source

open Json

/-- The JSON form of a workspace. -/
def Workspace.toJson (w : Workspace) : Json :=
  .obj [("model", w.model.toJson), ("databases", .ofList Database.toJson w.databases),
    ("mappings", .ofList Mapping.toJson w.mappings)]

/-- A workspace; any part of it may be missing. -/
def Workspace.ofJson? : Decoder Workspace :=
  record? ["model", "databases", "mappings"] fun json => do
  return {
    model := ← defaulted? "model" {} Model.Definition.ofJson? json
    databases := ← listOrEmpty? "databases" Database.ofJson? json
    mappings := ← listOrEmpty? "mappings" Mapping.ofJson? json }

end ObjectRelational.Source
