import ObjectRelational.Mapping.Basic
import ObjectRelational.Model.Basic
import ObjectRelational.Store.Milestoning

/-!
# Milestoning properties

A class that is temporal and is mapped to a table whose rows are versioned gets a property with the
columns of the versions, unless it maps that property itself.
-/

namespace ObjectRelational.Temporal

/-- The name of the property that holds the versions. -/
def propertyName : String := "milestoning"

/-- The class of the versions by business time. -/
def businessClass : String := "meta::pure::milestoning::BusinessDateMilestoning"

/-- The class of the versions by processing time. -/
def processingClass : String := "meta::pure::milestoning::ProcessingDateMilestoning"

/-- The class of the versions by both. -/
def bitemporalClass : String := "meta::pure::milestoning::BiTemporalMilestoning"

/-- A class of versions, and the columns of its properties. -/
structure Versions where
  className : String
  columns : List (String × String)
deriving DecidableEq

/-- The columns of the business time. -/
def businessColumns (b : BusinessMilestoning) : List (String × String) :=
  [("from", b.fromColumn), ("thru", b.thruColumn)]

/-- The columns of the processing time. -/
def processingColumns (p : ProcessingMilestoning) : List (String × String) :=
  [("in", p.inColumn), ("out", p.outColumn)]

/-- The versions that a temporal class takes from a table, if the table has them. -/
def versions? (m : Milestoning) : Model.Temporal → Option Versions
  | .business =>
    match m.business? with
    | some b => some ⟨businessClass, businessColumns b⟩
    | none => m.snapshot?.map fun s => ⟨businessClass, [("snapshotDate", s.snapshotDateColumn)]⟩
  | .processing => m.processing?.map fun p => ⟨processingClass, processingColumns p⟩
  | .bitemporal => do
    let p ← m.processing?
    let b ← m.business?
    return ⟨bitemporalClass, businessColumns b ++ processingColumns p⟩

/-- The mapping of a property to a column of the main table. -/
def columnMapping (sourceId : String) (main : TableAlias) (span : Span) (column : String × String) :
    PropertyMapping :=
  ⟨column.1, sourceId, none, none, .relational (.column ⟨main, column.2⟩) none, span⟩

/-- The mapping of the versions, embedded into the mapping that owns them. -/
def embeddedMapping (owner : String) (main : TableAlias) (span : Span) (v : Versions) :
    PropertyMapping :=
  let id := owner ++ "_" ++ propertyName
  ⟨propertyName, owner, some id, none,
    .embedded id v.className [] (v.columns.map (columnMapping id main span)) none, span⟩

end ObjectRelational.Temporal
