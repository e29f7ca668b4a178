import ObjectRelational.Main
import ObjectRelational.Proofs.Fingerprint
import ObjectRelational.Proofs.Json.Text
import ObjectRelational.Proofs.JsonForm.Faithful
import ObjectRelational.Proofs.Mapping.Faults
import ObjectRelational.Proofs.Number.Shortest
import ObjectRelational.Proofs.Workspace.Derivation
import ObjectRelational.Proofs.Workspace.Failure
import ObjectRelational.Proofs.Workspace.History
import ObjectRelational.Proofs.Workspace.Locality
import ObjectRelational.Proofs.Workspace.Retention
import ObjectRelational.Report.Unit
import ObjectRelational.Proofs.Substitution
import ObjectRelational.Proofs.Mapping.Databases
import ObjectRelational.Proofs.Mapping.Flattening
import ObjectRelational.Proofs.Lookup
import ObjectRelational.Proofs.Mapping.Class
import ObjectRelational.Proofs.Mapping.Unit
import ObjectRelational.Proofs.Mapping.View
import ObjectRelational.Proofs.Workspace.View
import ObjectRelational.Proofs.Store.Path
import ObjectRelational.Proofs.Mapping.Association
import ObjectRelational.Proofs.Mapping.Typing
import ObjectRelational.Proofs.Workspace.States
import ObjectRelational.Proofs.Mapping.JoinEnds
import ObjectRelational.Proofs.Mapping.Binding
import ObjectRelational.Proofs.Mapping.Roots
import ObjectRelational.Proofs.Store.Bounds
import ObjectRelational.Proofs.Store.Resolution
import ObjectRelational.Proofs.Store.Build
import ObjectRelational.Proofs.Mapping.Bounds
import ObjectRelational.Proofs.Mapping.UnitBounds
import ObjectRelational.Proofs.Workspace.Bounds
import ObjectRelational.Proofs.Workspace.CurrentStore
import ObjectRelational.Proofs.Mapping.ExtensionOrder
import ObjectRelational.Proofs.Mapping.Dependence
import ObjectRelational.Proofs.Mapping.Solution
import ObjectRelational.Proofs.Mapping.Extension
import ObjectRelational.Proofs.Mapping.DeclarationOrder
import ObjectRelational.Proofs.Store.Renumbering
import ObjectRelational.Proofs.Store.Correspondence
import ObjectRelational.Proofs.Store.Simulation
import ObjectRelational.Proofs.Store.ViewSimulation
import ObjectRelational.Proofs.Store.Reordering
import ObjectRelational.Proofs.Store.Phases.Databases
import ObjectRelational.Proofs.Store.Phases.Schemas
import ObjectRelational.Proofs.Store.Phases.Dependence
import ObjectRelational.Proofs.Store.Phases.Joins
import ObjectRelational.Proofs.Store.Phases.Views
import ObjectRelational.Proofs.Store.DatabaseOrder
import ObjectRelational.Proofs.Store.JoinsOverViews
import ObjectRelational.Proofs.OrderedMap
import ObjectRelational.Proofs.ByteOrder
import ObjectRelational.Proofs.Mapping.Ids
import ObjectRelational.Proofs.Mapping.RootTable
import ObjectRelational.Proofs.Workspace.Lookups
import ObjectRelational.Proofs.Store.Visibility
import ObjectRelational.Proofs.Mapping.Widening
import ObjectRelational.Proofs.Workspace.Visibility
import ObjectRelational.Proofs.Workspace.Extension
import ObjectRelational.Proofs.Mapping.Addressing
import ObjectRelational.Proofs.Store.Registration
import ObjectRelational.Proofs.Store.Conditions
import ObjectRelational.Proofs.Store.Representation
import ObjectRelational.Proofs.Store.UniqueNames
import ObjectRelational.Proofs.Workspace.Loading
import ObjectRelational.Proofs.Mapping.CompileOrder
import ObjectRelational.Proofs.JsonForm.RoundTrip
import ObjectRelational.Proofs.Workspace.UsageErasure
import ObjectRelational.Proofs.Store.Usages
import ObjectRelational.Proofs.Mapping.Usages
import ObjectRelational.Proofs.Graph.CyclePath
import ObjectRelational.Proofs.Mapping.SoundIncludes
import ObjectRelational.Proofs.Mapping.AmbiguousPaths
import ObjectRelational.Proofs.Mapping.ReferencedDatabases
import ObjectRelational.Proofs.Graph.Distance
import ObjectRelational.Proofs.Graph.SearchLoop
import ObjectRelational.Proofs.Store.NearestFirst
import ObjectRelational.Proofs.Store.InferredRoots
import ObjectRelational.Proofs.Store.Threading
import ObjectRelational.Proofs.Store.PathEnds
import ObjectRelational.Proofs.Store.Origins
import ObjectRelational.Proofs.Store.AliasNames
import ObjectRelational.Proofs.Mapping.InferredMainTable
import ObjectRelational.Proofs.Mapping.Enumeration
import ObjectRelational.Proofs.Model.PropertyOwners
import ObjectRelational.Proofs.Store.Milestoning.Reading
import ObjectRelational.Proofs.Store.ViewExpansion
import ObjectRelational.Proofs.Mapping.Aggregation
import ObjectRelational.Proofs.Mapping.ExtensionWalk
import ObjectRelational.Proofs.Mapping.SoundSubstitutions
import ObjectRelational.Proofs.Model.Inheritance
import ObjectRelational.Proofs.Mapping.SubstitutionAction
