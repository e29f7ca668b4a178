import ObjectRelational.Text.Blank

/-!
# Settings

What can be set for resolving sources and for logging.
-/

namespace ObjectRelational

/-- How sources are resolved. -/
structure ResolutionSettings where
  /-- The schema of a table that is written without one. -/
  defaultSchema : String := "default"
  /-- Are usages kept? -/
  recordUsages : Bool := true
  /-- Are milestoning properties of temporal classes mapped without being asked for? -/
  autoMilestoning : Bool := true
deriving DecidableEq

/-- What is logged. -/
structure LoggingSettings where
  /-- The directive that selects log events. -/
  filter : String := "relmap=info"
deriving DecidableEq

/-- All settings. -/
structure Settings where
  resolution : ResolutionSettings := {}
  logging : LoggingSettings := {}
deriving DecidableEq

/-- The default schema needs a name that is not blank. -/
def Settings.isValid (settings : Settings) : Bool := !isBlank settings.resolution.defaultSchema

end ObjectRelational
