import Wiring.ConstructionError
import Wiring.InstantiationMode

/-!
Events: what declaring, resolving, building and reading report to whoever listens. An event has a
level, a message and named fields.
-/

namespace Wiring

/-- The value of a field of an event. -/
inductive FieldValue where
  | number (number : Nat)
  | text (text : String)
deriving DecidableEq

/-- How many problems of each kind a resolution found. -/
structure ProblemCounts where
  problems : Nat
  duplicateProviders : Nat
  unresolvedRequirements : Nat
  duplicateExports : Nat
  unresolvedExports : Nat
  dependencyCycles : Nat
  importCycles : Nat
deriving DecidableEq

/-- Something that happened. -/
inductive Event where
  | bundleInstalled (bundle scope : String)
  | buildStarted (assembly : String) (scopes entries bundles : Nat)
  | scopeResolved (scope : String) (entries : Nat)
  | dependencyResolved (key dependency : Key) (provider : EntryId)
  | resolutionFailed (counts : ProblemCounts)
  | entryCompiled (key : Key) (mode : InstantiationMode)
  | poolCompiled (scope : String) (services : Nat)
  | assemblyBuilt (assembly : String)
  | lazyConstructed (key : Key)
  | lazyFailed (key : Key) (error : ConstructionError)
  | tracingInitialized (level : Level) (format : TracingFormat) (scope : String)
  | tracingUnavailable (error : LookupError) (scope : String)
deriving DecidableEq

namespace Event

/-- The level of an event. -/
def level : Event → Level
  | .bundleInstalled _ _ => .debug
  | .buildStarted _ _ _ _ => .debug
  | .scopeResolved _ _ => .debug
  | .dependencyResolved _ _ _ => .trace
  | .resolutionFailed _ => .warn
  | .entryCompiled _ _ => .trace
  | .poolCompiled _ _ => .debug
  | .assemblyBuilt _ => .debug
  | .lazyConstructed _ => .debug
  | .lazyFailed _ _ => .debug
  | .tracingInitialized _ _ _ => .info
  | .tracingUnavailable _ _ => .warn

/-- The message of an event. -/
def message : Event → String
  | .bundleInstalled _ _ => "installed bundle"
  | .buildStarted _ _ _ _ => "building assembly"
  | .scopeResolved _ _ => "resolved scope"
  | .dependencyResolved _ _ _ => "resolved dependency"
  | .resolutionFailed _ => "service resolution failed"
  | .entryCompiled _ _ => "compiled entry"
  | .poolCompiled _ _ => "compiled service pool"
  | .assemblyBuilt _ => "assembly built"
  | .lazyConstructed _ => "lazy service constructed"
  | .lazyFailed _ _ => "lazy service failed, caching error"
  | .tracingInitialized _ _ _ => "TracingBundle initialized"
  | .tracingUnavailable _ _ => "tracing configuration unavailable"

/-- The fields of an event. -/
def fields : Event → List (String × FieldValue)
  | .bundleInstalled bundle scope => [("bundle", .text bundle), ("scope", .text scope)]
  | .buildStarted assembly scopes entries bundles =>
    [("assembly", .text assembly), ("scopes", .number scopes), ("entries", .number entries),
      ("bundles", .number bundles)]
  | .scopeResolved scope entries => [("scope", .text scope), ("entries", .number entries)]
  | .dependencyResolved key dependency provider =>
    [("key", .text key.shown), ("dependency", .text dependency.shown),
      ("provider", .text provider.shown)]
  | .resolutionFailed counts =>
    [("problems", .number counts.problems),
      ("duplicate_providers", .number counts.duplicateProviders),
      ("unresolved_requirements", .number counts.unresolvedRequirements),
      ("duplicate_exports", .number counts.duplicateExports),
      ("unresolved_exports", .number counts.unresolvedExports),
      ("dependency_cycles", .number counts.dependencyCycles),
      ("import_cycles", .number counts.importCycles)]
  | .entryCompiled key mode => [("key", .text key.shown), ("mode", .text mode.name)]
  | .poolCompiled scope services => [("scope", .text scope), ("services", .number services)]
  | .assemblyBuilt assembly => [("assembly", .text assembly)]
  | .lazyConstructed key => [("key", .text key.shown)]
  | .lazyFailed key error => [("key", .text key.shown), ("error", .text error.message)]
  | .tracingInitialized level format scope =>
    [("level", .text level.name), ("format", .text format.title), ("scope", .text scope)]
  | .tracingUnavailable error scope => [("error", .text error.message), ("scope", .text scope)]

end Event

end Wiring
