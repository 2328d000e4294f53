import Wiring.InstantiationMode
import Wiring.Json.Written

/-!
The configuration of an assembly.
-/

namespace Wiring

/-- The name of the root scope, the mode of factories that choose none, and whether a scope may
provide a key that one of its ancestors provides. -/
structure Config where
  name : String := "app"
  defaultMode : InstantiationMode := .lazy
  allowShadowing : Bool := true
deriving DecidableEq, Repr

namespace Config

/-- The configuration with a name and otherwise the defaults. -/
def named (name : String) : Config := { name := name }

/-- The configuration in JSON form. -/
def json (config : Config) : String :=
  Json.object
    [("name", Json.string config.name),
      ("default_mode", Json.string config.defaultMode.name),
      ("allow_shadowing", Json.bool config.allowShadowing)]

end Config

end Wiring
