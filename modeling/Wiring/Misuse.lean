import Wiring.Key
import Wiring.Identity
import Wiring.InstantiationMode

/-!
Misuse: the mistakes in a declaration that are refused at once. The refusal is a panic with a
message, and the assembly stays as it was.
-/

namespace Wiring

/-- A declaration that cannot be right, or a panic of the caller's own. -/
inductive Misuse where
  | unknownScope (scope : ScopeId) (assembly : String)
  | scopeTaken (name : String)
  | wrongKeyType (provided : ServiceType) (key : Key)
  | rebindAcrossTypes (source target : Key)
  | exportAcrossTypes (key exportAs : Key)
  | instanceMode (key : Key) (mode : InstantiationMode)
  | raised (message : String)
deriving DecidableEq

/-- The message of the panic. -/
def Misuse.message : Misuse → String
  | .unknownScope scope assembly =>
    "Scope " ++ scope.shown ++ " does not belong to assembly '" ++ assembly ++
      "'. Use the ids returned by add_scope() or link()."
  | .scopeTaken name =>
    "Scope '" ++ name ++ "' already exists. Give sibling scopes distinct names."
  | .wrongKeyType provided key =>
    "cannot provide " ++ provided.name ++ " under key " ++ key.shown ++
      ": the key names a different type"
  | .rebindAcrossTypes source target =>
    "cannot rebind " ++ source.shown ++ " to " ++ target.shown ++ ": the value types differ"
  | .exportAcrossTypes key exportAs =>
    "cannot export " ++ key.shown ++ " as " ++ exportAs.shown ++ ": the value types differ"
  | .instanceMode key mode =>
    "Provider for " ++ key.shown ++ " is an instance and is always constant; it cannot be " ++
      mode.name ++ "."
  | .raised message => message

end Wiring
