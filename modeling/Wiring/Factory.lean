import Wiring.Behaviour

/-!
Factories. A factory knows how often it was called and receives the values of its dependencies;
its behaviour may depend on both. It fails with a construction error: an adapter turns the errors
of plain functions into one.
-/

namespace Wiring

/-- A factory with the name under which it is shown. -/
structure Factory where
  name : String
  behaviour : Nat → Dependencies → Behaviour ConstructionError

/-- How a factory is shown. -/
def Factory.shown (factory : Factory) : String := "Factory(" ++ Text.quoted factory.name ++ ")"

/-- An error that a plain function reports: a construction error that it received, or an error of
its own. -/
inductive Raised where
  | construction (error : ConstructionError)
  | other (message : String)

namespace Raised

/-- The message of the error. -/
def message : Raised → String
  | .construction error => error.message
  | .other message => message

/-- A construction error stays as it is, and another error becomes a failure of the owner. -/
def toConstructionError (owner : Key) : Raised → ConstructionError
  | .construction error => error
  | .other message => .failed owner message

/-- Every error becomes a failure of the owner. -/
def toFailure (owner : Key) (raised : Raised) : ConstructionError :=
  .failed owner raised.message

end Raised

namespace Factory

/-- The name of a factory that has none of its own. -/
def anonymous : String := "closure"

/-- A function with typed parameters that may fail. The parameters are fetched first; where one
cannot be fetched the function is not called. -/
def ofFallible (parameters : List ServiceType)
    (function : Nat → List Value → Behaviour Raised) : Factory where
  name := anonymous
  behaviour call dependencies :=
    match dependencies.parameters parameters with
    | .error error => .fail error
    | .ok values =>
      (function call values).catchWith fun raised =>
        .fail (raised.toConstructionError dependencies.owner)

/-- A function with typed parameters that cannot fail: where its body reports an error it panics
with the message. -/
def ofInfallible (parameters : List ServiceType)
    (function : Nat → List Value → Behaviour Raised) : Factory where
  name := anonymous
  behaviour call dependencies :=
    match dependencies.parameters parameters with
    | .error error => .fail error
    | .ok values => (function call values).catchWith fun raised => .panic raised.message

/-- A function that reads the dependencies by itself. -/
def ofReader (function : Nat → Dependencies → Behaviour Raised) : Factory where
  name := anonymous
  behaviour call dependencies :=
    (function call dependencies).catchWith fun raised =>
      .fail (raised.toConstructionError dependencies.owner)

/-- A named function that reads the dependencies by itself and whose errors all count as its own. -/
def ofWrapped (name : String) (function : Nat → Dependencies → Behaviour Raised) : Factory where
  name := name
  behaviour call dependencies :=
    (function call dependencies).catchWith fun raised =>
      .fail (raised.toFailure dependencies.owner)

end Factory

end Wiring
