/-!
The three ways in which an entry comes to its value.
-/

namespace Wiring

/-- A constant is made when the assembly is built, a lazy value when it is first asked for, and a
prototype anew each time. -/
inductive InstantiationMode where
  | constant
  | lazy
  | prototype
deriving DecidableEq, Repr

namespace InstantiationMode

/-- The name of a mode. -/
def name : InstantiationMode → String
  | .constant => "constant"
  | .lazy => "lazy"
  | .prototype => "prototype"

/-- The name of a mode as a title. -/
def title : InstantiationMode → String
  | .constant => "Constant"
  | .lazy => "Lazy"
  | .prototype => "Prototype"

/-- All modes, in the order in which messages list them. -/
def all : List InstantiationMode := [.constant, .lazy, .prototype]

/-- The mode with the given name. -/
def ofName? (name : String) : Option InstantiationMode :=
  all.find? fun mode => mode.name == name

end InstantiationMode

end Wiring
