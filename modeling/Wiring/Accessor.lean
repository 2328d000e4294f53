import Wiring.Factory

/-!
Accessors: the compiled form of an entry. A constant holds its instance. A lazy accessor and a
prototype hold a factory together with the accessors of its dependencies, so an accessor is a
finite tree and following dependencies always ends. The number of an accessor is its identity: two
entries that share an accessor share its values.
-/

namespace Wiring

/-- A factory at work for a key. -/
structure Producer where
  key : Key
  factory : FactoryId
  behaviour : Nat → Dependencies → Behaviour ConstructionError

/-- How a compiled entry produces its value. -/
inductive Accessor where
  | constant (id : AccessorId) (handle : Instance)
  | lazy (id : AccessorId) (producer : Producer) (dependencies : List (Key × Accessor))
  | prototype (id : AccessorId) (producer : Producer) (dependencies : List (Key × Accessor))

namespace Accessor

/-- The identity of an accessor. -/
def id : Accessor → AccessorId
  | .constant id _ => id
  | .lazy id _ _ => id
  | .prototype id _ _ => id

/-- The mode of an accessor. -/
def mode : Accessor → InstantiationMode
  | .constant _ _ => .constant
  | .lazy _ _ _ => .lazy
  | .prototype _ _ _ => .prototype

/-- The dependencies of an accessor under their declared keys; a constant needs none any more. -/
def dependencies : Accessor → List (Key × Accessor)
  | .constant _ _ => []
  | .lazy _ _ dependencies => dependencies
  | .prototype _ _ dependencies => dependencies

/-- Two accessors are one. -/
def same (left right : Accessor) : Bool := left.id == right.id

end Accessor

/-- A compiled entry under the key by which a pool knows it. -/
structure RuntimeEntry where
  key : Key
  description : Option String
  accessor : Accessor

namespace RuntimeEntry

/-- The mode in which the entry comes to its value. -/
def mode (entry : RuntimeEntry) : InstantiationMode := entry.accessor.mode

/-- Two entries take their values from one accessor. -/
def sharesAccessor (left right : RuntimeEntry) : Bool := left.accessor.same right.accessor

/-- What can be seen of the entry when its lazy value has come to the given state. -/
def view (entry : RuntimeEntry) (state : Option LazyState) : EntryView where
  key := entry.key
  description := entry.description
  mode := entry.mode
  state := state

end RuntimeEntry

end Wiring
