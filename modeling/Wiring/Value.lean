import Wiring.ServiceType

/-!
Service values. A value holds its type and contents of that type. An instance is a value with an
identity: instances of one object are shared, and equal values can be different objects.
-/

namespace Wiring

/-- A value together with its type. -/
structure Value where
  type : ServiceType
  content : type.Contents

namespace Value

/-- The value of a type that a number and a text give. -/
def ofParts (type : ServiceType) (number : Int64) (text : String) : Value :=
  ⟨type, type.carrier.content number text⟩

/-- The number behind the value. -/
def number (value : Value) : Int64 := value.type.carrier.number value.content

/-- The text of the value. -/
def text (value : Value) : String := value.type.carrier.text value.content

/-- The contents, when the value has the expected type. -/
def as? (value : Value) (type : ServiceType) : Option type.Contents :=
  if same : value.type = type then some (same ▸ value.content) else none

theorem as?_isSome_iff {value : Value} {type : ServiceType} :
    (value.as? type).isSome = true ↔ value.type = type := by
  unfold as?
  split <;> simp_all

theorem as?_self (value : Value) : value.as? value.type = some value.content := by
  simp [as?]

end Value

/-- The identity of an object: an instance declared as an entry of an assembly, or the product of
a factory. -/
inductive ObjectId where
  | declared (assembly entry : Nat)
  | made (number : Nat)
deriving DecidableEq, Repr

/-- A shared handle on a value. -/
structure Instance where
  object : ObjectId
  value : Value

namespace Instance

/-- The type of the value. -/
def type (handle : Instance) : ServiceType := handle.value.type

/-- Two handles are on the same object. -/
def same (left right : Instance) : Bool := left.object == right.object

/-- How a handle is shown: the value stays hidden. -/
def shown (handle : Instance) : String := "Instance(" ++ handle.type.name ++ ")"

end Instance

end Wiring
