import Wiring.ConstructionError
import Wiring.Value

/-!
The values that a factory receives. They come in the order in which the dependencies were declared,
each under its declared key, and are read by position, by key or one after the other. A reader
expects a type and is refused when the value has another.
-/

namespace Wiring

/-- The values of the dependencies of one owner. -/
structure Dependencies where
  owner : Key
  values : List (Key × Instance)

/-- One way to read a dependency. -/
inductive Reading where
  /-- The handle at a position, whatever its type. -/
  | handle (index : Nat)
  /-- The value at a position. -/
  | position (index : Nat) (type : ServiceType)
  /-- The first value under a key. -/
  | keyed (key : Key) (type : ServiceType)
  /-- The value after the one that was read last. -/
  | next (type : ServiceType)

namespace Dependencies

/-- The declared keys. -/
def keys (dependencies : Dependencies) : List Key := dependencies.values.map Prod.fst

/-- The handle at a position. -/
def handle (dependencies : Dependencies) (index : Nat) : Except ConstructionError Instance :=
  match dependencies.values[index]? with
  | some (_, handle) => .ok handle
  | none => .error (.missingDependency dependencies.owner index)

/-- The contents of a handle, when it has the expected type. -/
def downcast (dependencies : Dependencies) (handle : Instance) (type : ServiceType) :
    Except ConstructionError type.Contents :=
  match handle.value.as? type with
  | some content => .ok content
  | none => .error (.typeMismatch dependencies.owner type handle.type)

/-- The contents at a position. -/
def get (dependencies : Dependencies) (index : Nat) (type : ServiceType) :
    Except ConstructionError type.Contents :=
  match dependencies.handle index with
  | .ok handle => dependencies.downcast handle type
  | .error error => .error error

/-- The contents under a key. A key that was not declared counts as the position after the last. -/
def getKeyed (dependencies : Dependencies) (key : Key) (type : ServiceType) :
    Except ConstructionError type.Contents :=
  match dependencies.values.find? fun pair => pair.1 == key with
  | some (_, handle) => dependencies.downcast handle type
  | none => .error (.missingDependency dependencies.owner dependencies.values.length)

/-- A reading gives a value, and the cursor moves on after each reading of the next value, also
after one that failed. -/
def read (dependencies : Dependencies) (cursor : Nat) :
    Reading → Except ConstructionError Value × Nat
  | .handle index => ((dependencies.handle index).map Instance.value, cursor)
  | .position index type => ((dependencies.get index type).map (Value.mk type), cursor)
  | .keyed key type => ((dependencies.getKeyed key type).map (Value.mk type), cursor)
  | .next type => ((dependencies.get cursor type).map (Value.mk type), cursor + 1)

/-- All readings with one cursor, each with its own answer. -/
def readEach (dependencies : Dependencies) (cursor : Nat) :
    List Reading → List (Except ConstructionError Value)
  | [] => []
  | reading :: rest =>
    match dependencies.read cursor reading with
    | (answer, moved) => answer :: dependencies.readEach moved rest

/-- The values of the answers, or the first error among them. -/
def firstFailure : List (Except ConstructionError Value) → Except ConstructionError (List Value)
  | [] => .ok []
  | .error error :: _ => .error error
  | .ok value :: rest =>
    match firstFailure rest with
    | .ok values => .ok (value :: values)
    | .error error => .error error

/-- All readings with one cursor, up to the first that fails. -/
def readAll (dependencies : Dependencies) (readings : List Reading) :
    Except ConstructionError (List Value) :=
  firstFailure (dependencies.readEach 0 readings)

/-- The parameters of a closure: one value of each type, in order. -/
def parameters (dependencies : Dependencies) (types : List ServiceType) :
    Except ConstructionError (List Value) :=
  dependencies.readAll (types.map .next)

end Dependencies

end Wiring
