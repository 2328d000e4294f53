import Wiring.Event
import Wiring.Query
import Wiring.Attempt

/-!
The memory of all applications: what each lazy value has come to, when each factory was at work,
how many accessors and objects were made, and what was noted and reported on the way.
-/

namespace Wiring

/-- What a lazy accessor keeps: the outcome of its invocation once there is one, the state that it
shows, and whether the invoker is still there or was taken. The three are written at different
moments of a reading. -/
structure LazyCell where
  outcome : Option (Except ConstructionError Instance)
  state : LazyState
  invoker : Bool

namespace LazyCell

/-- A cell that nobody has asked for its value. -/
def new : LazyCell where
  outcome := none
  state := .uninitialized
  invoker := true

/-- The invoker is taken. -/
def take (cell : LazyCell) : LazyCell := { cell with invoker := false }

/-- The cell shows another state. -/
def mark (cell : LazyCell) (state : LazyState) : LazyCell := { cell with state := state }

/-- The outcome that is kept when one is offered: the first one stays. -/
def kept (cell : LazyCell) (offered : Except ConstructionError Instance) :
    Except ConstructionError Instance :=
  cell.outcome.getD offered

/-- An outcome is offered; the state goes by what was offered. -/
def store (cell : LazyCell) (offered : Except ConstructionError Instance) : LazyCell :=
  let state :=
    match offered with
    | .ok _ => LazyState.ready
    | .error _ => LazyState.failed
  { cell with outcome := some (cell.kept offered) }.mark state

end LazyCell

/-- A moment in the work of a factory. -/
inductive Moment where
  /-- The values of its dependencies are about to be read. -/
  | begun (factory : FactoryId)
  /-- The factory itself is called, and the values of its dependencies are handed to it. -/
  | called (factory : FactoryId) (handed : List (Key × Instance))
  /-- The work is over, whatever came of it. -/
  | ended (factory : FactoryId)

/-- The factory is called in this moment. -/
def Moment.isCallOf (factory : FactoryId) : Moment → Bool
  | .called other _ => other == factory
  | .begun _ => false
  | .ended _ => false

/-- A note of a factory or of a bundle that finishes. -/
inductive Note where
  | factory (note : FactoryNote)
  | finishing (label pool : String)
  | finished (answer : Answer)

/-- What the applications remember together. The patience is how much deeper than usual the questions
of factories may go. -/
structure Memory where
  lazies : AccessorId → LazyCell
  history : List Moment
  accessors : Nat
  objects : Nat
  notes : List Note
  events : List Event
  patience : Nat

namespace Memory

/-- The memory before anything was built. -/
def empty : Memory where
  lazies := fun _ => .new
  history := []
  accessors := 0
  objects := 0
  notes := []
  events := []
  patience := 0

/-- A cell is changed. -/
def update (memory : Memory) (id : AccessorId) (change : LazyCell → LazyCell) : Memory :=
  { memory with
    lazies := fun other => if other = id then change (memory.lazies id) else memory.lazies other }

/-- A moment in the work of a factory comes. -/
def record (memory : Memory) (moment : Moment) : Memory :=
  { memory with history := memory.history ++ [moment] }

/-- The number of times a factory was called. -/
def calls (memory : Memory) (factory : FactoryId) : Nat :=
  memory.history.countP (Moment.isCallOf factory)

/-- A new object is made. -/
def countObject (memory : Memory) : Memory := { memory with objects := memory.objects + 1 }

/-- A new accessor is made. -/
def countAccessor (memory : Memory) : Memory := { memory with accessors := memory.accessors + 1 }

/-- A note is written. -/
def write (memory : Memory) (note : Note) : Memory :=
  { memory with notes := memory.notes ++ [note] }

/-- An event is reported. -/
def report (memory : Memory) (event : Event) : Memory :=
  { memory with events := memory.events ++ [event] }

/-- The notes and the events are handed over, and new ones start. -/
def cleared (memory : Memory) : Memory := { memory with notes := [], events := [] }

/-- How far a lazy accessor has come. -/
def stateOf (memory : Memory) : Accessor → Option LazyState
  | .lazy id _ _ => some (memory.lazies id).state
  | .constant _ _ => none
  | .prototype _ _ _ => none

/-- What can be seen of an entry. -/
def viewOf (memory : Memory) (entry : RuntimeEntry) : EntryView :=
  entry.view (memory.stateOf entry.accessor)

/-- What can be seen of a pool. -/
def viewOfPool (memory : Memory) (pool : Pool) : PoolView where
  name := pool.name
  parent := pool.parentName
  entries := pool.localEntries.map memory.viewOf
  services := pool.services
  described := pool.described

@[simp] theorem update_lazies_self (memory : Memory) (id : AccessorId)
    (change : LazyCell → LazyCell) :
    (memory.update id change).lazies id = change (memory.lazies id) := by
  simp [update]

theorem update_lazies_of_ne (memory : Memory) {id other : AccessorId}
    (change : LazyCell → LazyCell) (different : other ≠ id) :
    (memory.update id change).lazies other = memory.lazies other := by
  simp [update, different]

@[simp] theorem update_history (memory : Memory) (id : AccessorId)
    (change : LazyCell → LazyCell) : (memory.update id change).history = memory.history := rfl

@[simp] theorem record_lazies (memory : Memory) (moment : Moment) :
    (memory.record moment).lazies = memory.lazies := rfl

@[simp] theorem record_history (memory : Memory) (moment : Moment) :
    (memory.record moment).history = memory.history ++ [moment] := rfl

/-- Only the call of a factory adds to the number of its calls. -/
theorem calls_record (memory : Memory) (moment : Moment) (factory : FactoryId) :
    (memory.record moment).calls factory =
      memory.calls factory + if moment.isCallOf factory then 1 else 0 := by
  simp [calls, record, List.countP_append, List.countP_cons]

end Memory

end Wiring
