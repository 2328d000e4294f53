import Wiring.Evaluation

/-!
Asking a pool: each question and how it is answered.
-/

namespace Wiring

/-- A question on its way to an answer. A failure to produce a value is an answer like others; a
panic is not. -/
abbrev Asking (α : Type) : Type := Attempt Memory Empty α

/-- The value of an entry, or the error that stands in its way. -/
def RuntimeEntry.getInstance (applications : List Application) (entry : RuntimeEntry) :
    Asking (Except ConstructionError Instance) :=
  (entry.accessor.value applications).outcome

/-- A handle whose value has the expected type, and otherwise a mismatch for the key. -/
def expectType (key : Key) (type : ServiceType) :
    Except ConstructionError Instance → Except ConstructionError Instance
  | .error error => .error error
  | .ok handle =>
    if handle.type = type then .ok handle else .error (.typeMismatch key type handle.type)

/-- The value of an entry, which must have the given type. -/
def RuntimeEntry.get (applications : List Application) (entry : RuntimeEntry)
    (type : ServiceType) : Asking (Except ConstructionError Instance) := do
  let outcome ← entry.getInstance applications
  return expectType entry.key type outcome

namespace Pool

/-- What an entry under a key gives, and an error when there is no entry. -/
def withEntry (pool : Pool) (key : Key)
    (use : RuntimeEntry → Asking (Except ConstructionError Instance)) :
    Asking (Except LookupError Instance) := do
  match pool.find? key with
  | none => return .error (.notFound key)
  | some entry =>
    let outcome ← use entry
    return outcome.mapError LookupError.construction

/-- The value under a key. -/
def getInstance (pool : Pool) (applications : List Application) (key : Key) :
    Asking (Except LookupError Instance) :=
  pool.withEntry key fun entry => entry.getInstance applications

/-- The value under a key, which must have the given type. -/
def getKeyed (pool : Pool) (applications : List Application) (key : Key) (type : ServiceType) :
    Asking (Except LookupError Instance) :=
  pool.withEntry key fun entry => entry.get applications type

end Pool

/-- The answer that a value or an error is. -/
def Answer.ofOutcome : Except LookupError Instance → Answer
  | .ok handle => .value handle
  | .error reason => .failed reason

/-- The text of one outcome among those of several readers. -/
def raceText : Ending LookupError Instance → String
  | .value handle => "ok " ++ handle.value.text
  | .error error => "error " ++ error.message
  | .panic message => "panic " ++ message
  | .exhausted => "exhausted"

/-- The object of an outcome. -/
def raceObject? : Ending LookupError Instance → Option ObjectId
  | .value handle => some handle.object
  | _ => none

/-- An error among the values becomes an error of the attempt. -/
def Asking.orFail {α ε : Type} (asking : Asking (Except ε α)) : Attempt Memory ε α := fun memory =>
  match asking memory with
  | (.value (.ok value), memory) => (.value value, memory)
  | (.value (.error error), memory) => (.error error, memory)
  | (.panic message, memory) => (.panic message, memory)
  | (.exhausted, memory) => (.exhausted, memory)

namespace Pool

/-- Several readers ask for one value. Whichever comes first constructs a lazy value, and the
others find what it left; so they answer as if they came one after the other. -/
def race (pool : Pool) (applications : List Application) (key : Key) (threads : Nat) :
    Asking Answer := do
  let endings ← Attempt.forEach
    (fun _ => (Asking.orFail (pool.getInstance applications key)).ending)
    (List.range threads)
  return .race ((endings.map raceText).mergeSort fun left right => decide (left ≤ right))
    (endings.filterMap raceObject?).eraseDups

/-- The answer to a question about the pool. -/
def answer (pool : Pool) (applications : List Application) : PoolQuery → Asking Answer
  | .get key type .keyed => do
    return .ofOutcome (← pool.getKeyed applications key type)
  | .get _ type .plain => do
    return .ofOutcome (← pool.getKeyed applications (Key.of type) type)
  | .get key type .qualified => do
    let target := Key.qualified type (key.qualifier.getD "")
    return .ofOutcome (← pool.getKeyed applications target type)
  | .get key _ .handle => do
    return .ofOutcome (← pool.getInstance applications key)
  | .get key type .entry => do
    match pool.find? key with
    | none => return .nothing
    | some entry =>
      let outcome ← entry.get applications type
      return .ofOutcome (outcome.mapError LookupError.construction)
  | .get key _ .entryHandle => do
    match pool.find? key with
    | none => return .nothing
    | some entry =>
      let outcome ← entry.getInstance applications
      return .ofOutcome (outcome.mapError LookupError.construction)
  | .contains key => return .truth (pool.contains key)
  | .entry key full => do
    let memory ← Attempt.observe id
    return ((pool.find? key).map fun entry => .entry (memory.viewOf entry) full).getD .nothing
  | .services => return .services pool.services
  | .race key threads => pool.race applications key threads
  | .contents => do
    let memory ← Attempt.observe id
    return .contents (memory.viewOfPool pool)

end Pool

end Wiring
