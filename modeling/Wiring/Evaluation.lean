import Wiring.Memory

/-!
Reading accessors. A constant gives its instance. A prototype reads its dependencies in order and
calls its factory. A lazy accessor does so once and keeps the outcome: a value, an error, or
that the factory panicked; while the factory runs, a further reading fails as re-entrant.

A factory may ask applications for values while it runs, and the factories of those values may do
the same. The depth of such questions is bounded; following declared dependencies needs no bound.
-/

namespace Wiring

/-- An attempt to produce a value. -/
abbrev Evaluation (α : Type) : Type := Attempt Memory ConstructionError α

/-- How the questions of running factories are answered. -/
structure Surroundings where
  lookup : PoolPath → Key → Evaluation (Option (Except LookupError Instance))
  peek : PoolPath → Key → Evaluation (Option (Option EntryView))

/-- A behaviour runs to its end. Its value becomes a new object. -/
def Behaviour.run (surroundings : Surroundings) :
    Behaviour ConstructionError → Evaluation Instance
  | .give value => do
    let number ← Attempt.observe Memory.objects
    Attempt.change Memory.countObject
    return ⟨.made number, value⟩
  | .fail error => Attempt.fail error
  | .panic message => Attempt.panic message
  | .write note next => do
    Attempt.change fun memory => memory.write (.factory note)
    run surroundings next
  | .lookup path key next => do
    let answer ← surroundings.lookup path key
    run surroundings (next answer)
  | .peek path key next => do
    let answer ← surroundings.peek path key
    run surroundings (next answer)

/-- A call of the factory with the values of all dependencies. The product must have the type of
the key. -/
def Producer.call (surroundings : Surroundings) (producer : Producer)
    (values : List (Key × Instance)) : Evaluation Instance := do
  Attempt.change fun memory => memory.record (.called producer.factory values)
  let call ← Attempt.observe fun memory => memory.calls producer.factory
  let handle ← (producer.behaviour call ⟨producer.key, values⟩).run surroundings
  if handle.type = producer.key.type then
    return handle
  else
    Attempt.fail (.typeMismatch producer.key producer.key.type handle.type)

/-- An attempt that is the work of a producer. -/
def Producer.working {α : Type} (producer : Producer) (attempt : Evaluation α) : Evaluation α :=
  attempt.between (fun memory => memory.record (.begun producer.factory)) fun memory =>
    memory.record (.ended producer.factory)

/-- An outcome is offered to a cell. The reading ends in the outcome that the cell keeps. -/
def storeOutcome (id : AccessorId) (offered : Except ConstructionError Instance) :
    Evaluation Instance := fun memory =>
  (.ofExcept ((memory.lazies id).kept offered), memory.update id fun cell => cell.store offered)

/-- The only invocation of a lazy accessor: the invoker is taken, the cell shows that it computes,
and what comes of the invocation is stored. A panic is stored while it unwinds. -/
def settle (id : AccessorId) (key : Key) (invocation : Evaluation Instance) :
    Evaluation Instance := fun memory =>
  let guarded := invocation.unwinding fun memory =>
    (storeOutcome id (.error (.panicked key)) memory).2
  match guarded (memory.update id fun cell => cell.take.mark .computing) with
  | (.value handle, memory) => storeOutcome id (.ok handle) (memory.report (.lazyConstructed key))
  | (.error error, memory) => storeOutcome id (.error error) (memory.report (.lazyFailed key error))
  | (.panic message, memory) => (.panic message, memory)
  | (.exhausted, memory) => (.exhausted, memory)

/-- A reading of a lazy accessor: the outcome that is stored, or that of the only invocation. While
that goes on, the invoker is missing and a further reading is refused. A second look at the outcome,
when the lock is held, finds the same in a single thread. -/
def recollect (id : AccessorId) (key : Key) (invocation : Evaluation Instance) :
    Evaluation Instance := fun memory =>
  match (memory.lazies id).outcome with
  | some outcome => (.ofExcept outcome, memory)
  | none =>
    if (memory.lazies id).invoker then settle id key invocation memory
    else (.error (.reentrant key), memory)

mutual

/-- The value of an accessor. -/
def Accessor.read (surroundings : Surroundings) : Accessor → Evaluation Instance
  | .constant _ handle => Attempt.done handle
  | .lazy id producer dependencies =>
    recollect id producer.key <| producer.working <|
      (Accessor.readEach surroundings producer.key dependencies).andThen fun values =>
        producer.call surroundings values
  | .prototype _ producer dependencies =>
    producer.working <|
      (Accessor.readEach surroundings producer.key dependencies).andThen fun values =>
        producer.call surroundings values

/-- The values of the dependencies of an owner, up to the first that cannot be produced. -/
def Accessor.readEach (surroundings : Surroundings) (owner : Key) :
    List (Key × Accessor) → Evaluation (List (Key × Instance))
  | [] => Attempt.done []
  | dependency :: rest =>
    (Accessor.readDependency surroundings owner dependency).andThen fun value =>
      (Accessor.readEach surroundings owner rest).andThen fun values =>
        Attempt.done (value :: values)

/-- The value of one dependency of an owner; its failure is a failure of the owner. -/
def Accessor.readDependency (surroundings : Surroundings) (owner : Key) :
    Key × Accessor → Evaluation (Key × Instance)
  | (key, accessor) =>
    ((Accessor.read surroundings accessor).mapError fun error =>
      .dependency owner key error).andThen fun handle => Attempt.done (key, handle)

end

/-- An invocation of a producer: its dependencies are read, and its factory is called. -/
def Producer.invoke (surroundings : Surroundings) (producer : Producer)
    (dependencies : List (Key × Accessor)) : Evaluation Instance :=
  producer.working <|
    (Accessor.readEach surroundings producer.key dependencies).andThen fun values =>
      producer.call surroundings values

theorem Accessor.read_lazy (surroundings : Surroundings) (id : AccessorId) (producer : Producer)
    (dependencies : List (Key × Accessor)) :
    Accessor.read surroundings (.lazy id producer dependencies) =
      recollect id producer.key (producer.invoke surroundings dependencies) := rfl

theorem Accessor.read_prototype (surroundings : Surroundings) (id : AccessorId)
    (producer : Producer) (dependencies : List (Key × Accessor)) :
    Accessor.read surroundings (.prototype id producer dependencies) =
      producer.invoke surroundings dependencies := rfl

/-- What can be seen of the entry under a key. -/
def peekIn (applications : List Application) (path : PoolPath) (key : Key) :
    Evaluation (Option (Option EntryView)) :=
  Attempt.observe fun memory =>
    (path.resolve? applications).map fun pool => (pool.find? key).map memory.viewOf

/-- The value under a key of a pool, read from its accessor in the given way. -/
def lookupIn (applications : List Application) (read : Accessor → Evaluation Instance)
    (path : PoolPath) (key : Key) : Evaluation (Option (Except LookupError Instance)) :=
  match path.resolve? applications with
  | none => Attempt.done none
  | some pool =>
    match pool.find? key with
    | none => Attempt.done (some (.error (.notFound key)))
    | some entry =>
      ((read entry.accessor).mapError LookupError.construction).outcome.andThen fun answer =>
        Attempt.done (some answer)

/-- The surroundings in which factories ask each other through pools, to the given depth. -/
def surroundings (applications : List Application) : Nat → Surroundings
  | 0 =>
    { lookup := fun _ _ => Attempt.exhaust
      peek := peekIn applications }
  | depth + 1 =>
    { lookup := lookupIn applications fun accessor =>
        accessor.read (surroundings applications depth)
      peek := peekIn applications }

/-- A depth that questions of factories do not exceed unless they go on for ever: between two
lazy accessors that start to compute, no prototype needs to be entered twice. Factories that enter
each other more often, and stop after a number of calls, need patience. -/
def Memory.depth (memory : Memory) : Nat :=
  memory.patience + (memory.accessors + 1) * (memory.accessors + 1)

/-- The surroundings of what happens now. -/
def Memory.surroundings (memory : Memory) (applications : List Application) : Surroundings :=
  Wiring.surroundings applications memory.depth

/-- The value of an accessor among the applications. -/
def Accessor.value (applications : List Application) (accessor : Accessor) :
    Evaluation Instance := fun memory =>
  accessor.read (memory.surroundings applications) memory

end Wiring
