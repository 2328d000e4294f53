import Wiring.Evaluation
import Wiring.Resolution

/-!
Compilation: each producer of a resolved assembly becomes one accessor, and every entry that
delegates to it takes that accessor. The dependencies of a factory are compiled before it, and a
constant factory is called at once.
-/

namespace Wiring

/-- What a compilation works from. -/
structure Blueprint where
  assembly : Nat
  defaultMode : InstantiationMode
  entries : List Entry
  links : List (List EntryId)

/-- The accessors of the entries that are compiled already. -/
abbrev Compiled : Type := EntryId → Option Accessor

/-- No entry is compiled. -/
def Compiled.empty : Compiled := fun _ => none

/-- One more entry is compiled. -/
def Compiled.add (compiled : Compiled) (id : EntryId) (accessor : Accessor) : Compiled :=
  fun other => if other = id then some accessor else compiled other

/-- A step of a compilation. -/
abbrev Compiling (α : Type) : Type := Attempt (Memory × Compiled) BuildError α

namespace Compiling

/-- The accessor of an entry, if it is compiled already. -/
def known (id : EntryId) : Compiling (Option Accessor) :=
  Attempt.observe fun state => state.2 id

/-- An entry is compiled. -/
def remember (id : EntryId) (accessor : Accessor) : Compiling Accessor := do
  Attempt.change fun state => (state.1, Compiled.add state.2 id accessor)
  return accessor

/-- A new identity for an accessor. -/
def newAccessor : Compiling AccessorId := do
  let number ← Attempt.observe fun state => state.1.accessors
  Attempt.change fun state => (state.1.countAccessor, state.2)
  return ⟨number⟩

/-- An event is reported. -/
def report (event : Event) : Compiling Unit :=
  Attempt.change fun state => (state.1.report event, state.2)

end Compiling

/-- The mode in which a factory entry is compiled. -/
def Entry.effectiveMode (entry : Entry) (defaultMode : InstantiationMode) : InstantiationMode :=
  entry.mode.getD defaultMode

/-- The instance of a constant, made at once. -/
def Producer.instantiate (applications : List Application) (producer : Producer)
    (dependencies : List (Key × Accessor)) : Compiling Instance :=
  Attempt.onFirst <|
    Attempt.mapError (fun error => .instantiation producer.key error) fun memory =>
      producer.invoke (memory.surroundings applications) dependencies memory

/-- The accessor of a producer in a mode. -/
def Producer.compile (applications : List Application) (producer : Producer)
    (dependencies : List (Key × Accessor)) (mode : InstantiationMode) : Compiling Accessor := do
  match mode with
  | .constant =>
    let handle ← producer.instantiate applications dependencies
    let id ← Compiling.newAccessor
    return .constant id handle
  | .lazy =>
    let id ← Compiling.newAccessor
    return .lazy id producer dependencies
  | .prototype =>
    let id ← Compiling.newAccessor
    return .prototype id producer dependencies

namespace Blueprint

/-- The declared dependencies of an entry with their providers. -/
def linked (blueprint : Blueprint) (id : EntryId) (entry : Entry) : List (Key × EntryId) :=
  entry.dependencies.zip (blueprint.links.getD id.index [])

/-- The producer of a factory entry. -/
def producerOf (blueprint : Blueprint) (id : EntryId) (entry : Entry) (factory : Factory) :
    Producer where
  key := entry.key
  factory := ⟨blueprint.assembly, id.index⟩
  behaviour := factory.behaviour

/-- The accessor of an entry. It is compiled when it is first needed, after all that it depends
on. The depth bounds the chain of dependencies; in a graph without circles no chain is longer than
the list of entries. -/
def accessor (blueprint : Blueprint) (applications : List Application) :
    Nat → EntryId → Compiling Accessor
  | 0, _ => Attempt.exhaust
  | depth + 1, id => do
    match ← Compiling.known id with
    | some accessor => return accessor
    | none =>
      match blueprint.entries[id.index]? with
      | none => Attempt.exhaust
      | some entry =>
        match entry.origin with
        | .given handle =>
          let number ← Compiling.newAccessor
          Compiling.remember id (.constant number handle)
        | .delegate (.entry target) =>
          let accessor ← accessor blueprint applications depth target
          Compiling.remember id accessor
        | .delegate (.foreign entry) => Compiling.remember id entry.accessor
        | .made factory =>
          let dependencies ← Attempt.forEach
            (fun link => do
              let accessor ← accessor blueprint applications depth link.2
              return (link.1, accessor))
            (blueprint.linked id entry)
          let accessor ← (blueprint.producerOf id entry factory).compile applications dependencies
            (entry.effectiveMode blueprint.defaultMode)
          Compiling.report (.entryCompiled entry.key accessor.mode)
          Compiling.remember id accessor

/-- The description of an entry, or else that of its producer. -/
def description (blueprint : Blueprint) (id : EntryId) : Option String :=
  match blueprint.entries[id.index]? with
  | none => none
  | some entry =>
    entry.description.or <|
      match entry.origin with
      | .delegate (.entry target) => blueprint.entries[target.index]?.bind Entry.description
      | .delegate (.foreign foreign) => foreign.description
      | .given _ => none
      | .made _ => none

/-- The compiled form of an entry under the key of its registration. -/
def runtimeEntry (blueprint : Blueprint) (applications : List Application) (key : Key)
    (id : EntryId) : Compiling RuntimeEntry := do
  let accessor ← blueprint.accessor applications blueprint.entries.length id
  return ⟨key, blueprint.description id, accessor⟩

/-- The pool of a scope, on top of the pool of its parent. -/
def pool (blueprint : Blueprint) (applications : List Application) (name : String)
    (parent : Option Pool) (registry : Registry) : Compiling Pool := do
  let entries ← registry.compileEach (blueprint.runtimeEntry applications)
  return ⟨⟨name, entries⟩, (parent.map Pool.layers).getD []⟩

/-- The pools of the scopes, in the order of their creation, on top of those that are there. -/
def pools (blueprint : Blueprint) (applications : List Application) :
    List (Registry × Scope) → List Pool → Compiling (List Pool)
  | [], done => return done
  | (registry, scope) :: rest, done => do
    let parent := scope.parent.bind fun parent => done[parent.index]?
    let pool ← blueprint.pool applications scope.name parent registry
    Compiling.report (.poolCompiled scope.name pool.layer.entries.length)
    pools blueprint applications rest (done ++ [pool])

end Blueprint

end Wiring
