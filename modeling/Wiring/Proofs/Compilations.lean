import Mathlib.Logic.Relation
import Wiring.Proofs.Attempts
import Wiring.Proofs.Blueprints

/-!
A compilation as a sequence of steps. Each step gives one entry its accessor, once the accessors
that it needs are there; only a constant factory does more and is invoked on the way. A
compilation that gives no result has come, step by step, to an invocation that gave none.
-/

namespace Wiring

open Relation

/-- The accessors that are compiled for the linked providers, each under the key of its link. -/
def Compiled.Covers (compiled : Compiled) (links : List (Key × EntryId))
    (dependencies : List (Key × Accessor)) : Prop :=
  List.Forall₂ (fun link dependency =>
    dependency.1 = link.1 ∧ compiled link.2 = some dependency.2) links dependencies

namespace Compiled

variable {compiled : Compiled} {id other : EntryId} {accessor found : Accessor}

@[simp] theorem add_self (compiled : Compiled) (id : EntryId) (accessor : Accessor) :
    compiled.add id accessor id = some accessor := by
  simp [add]

theorem add_of_ne (different : other ≠ id) : compiled.add id accessor other = compiled other := by
  rw [add, if_neg different]

theorem ne_of_fresh (fresh : compiled id = none) (known : compiled other = some found) :
    other ≠ id := by
  rintro rfl
  rw [fresh] at known
  cases known

theorem add_cases (known : compiled.add id accessor other = some found) :
    (other = id ∧ found = accessor) ∨ compiled other = some found := by
  unfold add at known
  split at known
  · rename_i same
    exact .inl ⟨same, (Option.some.inj known).symm⟩
  · exact .inr known

end Compiled

namespace Blueprint

/-- The identity of the factory of an entry. -/
abbrev factoryOf (blueprint : Blueprint) (id : EntryId) : FactoryId :=
  ⟨blueprint.assembly, id.index⟩

/-- The entry is a factory in the given mode that is not compiled yet, and its dependencies are. -/
structure Prepares (blueprint : Blueprint) (mode : InstantiationMode) (compiled : Compiled)
    (id : EntryId) (entry : Entry) (factory : Factory) (dependencies : List (Key × Accessor)) :
    Prop where
  fresh : compiled id = none
  found : blueprint.entries[id.index]? = some entry
  origin : entry.origin = .made factory
  mode : entry.effectiveMode blueprint.defaultMode = mode
  covers : compiled.Covers (blueprint.linked id entry) dependencies

/-- The invocation of a constant factory, once it is prepared. -/
def invocation (blueprint : Blueprint) (applications : List Application) (id : EntryId)
    (entry : Entry) (factory : Factory) (dependencies : List (Key × Accessor)) :
    Evaluation Instance := fun memory =>
  (blueprint.producerOf id entry factory).invoke (memory.surroundings applications) dependencies
    memory

theorem invocation_apply (blueprint : Blueprint) (applications : List Application) (id : EntryId)
    (entry : Entry) (factory : Factory) (dependencies : List (Key × Accessor)) (memory : Memory) :
    blueprint.invocation applications id entry factory dependencies memory =
      (blueprint.producerOf id entry factory).invoke (surroundings applications memory.depth)
        dependencies memory := rfl

/-- One step of a compilation. -/
inductive Step (blueprint : Blueprint) (applications : List Application) :
    Memory × Compiled → Memory × Compiled → Prop
  | given {memory : Memory} {compiled : Compiled} {id : EntryId} {entry : Entry}
      {handle : Instance} (fresh : compiled id = none)
      (found : blueprint.entries[id.index]? = some entry) (origin : entry.origin = .given handle) :
      Step blueprint applications (memory, compiled)
        (memory.countAccessor, compiled.add id (.constant ⟨memory.accessors⟩ handle))
  | shared {memory : Memory} {compiled : Compiled} {id target : EntryId} {entry : Entry}
      {accessor : Accessor} (fresh : compiled id = none)
      (found : blueprint.entries[id.index]? = some entry)
      (origin : entry.origin = .delegate (.entry target))
      (known : compiled target = some accessor) :
      Step blueprint applications (memory, compiled) (memory, compiled.add id accessor)
  | imported {memory : Memory} {compiled : Compiled} {id : EntryId} {entry : Entry}
      {imported : RuntimeEntry} (fresh : compiled id = none)
      (found : blueprint.entries[id.index]? = some entry)
      (origin : entry.origin = .delegate (.foreign imported)) :
      Step blueprint applications (memory, compiled) (memory, compiled.add id imported.accessor)
  | constant {memory after : Memory} {compiled : Compiled} {id : EntryId} {entry : Entry}
      {factory : Factory} {dependencies : List (Key × Accessor)} {handle : Instance}
      (prepares : blueprint.Prepares .constant compiled id entry factory dependencies)
      (invoked : blueprint.invocation applications id entry factory dependencies memory =
        (.value handle, after)) :
      Step blueprint applications (memory, compiled)
        (after.countAccessor.report (.entryCompiled entry.key .constant),
          compiled.add id (.constant ⟨after.accessors⟩ handle))
  | lazy {memory : Memory} {compiled : Compiled} {id : EntryId} {entry : Entry}
      {factory : Factory} {dependencies : List (Key × Accessor)}
      (prepares : blueprint.Prepares .lazy compiled id entry factory dependencies) :
      Step blueprint applications (memory, compiled)
        (memory.countAccessor.report (.entryCompiled entry.key .lazy),
          compiled.add id
            (.lazy ⟨memory.accessors⟩ (blueprint.producerOf id entry factory) dependencies))
  | prototype {memory : Memory} {compiled : Compiled} {id : EntryId} {entry : Entry}
      {factory : Factory} {dependencies : List (Key × Accessor)}
      (prepares : blueprint.Prepares .prototype compiled id entry factory dependencies) :
      Step blueprint applications (memory, compiled)
        (memory.countAccessor.report (.entryCompiled entry.key .prototype),
          compiled.add id
            (.prototype ⟨memory.accessors⟩ (blueprint.producerOf id entry factory) dependencies))
  | reported {memory : Memory} {compiled : Compiled} (event : Event) :
      Step blueprint applications (memory, compiled) (memory.report event, compiled)

/-- Steps of a compilation. -/
abbrev Steps (blueprint : Blueprint) (applications : List Application) :
    Memory × Compiled → Memory × Compiled → Prop :=
  ReflTransGen (blueprint.Step applications)

/-- After some steps the invocation of a constant fails. -/
def Fails (blueprint : Blueprint) (applications : List Application) (state : Memory × Compiled)
    (error : BuildError) (after : Memory × Compiled) : Prop :=
  ∃ middle id entry factory dependencies cause, blueprint.Steps applications state middle ∧
    blueprint.Prepares .constant middle.2 id entry factory dependencies ∧
    blueprint.invocation applications id entry factory dependencies middle.1 =
      (.error cause, after.1) ∧
    error = .instantiation entry.key cause ∧ after.2 = middle.2

/-- After some steps the invocation of a constant is broken off. -/
def Breaks (blueprint : Blueprint) (applications : List Application) (state : Memory × Compiled)
    (after : Memory × Compiled) : Prop :=
  ∃ middle id entry factory dependencies, blueprint.Steps applications state middle ∧
    blueprint.Prepares .constant middle.2 id entry factory dependencies ∧
    ((∃ message, blueprint.invocation applications id entry factory dependencies middle.1 =
        (.panic message, after.1)) ∨
      blueprint.invocation applications id entry factory dependencies middle.1 =
        (.exhausted, after.1)) ∧
    after.2 = middle.2

/-- After some steps, which add no entry from the given rank on. -/
def Reaches (blueprint : Blueprint) (applications : List Application) (rank : Nat → Nat)
    (bound : Nat) (state after : Memory × Compiled) : Prop :=
  blueprint.Steps applications state after ∧
    ∀ id : EntryId, bound ≤ rank id.index → after.2 id = state.2 id

variable {assembly : Assembly} {blueprint : Blueprint} {applications : List Application}
  {rank : Nat → Nat} {state after : Memory × Compiled}

theorem Step.extends (step : blueprint.Step applications state after) {id : EntryId}
    {accessor : Accessor} (known : state.2 id = some accessor) : after.2 id = some accessor := by
  have added (compiled : Compiled) (other : EntryId) (new : Accessor)
      (fresh : compiled other = none) (known : compiled id = some accessor) :
      compiled.add other new id = some accessor := by
    rw [Compiled.add_of_ne (Compiled.ne_of_fresh fresh known), known]
  cases step with
  | given fresh => exact added _ _ _ fresh known
  | shared fresh => exact added _ _ _ fresh known
  | imported fresh => exact added _ _ _ fresh known
  | constant prepares => exact added _ _ _ prepares.fresh known
  | lazy prepares => exact added _ _ _ prepares.fresh known
  | prototype prepares => exact added _ _ _ prepares.fresh known
  | reported => exact known

/-- What is compiled stays. -/
theorem Steps.extends (steps : blueprint.Steps applications state after) {id : EntryId}
    {accessor : Accessor} (known : state.2 id = some accessor) : after.2 id = some accessor := by
  induction steps with
  | refl => exact known
  | tail _ step ih => exact step.extends ih

theorem Fails.of_steps {middle : Memory × Compiled} {error : BuildError}
    (fails : blueprint.Fails applications middle error after)
    (steps : blueprint.Steps applications state middle) :
    blueprint.Fails applications state error after := by
  obtain ⟨last, id, entry, factory, dependencies, cause, onward, rest⟩ := fails
  exact ⟨last, id, entry, factory, dependencies, cause, steps.trans onward, rest⟩

theorem Breaks.of_steps {middle : Memory × Compiled}
    (breaks : blueprint.Breaks applications middle after)
    (steps : blueprint.Steps applications state middle) :
    blueprint.Breaks applications state after := by
  obtain ⟨last, id, entry, factory, dependencies, onward, rest⟩ := breaks
  exact ⟨last, id, entry, factory, dependencies, steps.trans onward, rest⟩

theorem Reaches.refl (bound : Nat) (state : Memory × Compiled) :
    blueprint.Reaches applications rank bound state state :=
  ⟨.refl, fun _ _ => rfl⟩

theorem Reaches.trans {bound : Nat} {middle : Memory × Compiled}
    (reaches : blueprint.Reaches applications rank bound state middle)
    (onward : blueprint.Reaches applications rank bound middle after) :
    blueprint.Reaches applications rank bound state after :=
  ⟨reaches.1.trans onward.1, fun id high => (onward.2 id high).trans (reaches.2 id high)⟩

theorem Reaches.mono {bound wider : Nat}
    (reaches : blueprint.Reaches applications rank bound state after) (within : bound ≤ wider) :
    blueprint.Reaches applications rank wider state after :=
  ⟨reaches.1, fun id high => reaches.2 id (within.trans high)⟩

/-- The step that adds the entry itself, when everything before it was of a lower rank. -/
theorem Reaches.add {middle : Memory × Compiled} {memory : Memory} {id : EntryId}
    {accessor : Accessor}
    (reaches : blueprint.Reaches applications rank (rank id.index) state middle)
    (step : blueprint.Step applications middle (memory, middle.2.add id accessor)) :
    blueprint.Reaches applications rank (rank id.index + 1) state
        (memory, middle.2.add id accessor) ∧
      middle.2.add id accessor id = some accessor := by
  refine ⟨(reaches.mono (Nat.le_succ _)).trans ⟨.single step, fun other high => ?_⟩,
    Compiled.add_self _ _ _⟩
  have different : other ≠ id := by
    rintro rfl
    omega
  exact Compiled.add_of_ne different

/-- A compilation that yields what its steps can reach: an accessor for the entry, or else a
failed or broken invocation. -/
def Compiles (blueprint : Blueprint) (applications : List Application) (rank : Nat → Nat)
    (id : EntryId) (compiling : Compiling Accessor) (state : Memory × Compiled) : Prop :=
  compiling.Yields state
    (fun accessor after => blueprint.Reaches applications rank (rank id.index + 1) state after ∧
      after.2 id = some accessor)
    (fun error after => blueprint.Fails applications state error after)
    (fun after => blueprint.Breaks applications state after)

/-- A prepared factory becomes an accessor in its mode. -/
theorem compile_yields (applications : List Application) (rank : Nat → Nat)
    {mode : InstantiationMode} {id : EntryId} {entry : Entry} {factory : Factory}
    {dependencies : List (Key × Accessor)}
    (prepares : blueprint.Prepares mode state.2 id entry factory dependencies) :
    blueprint.Compiles applications rank id
      (do
        let accessor ←
          (blueprint.producerOf id entry factory).compile applications dependencies mode
        Compiling.report (.entryCompiled entry.key accessor.mode)
        Compiling.remember id accessor)
      state := by
  cases mode with
  | lazy => exact (Reaches.refl _ state).add (.lazy prepares)
  | prototype => exact (Reaches.refl _ state).add (.prototype prepares)
  | constant =>
    simp only [Compiles, Producer.compile, Producer.instantiate, Attempt.yields_bind,
      Attempt.yields_onFirst]
    apply (Attempt.yields_mapError _ _).mpr
    change Attempt.Yields (blueprint.invocation applications id entry factory dependencies) state.1
      _ _ _
    unfold Attempt.Yields
    rcases invoked : blueprint.invocation applications id entry factory dependencies state.1 with
      ⟨ending, memory⟩
    cases ending with
    | value handle =>
      exact (Reaches.refl _ state).add (.constant prepares invoked)
    | error cause =>
      exact ⟨state, id, entry, factory, dependencies, cause, .refl, prepares, invoked, rfl, rfl⟩
    | panic message =>
      exact ⟨state, id, entry, factory, dependencies, .refl, prepares, .inl ⟨message, invoked⟩, rfl⟩
    | exhausted =>
      exact ⟨state, id, entry, factory, dependencies, .refl, prepares, .inr invoked, rfl⟩

/-- Compiling an entry is a sequence of steps that adds nothing of a higher rank. -/
theorem accessor_yields (ranked : blueprint.Ranked rank) (applications : List Application)
    {depth : Nat} {id : EntryId} (inside : id.index < blueprint.entries.length)
    (deep : rank id.index < depth) (state : Memory × Compiled) :
    blueprint.Compiles applications rank id (blueprint.accessor applications depth id) state := by
  induction depth generalizing id state with
  | zero => omega
  | succ depth ih =>
    -- What the entry needs is compiled at a lower rank, so the entry itself stays open.
    have before {next : EntryId} (needs : blueprint.Needs id.index next.index)
        (state : Memory × Compiled) :
        (blueprint.accessor applications depth next).Yields state
          (fun accessor after =>
            blueprint.Reaches applications rank (rank id.index) state after ∧
              after.2 next = some accessor)
          (fun error after => blueprint.Fails applications state error after)
          (fun after => blueprint.Breaks applications state after) := by
      obtain ⟨within, lower⟩ := ranked.needs _ _ needs
      refine (ih within (by omega) state).mono ?_ (fun _ _ kept => kept) (fun _ kept => kept)
      intro accessor after yielded
      obtain ⟨reaches, known⟩ := yielded
      exact ⟨reaches.mono lower, known⟩
    have found := List.getElem?_eq_getElem inside
    generalize blueprint.entries[id.index] = entry at found
    unfold Compiles accessor Compiling.known
    rw [Attempt.yields_bind, Attempt.yields_observe]
    cases known : state.2 id with
    | some accessor => exact ⟨.refl _ state, known⟩
    | none =>
      simp only [found]
      cases origin : entry.origin with
      | given handle =>
        exact (Reaches.refl _ state).add (.given known found origin)
      | delegate target =>
        cases target with
        | foreign imported =>
          exact (Reaches.refl _ state).add (.imported known found origin)
        | entry target =>
          simp only [Attempt.yields_bind]
          refine (before (.target found origin) state).mono ?_ (fun _ _ kept => kept)
            (fun _ kept => kept)
          intro accessor after yielded
          obtain ⟨reaches, compiled⟩ := yielded
          have fresh : after.2 id = none := (reaches.2 id (Nat.le_refl _)).trans known
          exact reaches.add (.shared fresh found origin compiled)
      | made factory =>
        simp only [Attempt.yields_bind]
        refine (Attempt.yields_forEach (blueprint.Reaches applications rank (rank id.index))
          (.refl _) .trans
          (fun (link : Key × EntryId) (dependency : Key × Accessor) state =>
            dependency.1 = link.1 ∧ state.2 link.2 = some dependency.2)
          (fun reaches fits => ⟨fits.1, reaches.1.extends fits.2⟩)
          (fun reaches fails => fails.of_steps reaches.1)
          (fun reaches breaks => breaks.of_steps reaches.1) ?_ state).mono ?_ (fun _ _ kept => kept)
          (fun _ kept => kept)
        · intro link member state
          rw [Attempt.yields_bind]
          refine (before (.link found origin member) state).mono ?_ (fun _ _ kept => kept)
            (fun _ kept => kept)
          intro accessor after yielded
          obtain ⟨reaches, compiled⟩ := yielded
          exact ⟨reaches, rfl, compiled⟩
        · intro dependencies after yielded
          obtain ⟨reaches, covers⟩ := yielded
          have fresh : after.2 id = none := (reaches.2 id (Nat.le_refl _)).trans known
          have compiles := compile_yields applications rank ⟨fresh, found, origin, rfl, covers⟩
          simp only [Compiles, Attempt.yields_bind] at compiles
          refine compiles.mono ?_ (fun _ _ fails => fails.of_steps reaches.1)
            (fun _ breaks => breaks.of_steps reaches.1)
          intro accessor last yielded
          obtain ⟨onward, compiled⟩ := yielded
          exact ⟨(reaches.mono (Nat.le_succ _)).trans onward, compiled⟩

end Blueprint

end Wiring
