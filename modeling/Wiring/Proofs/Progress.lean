import Wiring.Proofs.Arena

/-!
A compilation among built pools. Every step keeps the arena of the accessors that are there, those
of the built pools and those compiled so far, and gives each entry an accessor of its type.
-/

namespace Wiring

/-- The accessors of built pools, and those that are compiled already. -/
def Compiled.Gathers (compiled : Compiled) (base : Accessor → Prop) (accessor : Accessor) : Prop :=
  base accessor ∨ ∃ id, compiled id = some accessor

theorem Compiled.gathers_add {compiled : Compiled} {id : EntryId} {accessor other : Accessor}
    {base : Accessor → Prop} (fresh : compiled id = none) :
    (compiled.add id accessor).Gathers base other ↔
      compiled.Gathers base other ∨ other = accessor := by
  constructor
  · intro gathers
    rcases gathers with old | ⟨place, known⟩
    · exact .inl (.inl old)
    · rcases Compiled.add_cases known with ⟨-, rfl⟩ | old
      · exact .inr rfl
      · exact .inl (.inr ⟨place, old⟩)
  · intro gathers
    rcases gathers with (old | ⟨place, known⟩) | rfl
    · exact .inl old
    · have different : place ≠ id := ne_of_fresh fresh known
      exact .inr ⟨place, by rw [add_of_ne different, known]⟩
    · exact .inr ⟨id, add_self _ _ _⟩

namespace Blueprint

/-- The blueprint belongs to an assembly whose imports are among the accessors of built pools. -/
structure Grounded (blueprint : Blueprint) (assembly : Assembly) (applications : List Application)
    (spent : Nat → Prop) (base : Accessor → Prop) : Prop where
  sound : blueprint.Sound assembly
  closed : Closed applications base
  imports : ∀ imported, assembly.Imports imported →
    base imported.accessor ∧ imported.accessor.type = imported.key.type
  spent : spent blueprint.assembly

/-- What holds at every step of a compilation. -/
structure Progress (blueprint : Blueprint) (spent : Nat → Prop) (base : Accessor → Prop)
    (state : Memory × Compiled) : Prop where
  arena : Arena spent (state.2.Gathers base) state.1
  closed : ∀ id accessor, state.2 id = some accessor →
    ∀ dependency ∈ accessor.dependencies, state.2.Gathers base dependency.2
  typed : ∀ id accessor, state.2 id = some accessor →
    ∃ entry, blueprint.entries[id.index]? = some entry ∧ accessor.type = entry.key.type

variable {blueprint : Blueprint} {assembly : Assembly} {applications : List Application}
  {spent : Nat → Prop} {base : Accessor → Prop} {state after : Memory × Compiled}

theorem Progress.start {memory : Memory} (arena : Arena spent base memory) :
    blueprint.Progress spent base (memory, Compiled.empty) where
  arena := arena.mono (fun _ gathers => gathers.resolve_right nofun) fun _ => id
  closed _ _ known := nomatch known
  typed _ _ known := nomatch known

/-- The gathered accessors are a family among the built pools. -/
theorem Progress.closed_gathers (progress : blueprint.Progress spent base state)
    (closed : Closed applications base) : Closed applications (state.2.Gathers base) where
  dependencies accessor gathers dependency member := by
    rcases gathers with old | ⟨id, known⟩
    · exact .inl (closed.dependencies accessor old dependency member)
    · exact progress.closed id accessor known dependency member
  visible path pool key entry place found := .inl (closed.visible path pool key entry place found)

/-- Compiled dependencies have the types of their keys. -/
theorem Progress.covered (progress : blueprint.Progress spent base state)
    {links : List (Key × EntryId)} {dependencies : List (Key × Accessor)}
    (linked : ∀ link ∈ links, ∃ provider, blueprint.entries[link.2.index]? = some provider ∧
      provider.key = link.1)
    (covers : state.2.Covers links dependencies) :
    ∀ dependency ∈ dependencies, state.2.Gathers base dependency.2 ∧
      dependency.2.type = dependency.1.type := by
  induction covers with
  | nil => exact fun _ member => nomatch member
  | cons fits _ ih =>
    obtain ⟨key, known⟩ := fits
    intro dependency member
    rcases List.mem_cons.mp member with rfl | among
    · obtain ⟨entry, found, type⟩ := progress.typed _ _ known
      obtain ⟨provider, place, right⟩ := linked _ List.mem_cons_self
      obtain rfl := Option.some.inj (found.symm.trans place)
      exact ⟨.inr ⟨_, known⟩, by rw [type, right, key]⟩
    · exact ih (fun link member => linked link (List.mem_cons_of_mem _ member)) dependency among

/-- The invocation of a prepared constant keeps every discipline that permits it and that readings
of what is gathered keep, and gives a value of its type. -/
theorem Progress.respects_of_pervades (progress : blueprint.Progress spent base state)
    (grounded : blueprint.Grounded assembly applications spent base) {discipline : Discipline}
    {gives : Accessor → Instance → Prop} (breaks : discipline.breaks)
    (pervades : discipline.Pervades applications (state.2.Gathers base) gives)
    {mode : InstantiationMode} {id : EntryId} {entry : Entry} {factory : Factory}
    {dependencies : List (Key × Accessor)}
    (prepares : blueprint.Prepares mode state.2 id entry factory dependencies)
    (permits : discipline.Permits (blueprint.producerOf id entry factory)
      (fun dependency => gives dependency.2) dependencies) :
    discipline.Respected (blueprint.invocation applications id entry factory dependencies)
      fun handle => handle.type = entry.key.type := by
  have covered := progress.covered (grounded.sound.linked prepares.found prepares.origin)
    prepares.covers
  apply Discipline.respected_at_depth (fun depth =>
      (blueprint.producerOf id entry factory).invoke (surroundings applications depth) dependencies)
    (blueprint.invocation_apply applications id entry factory dependencies)
  intro depth
  exact permits.respected_invoke (pervades.surrounded depth) breaks fun dependency member =>
    pervades.reads depth dependency.2 (covered dependency member).1

/-- So it keeps every discipline that permits it and that governs what is gathered. -/
theorem Progress.respects (progress : blueprint.Progress spent base state)
    (grounded : blueprint.Grounded assembly applications spent base) {discipline : Discipline}
    {gives : Accessor → Instance → Prop} (breaks : discipline.breaks)
    (governs : discipline.Governs (state.2.Gathers base) gives) {mode : InstantiationMode}
    {id : EntryId} {entry : Entry} {factory : Factory} {dependencies : List (Key × Accessor)}
    (prepares : blueprint.Prepares mode state.2 id entry factory dependencies)
    (permits : discipline.Permits (blueprint.producerOf id entry factory)
      (fun dependency => gives dependency.2) dependencies) :
    discipline.Respected (blueprint.invocation applications id entry factory dependencies)
      fun handle => handle.type = entry.key.type :=
  progress.respects_of_pervades grounded breaks
    (governs.pervades breaks (progress.closed_gathers grounded.closed)) prepares permits

/-- The invocation of a prepared constant keeps the arena. -/
theorem Progress.respected_invocation (progress : blueprint.Progress spent base state)
    (grounded : blueprint.Grounded assembly applications spent base) {mode : InstantiationMode}
    {id : EntryId} {entry : Entry} {factory : Factory} {dependencies : List (Key × Accessor)}
    (prepares : blueprint.Prepares mode state.2 id entry factory dependencies) :
    (Discipline.arena spent (state.2.Gathers base)).Respected
      (blueprint.invocation applications id entry factory dependencies)
      fun handle => handle.type = entry.key.type := by
  have covered := progress.covered (grounded.sound.linked prepares.found prepares.origin)
    prepares.covers
  exact progress.respects grounded trivial (Arena.governs spent (state.2.Gathers base)) prepares
    (Arena.permits _ grounded.spent fun dependency member => (covered dependency member).2)

/-- An accessor that is known already is given to one more entry. -/
theorem Progress.share (progress : blueprint.Progress spent base state) {id : EntryId}
    {accessor : Accessor} (fresh : state.2 id = none) (gathers : state.2.Gathers base accessor)
    (closed : ∀ dependency ∈ accessor.dependencies, state.2.Gathers base dependency.2)
    {entry : Entry} (found : blueprint.entries[id.index]? = some entry)
    (type : accessor.type = entry.key.type) :
    blueprint.Progress spent base (state.1, state.2.add id accessor) := by
  have grown (other : Accessor) :
      (state.2.add id accessor).Gathers base other ↔ state.2.Gathers base other := by
    rw [Compiled.gathers_add fresh]
    exact ⟨fun added => added.elim (fun old => old) fun same => same ▸ gathers, .inl⟩
  refine ⟨progress.arena.mono (fun other => (grown other).mp) fun _ kept => kept, ?_, ?_⟩
  · intro other found known dependency member
    rw [grown]
    rcases Compiled.add_cases known with ⟨-, rfl⟩ | old
    · exact closed dependency member
    · exact progress.closed other found old dependency member
  · intro other accessor' known
    rcases Compiled.add_cases known with ⟨rfl, rfl⟩ | old
    · exact ⟨entry, found, type⟩
    · exact progress.typed other accessor' old

/-- A new accessor is made for an entry. -/
theorem Progress.make (progress : blueprint.Progress spent base state) {id : EntryId}
    {accessor : Accessor} (fresh : state.2 id = none)
    (number : accessor.id = ⟨state.1.accessors⟩)
    (covered : ∀ dependency ∈ accessor.dependencies, state.2.Gathers base dependency.2 ∧
      dependency.2.type = dependency.1.type)
    (made : ∀ producer, accessor.producer? = some producer → spent producer.factory.assembly)
    {entry : Entry} (found : blueprint.entries[id.index]? = some entry)
    (type : accessor.type = entry.key.type) :
    blueprint.Progress spent base (state.1.countAccessor, state.2.add id accessor) := by
  have grown (other : Accessor) (gathers : state.2.Gathers base other) :
      (state.2.add id accessor).Gathers base other :=
    (Compiled.gathers_add fresh).mpr (.inl gathers)
  have arena := progress.arena.add number (fun dependency member => (covered dependency member).2)
    made
  refine ⟨arena.mono (fun _ => (Compiled.gathers_add fresh).mp) fun _ kept => kept, ?_, ?_⟩
  · intro other found known dependency member
    rcases Compiled.add_cases known with ⟨-, rfl⟩ | old
    · exact grown _ (covered dependency member).1
    · exact grown _ (progress.closed other found old dependency member)
  · intro other accessor' known
    rcases Compiled.add_cases known with ⟨rfl, rfl⟩ | old
    · exact ⟨entry, found, type⟩
    · exact progress.typed other accessor' old

/-- Every step of a compilation keeps what holds of it. -/
theorem Step.progress (step : blueprint.Step applications state after)
    (grounded : blueprint.Grounded assembly applications spent base)
    (progress : blueprint.Progress spent base state) :
    blueprint.Progress spent base after := by
  have reported {memory : Memory} {compiled : Compiled} (event : Event)
      (progress : blueprint.Progress spent base (memory, compiled)) :
      blueprint.Progress spent base (memory.report event, compiled) :=
    ⟨progress.arena.like (memory.like_report event), progress.closed, progress.typed⟩
  cases step with
  | reported event => exact reported event progress
  | given fresh found origin =>
    exact progress.make fresh rfl nofun nofun found (grounded.sound.given found origin)
  | shared fresh found origin known =>
    obtain ⟨provider, place, type, -⟩ := grounded.sound.delegated found origin
    obtain ⟨entry, here, right⟩ := progress.typed _ _ known
    obtain rfl := Option.some.inj (place.symm.trans here)
    exact progress.share fresh (.inr ⟨_, known⟩) (progress.closed _ _ known) found
      (right.trans type)
  | imported fresh found origin =>
    obtain ⟨imports, type⟩ := grounded.sound.foreign found origin
    obtain ⟨member, right⟩ := grounded.imports _ imports
    exact progress.share fresh (.inl member)
      (fun dependency among => .inl (grounded.closed.dependencies _ member dependency among)) found
      (right.trans type)
  | lazy prepares =>
    have covered := progress.covered (grounded.sound.linked prepares.found prepares.origin)
      prepares.covers
    refine reported _ (progress.make prepares.fresh rfl covered ?_ prepares.found rfl)
    intro _ same
    cases same
    exact grounded.spent
  | prototype prepares =>
    have covered := progress.covered (grounded.sound.linked prepares.found prepares.origin)
      prepares.covers
    refine reported _ (progress.make prepares.fresh rfl covered ?_ prepares.found rfl)
    intro _ same
    cases same
    exact grounded.spent
  | constant prepares invoked =>
    rename_i memory middle compiled id entry factory dependencies handle
    have passes := (progress.respected_invocation grounded prepares memory progress.arena).of_value
      invoked
    have invoked : blueprint.Progress spent base (middle, compiled) :=
      ⟨passes.1.1, progress.closed, progress.typed⟩
    exact reported _ (invoked.make prepares.fresh rfl nofun nofun prepares.found passes.2)

/-- What holds at the start of a compilation holds after all its steps. -/
theorem Steps.progress (steps : blueprint.Steps applications state after)
    (grounded : blueprint.Grounded assembly applications spent base)
    (progress : blueprint.Progress spent base state) :
    blueprint.Progress spent base after := by
  induction steps with
  | refl => exact progress
  | tail _ step ih => exact step.progress grounded ih

end Blueprint

end Wiring
