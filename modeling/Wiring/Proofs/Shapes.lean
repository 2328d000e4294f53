import Wiring.Proofs.Compilations

/-!
The shape of compiled accessors. What a delegate leads to has its accessor, and the accessor of a
factory holds the compiled providers of its dependencies, in order and under their keys. A constant
held them when it was invoked.
-/

namespace Wiring

namespace Blueprint

/-- The accessor of a factory entry holds the dependencies for its factory; a constant was made from
them. -/
def WorksWith (blueprint : Blueprint) (applications : List Application) (id : EntryId)
    (entry : Entry) (factory : Factory) (dependencies : List (Key × Accessor)) :
    InstantiationMode → Accessor → Prop
  | .constant, accessor => ∃ number handle before after, accessor = .constant number handle ∧
      blueprint.invocation applications id entry factory dependencies before =
        (.value handle, after)
  | .lazy, accessor => ∃ number,
      accessor = .lazy number (blueprint.producerOf id entry factory) dependencies
  | .prototype, accessor => ∃ number,
      accessor = .prototype number (blueprint.producerOf id entry factory) dependencies

/-- How the accessor of an entry came about, by the origin of the entry. -/
def Shape (blueprint : Blueprint) (applications : List Application) (compiled : Compiled)
    (id : EntryId) (entry : Entry) : Origin → Accessor → Prop
  | .given handle, accessor => ∃ number, accessor = .constant number handle
  | .delegate (.entry target), accessor => compiled target = some accessor
  | .delegate (.foreign imported), accessor => accessor = imported.accessor
  | .made factory, accessor => ∃ dependencies,
      compiled.Covers (blueprint.linked id entry) dependencies ∧
      blueprint.WorksWith applications id entry factory dependencies
        (entry.effectiveMode blueprint.defaultMode) accessor

/-- Every compiled accessor has its shape. -/
def Shaped (blueprint : Blueprint) (applications : List Application) (compiled : Compiled) : Prop :=
  ∀ id accessor, compiled id = some accessor → ∃ entry, blueprint.entries[id.index]? = some entry ∧
    blueprint.Shape applications compiled id entry entry.origin accessor

variable {blueprint : Blueprint} {applications : List Application} {state after : Memory × Compiled}

/-- A shape stays when more is compiled. -/
theorem Shape.mono {compiled compiled' : Compiled} {id : EntryId} {entry : Entry} {origin : Origin}
    {accessor : Accessor}
    (shape : blueprint.Shape applications compiled id entry origin accessor)
    (stays : ∀ id accessor, compiled id = some accessor → compiled' id = some accessor) :
    blueprint.Shape applications compiled' id entry origin accessor := by
  cases origin with
  | given handle => exact shape
  | made factory =>
    obtain ⟨dependencies, covers, works⟩ := shape
    exact ⟨dependencies, covers.imp fun _ _ fits => ⟨fits.1, stays _ _ fits.2⟩, works⟩
  | delegate target =>
    cases target with
    | entry target => exact stays _ _ shape
    | foreign imported => exact shape

/-- The shape of a compiled accessor, by the entry that it was compiled for. -/
theorem Shaped.shape {compiled : Compiled} (shaped : blueprint.Shaped applications compiled)
    {id : EntryId} {entry : Entry} {accessor : Accessor}
    (found : blueprint.entries[id.index]? = some entry) (known : compiled id = some accessor) :
    blueprint.Shape applications compiled id entry entry.origin accessor := by
  obtain ⟨other, place, shape⟩ := shaped id accessor known
  obtain rfl := Option.some.inj (found.symm.trans place)
  exact shape

/-- The accessor of an entry is that of the producer behind it, which is no delegate within the
assembly. -/
theorem Shaped.exists_producer {assembly : Assembly} {compiled : Compiled} {id : EntryId}
    {accessor : Accessor} (shaped : blueprint.Shaped applications compiled)
    (sound : blueprint.Sound assembly) (known : compiled id = some accessor) :
    ∃ entry, blueprint.entries[(producer blueprint.entries id).index]? = some entry ∧
      compiled (producer blueprint.entries id) = some accessor ∧
      blueprint.Shape applications compiled (producer blueprint.entries id) entry entry.origin
        accessor ∧
      ∀ target, entry.origin ≠ .delegate (.entry target) := by
  obtain ⟨entry, found, shape⟩ := shaped id accessor known
  by_cases shared : ∃ target, entry.origin = .delegate (.entry target)
  · obtain ⟨target, origin⟩ := shared
    obtain ⟨provider, place, -, apart⟩ := sound.delegated found origin
    have behind : producer blueprint.entries id = target := by simp [producer, found, origin]
    rw [origin] at shape
    rw [behind]
    refine ⟨provider, place, shape, shaped.shape place shape, fun further delegate => ?_⟩
    rw [provider.isDelegate_iff.mpr ⟨_, delegate⟩] at apart
    cases apart
  · have behind : producer blueprint.entries id = id := by
      unfold producer
      split
      · rename_i target delegates
        rw [found] at delegates
        exact absurd ⟨target, Option.some.inj delegates⟩ shared
      · rfl
    rw [behind]
    exact ⟨entry, found, known, shape, fun target origin => shared ⟨target, origin⟩⟩

/-- Every step gives its entry an accessor of the right shape. -/
theorem Step.shaped (step : blueprint.Step applications state after)
    (shaped : blueprint.Shaped applications state.2) : blueprint.Shaped applications after.2 := by
  have extended (id : EntryId) (accessor : Accessor) (known : state.2 id = some accessor) :
      after.2 id = some accessor := step.extends known
  intro id accessor known
  -- What was compiled before keeps its shape, and what is new has it.
  have added {other : EntryId} {new : Accessor} {entry : Entry} (new_or_old :
      (id = other ∧ accessor = new) ∨ state.2 id = some accessor)
      (found : blueprint.entries[other.index]? = some entry)
      (shape : blueprint.Shape applications state.2 other entry entry.origin new) :
      ∃ entry, blueprint.entries[id.index]? = some entry ∧
        blueprint.Shape applications after.2 id entry entry.origin accessor := by
    rcases new_or_old with ⟨rfl, rfl⟩ | old
    · exact ⟨entry, found, shape.mono extended⟩
    · obtain ⟨entry, found, shape⟩ := shaped id accessor old
      exact ⟨entry, found, shape.mono extended⟩
  cases step with
  | reported event =>
    obtain ⟨entry, found, shape⟩ := shaped id accessor known
    exact ⟨entry, found, shape.mono extended⟩
  | given fresh found origin =>
    exact added (Compiled.add_cases known) found (by rw [origin]; exact ⟨_, rfl⟩)
  | shared fresh found origin target =>
    exact added (Compiled.add_cases known) found (by rw [origin]; exact target)
  | imported fresh found origin =>
    exact added (Compiled.add_cases known) found (by rw [origin]; rfl)
  | constant prepares invoked =>
    apply added (Compiled.add_cases known) prepares.found
    rw [prepares.origin]
    refine ⟨_, prepares.covers, ?_⟩
    rw [prepares.mode]
    exact ⟨_, _, _, _, rfl, invoked⟩
  | lazy prepares =>
    apply added (Compiled.add_cases known) prepares.found
    rw [prepares.origin]
    refine ⟨_, prepares.covers, ?_⟩
    rw [prepares.mode]
    exact ⟨_, rfl⟩
  | prototype prepares =>
    apply added (Compiled.add_cases known) prepares.found
    rw [prepares.origin]
    refine ⟨_, prepares.covers, ?_⟩
    rw [prepares.mode]
    exact ⟨_, rfl⟩

/-- Everything that is compiled from nothing has its shape. -/
theorem Steps.shaped {memory : Memory}
    (steps : blueprint.Steps applications (memory, Compiled.empty) after) :
    blueprint.Shaped applications after.2 := by
  induction steps with
  | refl => exact fun _ _ known => nomatch known
  | tail _ step ih => exact step.shaped ih

end Blueprint

end Wiring
