import Wiring.Proofs.Progress

/-!
Producers have accessors of their own. A provider gets an accessor with a number that nothing had
before it; a delegate takes an accessor that is there already. So two producers never share an
accessor, with each other or with a built pool.
-/

namespace Wiring.Blueprint

variable {blueprint : Blueprint} {assembly : Assembly} {applications : List Application}
  {spent : Nat → Prop} {base : Accessor → Prop} {state after : Memory × Compiled}
  {compiled : Compiled} {id : EntryId} {entry : Entry} {accessor : Accessor}

/-- The accessor was made for the entry, which delegates to no other one. -/
structure Owns (blueprint : Blueprint) (compiled : Compiled) (id : EntryId) (accessor : Accessor) :
    Prop where
  known : compiled id = some accessor
  direct : ∃ entry, blueprint.entries[id.index]? = some entry ∧ entry.isDelegate = false

/-- No producer shares its accessor with a built pool or with another producer. -/
structure Apart (blueprint : Blueprint) (base : Accessor → Prop) (compiled : Compiled) : Prop where
  foreign : ∀ {id accessor other}, blueprint.Owns compiled id accessor → base other →
    accessor.id ≠ other.id
  own : ∀ {left right first second}, blueprint.Owns compiled left first →
    blueprint.Owns compiled right second → first.id = second.id → left = right

theorem apart_empty (blueprint : Blueprint) (base : Accessor → Prop) :
    blueprint.Apart base Compiled.empty where
  foreign owns := nomatch owns.known
  own owns := nomatch owns.known

theorem Owns.add_cases {other : EntryId} {found : Accessor}
    (owns : blueprint.Owns (compiled.add id accessor) other found) :
    (other = id ∧ found = accessor) ∨ blueprint.Owns compiled other found :=
  (Compiled.add_cases owns.known).imp_right fun known => ⟨known, owns.direct⟩

/-- An accessor with a new number is compiled. -/
theorem Apart.make (apart : blueprint.Apart base compiled)
    (new : ∀ other, compiled.Gathers base other → other.id ≠ accessor.id) :
    blueprint.Apart base (compiled.add id accessor) where
  foreign owns member := by
    rcases owns.add_cases with ⟨-, rfl⟩ | owned
    · exact (new _ (.inl member)).symm
    · exact apart.foreign owned member
  own owns owns' same := by
    rcases owns.add_cases with ⟨rfl, rfl⟩ | owned
    · rcases owns'.add_cases with ⟨rfl, -⟩ | owned'
      · rfl
      · exact absurd same.symm (new _ (.inr ⟨_, owned'.known⟩))
    · rcases owns'.add_cases with ⟨rfl, rfl⟩ | owned'
      · exact absurd same (new _ (.inr ⟨_, owned.known⟩))
      · exact apart.own owned owned' same

/-- A delegate is compiled. -/
theorem Apart.share (apart : blueprint.Apart base compiled)
    (found : blueprint.entries[id.index]? = some entry) (delegates : entry.isDelegate = true) :
    blueprint.Apart base (compiled.add id accessor) := by
  have before {other : EntryId} {accessor' : Accessor}
      (owns : blueprint.Owns (compiled.add id accessor) other accessor') :
      blueprint.Owns compiled other accessor' := by
    rcases owns.add_cases with ⟨rfl, -⟩ | owned
    · obtain ⟨provider, place, direct⟩ := owns.direct
      obtain rfl := Option.some.inj (found.symm.trans place)
      rw [delegates] at direct
      cases direct
    · exact owned
  exact ⟨fun owns => apart.foreign (before owns),
    fun owns owns' => apart.own (before owns) (before owns')⟩

/-- Every step keeps the producers apart. -/
theorem Step.apart (step : blueprint.Step applications state after)
    (grounded : blueprint.Grounded assembly applications spent base)
    (progress : blueprint.Progress spent base state) (apart : blueprint.Apart base state.2) :
    blueprint.Apart base after.2 := by
  have new {memory : Memory} {compiled : Compiled}
      (arena : Arena spent (compiled.Gathers base) memory) (other : Accessor)
      (gathers : compiled.Gathers base other) : other.id ≠ ⟨memory.accessors⟩ := by
    intro same
    have low := arena.numbered other gathers
    rw [same] at low
    exact Nat.lt_irrefl _ low
  cases step with
  | reported event => exact apart
  | given fresh found origin => exact apart.make (new progress.arena)
  | shared fresh found origin known =>
    exact apart.share found ((Entry.isDelegate_iff _).mpr ⟨_, origin⟩)
  | imported fresh found origin =>
    exact apart.share found ((Entry.isDelegate_iff _).mpr ⟨_, origin⟩)
  | lazy prepares => exact apart.make (new progress.arena)
  | prototype prepares => exact apart.make (new progress.arena)
  | constant prepares invoked =>
    -- The number is taken in the memory that the invocation left, where the arena still holds.
    have passes := (progress.respected_invocation grounded prepares _ progress.arena).of_value
      invoked
    exact apart.make (new passes.1.1)

/-- Everything that is compiled from nothing keeps the producers apart. -/
theorem Steps.apart {memory : Memory}
    (steps : blueprint.Steps applications (memory, Compiled.empty) after)
    (grounded : blueprint.Grounded assembly applications spent base)
    (arena : Arena spent base memory) : blueprint.Apart base after.2 := by
  induction steps with
  | refl => exact blueprint.apart_empty base
  | tail steps step ih =>
    exact step.apart grounded (Steps.progress steps grounded (.start arena)) ih

end Wiring.Blueprint
