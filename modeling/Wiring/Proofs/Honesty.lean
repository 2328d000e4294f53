import Wiring.Proofs.Customs

/-!
Honest memories. Whatever a host does, and whatever its other factories do, the memory remembers of
each pure accessor nothing but its outcome. Only a reading of the accessor itself fills its cell,
and no factory that asks others runs inside such a reading.
-/

namespace Wiring

/-- The cell of a pure accessor tells nothing but the outcome. -/
def Custom.outcomes : Custom where
  binds := Accessor.Pure
  allows accessor cell := cell.Tells accessor.outcome

/-- A reading of a pure accessor comes to its outcome, and is never broken off. -/
theorem Custom.lawful_outcomes (breaks : Prop) : Custom.outcomes.Lawful breaks where
  dependency _ pure _ member := pure.dependency member
  empty _ := trivial
  reads family _ member pure _ latches before steady :=
    (family.settles latches member pure before steady).mono (fun _ _ settled => settled.2)
      (fun _ _ settled => settled.2) fun _ never => never.elim

namespace Discipline

/-- What the memory remembers of the pure accessors of a family are their outcomes. -/
def honest (known : Accessor → Prop) (breaks : Prop) : Discipline where
  holds memory := ∀ accessor, known accessor → accessor.Pure → accessor.Faithful memory
  leads _ _ := True
  breaks := breaks
  refl _ := trivial
  trans _ _ := trivial
  like like holds := by
    refine ⟨fun accessor member pure => ?_, trivial⟩
    unfold Accessor.Faithful
    rw [like.cells]
    exact holds accessor member pure

variable {known : Accessor → Prop} {breaks : Prop}

theorem customary_outcomes (known : Accessor → Prop) (breaks : Prop) :
    customary Custom.outcomes known breaks = honest known breaks := rfl

/-- In an honest memory all that a pure accessor depends on is remembered rightly. -/
theorem steady_of_honest (family : Family known) {accessor : Accessor} (member : known accessor)
    (pure : accessor.Pure) {memory : Memory} (holds : (honest known breaks).holds memory) :
    accessor.Steady memory :=
  steady_of_customary (Custom.lawful_outcomes breaks) family member pure holds

/-- A reading of a pure accessor is never broken off. -/
theorem respected_pure_read (family : Family known) {accessor : Accessor} (member : known accessor)
    (pure : accessor.Pure) {surroundings : Surroundings}
    (latches : latching.Surrounded surroundings) :
    (honest known breaks).Respected (accessor.read surroundings) fun _ => True := by
  rw [← customary_outcomes]
  exact respected_bound_read (Custom.lawful_outcomes breaks) family member pure latches

end Discipline

/-- All steps of a compilation leave an honest memory. -/
theorem Blueprint.Steps.honest {blueprint : Blueprint} {assembly : Assembly}
    {applications : List Application} {spent : Nat → Prop} {base : Accessor → Prop}
    {state after : Memory × Compiled} (steps : blueprint.Steps applications state after)
    (grounded : blueprint.Grounded assembly applications spent base)
    (progress : blueprint.Progress spent base state)
    (honest : (Discipline.honest (state.2.Gathers base) True).holds state.1) :
    (Discipline.honest (after.2.Gathers base) True).holds after.1 :=
  steps.customary (Custom.lawful_outcomes True) grounded progress honest

namespace Host

variable {host : Host} {assembly : Assembly}

/-- The host remembers of each pure accessor that it knows nothing but its outcome. -/
def Honest (host : Host) : Prop := (Discipline.honest host.Knows True).holds host.memory

/-- The memory is honest throughout the compilation of an assembly. -/
theorem Honest.steps (honest : host.Honest) (sound : host.Sound)
    (current : host.assembly = some assembly) (accepted : assembly.survey.accepted = true)
    {state : Memory × Compiled}
    (steps : (assembly.blueprint assembly.survey).Steps host.applications
      (assembly.announced host.memory, Compiled.empty) state) :
    (Discipline.honest (state.2.Gathers host.Knows) True).holds state.1 := by
  have observes : host.Observes Custom.outcomes := honest
  exact observes.steps (Custom.lawful_outcomes True) sound current accepted steps

/-- Every reachable host is honest. -/
theorem Reachable.honest (reachable : host.Reachable) : host.Honest :=
  reachable.observes (Custom.lawful_outcomes True)

end Host

end Wiring
