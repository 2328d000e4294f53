import Wiring.Proofs.Outcomes
import Wiring.Proofs.Wards

/-!
Observances: disciplines that are there for every family of accessors. A new accessor joins the
family with an empty cell, of which an observance says nothing. So an observance that every reading
keeps, also while bundles finish, outlasts what is compiled and every move of a host.
-/

namespace Wiring

open Relation

/-- A discipline for each family of accessors. It lets factories work, it holds of fewer accessors
where it holds of more, and it says nothing of an accessor that is new. -/
structure Observance where
  asks : (Accessor → Prop) → Discipline
  breaks : ∀ known, (asks known).breaks
  permits : ∀ known producer gives dependencies,
    (asks known).Permits producer gives dependencies
  fewer : ∀ {known fewer : Accessor → Prop} {memory : Memory},
    (∀ accessor, fewer accessor → known accessor) → (asks known).holds memory →
      (asks fewer).holds memory
  joins : ∀ {known more : Accessor → Prop} {new : Accessor} {memory : Memory},
    (∀ accessor, more accessor → known accessor ∨ accessor = new) →
      memory.cells new.id = .empty → (asks known).holds memory →
      (asks more).holds memory.countAccessor
  bare : ∀ memory, (asks fun _ => False).holds memory

/-- Among the applications every reading of a family keeps the observance. -/
def Observance.Prevails (observance : Observance) (applications : List Application) : Prop :=
  ∀ known, Family known → Closed applications known →
    (observance.asks known).Pervades applications known fun _ _ => True

variable {observance : Observance}

namespace Blueprint

variable {blueprint : Blueprint} {assembly : Assembly} {applications : List Application}
  {spent : Nat → Prop} {base : Accessor → Prop} {state after : Memory × Compiled}

/-- The accessors that are gathered in a compilation are a family. -/
theorem Progress.family (progress : blueprint.Progress spent base state)
    (grounded : blueprint.Grounded assembly applications spent base) :
    Family (state.2.Gathers base) :=
  progress.arena.family (progress.closed_gathers grounded.closed)

/-- Every step of a compilation keeps an observance that prevails. -/
theorem Step.heeds (step : blueprint.Step applications state after)
    (prevails : observance.Prevails applications)
    (grounded : blueprint.Grounded assembly applications spent base)
    (progress : blueprint.Progress spent base state)
    (holds : (observance.asks (state.2.Gathers base)).holds state.1) :
    (observance.asks (after.2.Gathers base)).holds after.1 := by
  have made {memory : Memory} {compiled : Compiled} {id : EntryId} {new : Accessor}
      (fresh : compiled id = none) (number : new.id = ⟨memory.accessors⟩)
      (arena : Arena spent (compiled.Gathers base) memory)
      (holds : (observance.asks (compiled.Gathers base)).holds memory) :
      (observance.asks ((compiled.add id new).Gathers base)).holds memory.countAccessor :=
    observance.joins (fun _ => (Compiled.gathers_add fresh).mp)
      (arena.untouched new.id (by rw [number])) holds
  have shared {memory : Memory} {compiled : Compiled} {id : EntryId} {accessor : Accessor}
      (fresh : compiled id = none) (known : compiled.Gathers base accessor)
      (holds : (observance.asks (compiled.Gathers base)).holds memory) :
      (observance.asks ((compiled.add id accessor).Gathers base)).holds memory := by
    apply observance.fewer _ holds
    intro other gathers
    rcases (Compiled.gathers_add fresh).mp gathers with old | rfl
    · exact old
    · exact known
  have reported {memory : Memory} {compiled : Compiled} (event : Event)
      (holds : (observance.asks (compiled.Gathers base)).holds memory) :
      (observance.asks (compiled.Gathers base)).holds (memory.report event) :=
    ((observance.asks _).like (memory.like_report event) holds).1
  cases step with
  | reported event => exact reported event holds
  | given fresh found origin => exact made fresh rfl progress.arena holds
  | shared fresh found origin known => exact shared fresh (.inr ⟨_, known⟩) holds
  | imported fresh found origin =>
    obtain ⟨imports, -⟩ := grounded.sound.foreign found origin
    exact shared fresh (.inl (grounded.imports _ imports).1) holds
  | lazy prepares => exact reported _ (made prepares.fresh rfl progress.arena holds)
  | prototype prepares => exact reported _ (made prepares.fresh rfl progress.arena holds)
  | constant prepares invoked =>
    have arena := (progress.respected_invocation grounded prepares _ progress.arena).of_value
      invoked
    have pervades := prevails _ (progress.family grounded)
      (progress.closed_gathers grounded.closed)
    have respected := progress.respects_of_pervades grounded (observance.breaks _) pervades
      prepares (observance.permits _ _ _ _)
    have kept := (respected _ holds).of_value invoked
    exact reported _ (made prepares.fresh rfl arena.1.1 kept.1.1)

/-- All steps of a compilation keep an observance that prevails. -/
theorem Steps.heeds (steps : blueprint.Steps applications state after)
    (prevails : observance.Prevails applications)
    (grounded : blueprint.Grounded assembly applications spent base)
    (progress : blueprint.Progress spent base state)
    (holds : (observance.asks (state.2.Gathers base)).holds state.1) :
    (observance.asks (after.2.Gathers base)).holds after.1 := by
  induction steps with
  | refl => exact holds
  | tail steps step ih =>
    exact step.heeds prevails grounded (Steps.progress steps grounded progress) ih

end Blueprint

namespace Host

variable {host after : Host} {assembly : Assembly}

/-- The memory of the host keeps the observance for all accessors that the host knows. -/
def Heeds (host : Host) (observance : Observance) : Prop :=
  (observance.asks host.Knows).holds host.memory

theorem Sound.family (sound : host.Sound) : Family host.Knows := sound.arena.family host.closed

theorem heeds_patient (patience : Nat) : (patient patience).Heeds observance := by
  apply observance.fewer _ (observance.bare _)
  intro accessor knows
  obtain ⟨pool, entry, ⟨application, member, -⟩, -, -⟩ := knows
  cases member

/-- The same pools, and a memory that keeps the observance. -/
theorem Heeds.of_same (same : after.applications = host.applications)
    (holds : (observance.asks host.Knows).holds after.memory) : after.Heeds observance := by
  apply observance.fewer _ holds
  intro accessor knows
  obtain ⟨pool, entry, ⟨application, member, has⟩, rest⟩ := knows
  rw [same] at member
  exact ⟨pool, entry, ⟨application, member, has⟩, rest⟩

/-- The observance is kept throughout the compilation of an assembly. -/
theorem Heeds.steps (heeds : host.Heeds observance)
    (prevails : observance.Prevails host.applications) (sound : host.Sound)
    (current : host.assembly = some assembly) (accepted : assembly.survey.accepted = true)
    {state : Memory × Compiled}
    (steps : (assembly.blueprint assembly.survey).Steps host.applications
      (assembly.announced host.memory, Compiled.empty) state) :
    (observance.asks (state.2.Gathers host.Knows)).holds state.1 := by
  apply steps.heeds prevails (sound.grounded current accepted) (.start (sound.announced assembly))
  have announced := (observance.asks host.Knows).like (assembly.like_announced host.memory) heeds
  exact observance.fewer (fun _ gathers => gathers.resolve_right nofun) announced.1

/-- Bundles that finish in a compiled application keep the observance. -/
theorem Heeds.finished (heeds : host.Heeds observance)
    (prevails : observance.Prevails host.applications) (sound : host.Sound)
    (current : host.assembly = some assembly) {application : Application}
    {state : Memory × Compiled}
    (compiles : assembly.Compiles host.applications host.memory application state)
    (joins : observance.Prevails (application.joining host.applications))
    (installations : List Installation) :
    (observance.asks (state.2.Gathers host.Knows)).holds
      (finishEach host.applications application installations state.1).2 := by
  have progress := sound.progress current compiles.accepted compiles.steps
  have serves := compiles.serves_of_pervades (joins _
    (progress.family (sound.grounded current compiles.accepted))
    (compiles.closed_joining (progress.closed_gathers host.closed)))
  exact ((Discipline.respected_finishEach serves (.inl (observance.breaks _))).passes
    (heeds.steps prevails sound current compiles.accepted compiles.steps)).1

/-- Whatever a build comes to, the observance is kept; also for what is new, when it prevails while
the bundles finish. -/
theorem Heeds.build_yields (heeds : host.Heeds observance)
    (prevails : observance.Prevails host.applications) (sound : host.Sound)
    (current : host.assembly = some assembly) :
    Attempt.Yields (assembly.build host.applications) host.memory
      (fun application after => observance.Prevails (application.joining host.applications) →
        ∃ state, assembly.Compiles host.applications host.memory application state ∧
          (observance.asks (state.2.Gathers host.Knows)).holds after)
      (fun _ after => (observance.asks host.Knows).holds after)
      (fun after => (observance.asks host.Knows).holds after) := by
  have announced := (observance.asks host.Knows).like (assembly.like_announced host.memory) heeds
  have fewer {compiled : Compiled} {memory : Memory}
      (holds : (observance.asks (compiled.Gathers host.Knows)).holds memory) :
      (observance.asks host.Knows).holds memory :=
    observance.fewer (fun _ knows => .inl knows) holds
  refine (Assembly.build_keeps (sound.wellFormed assembly current) announced.1 ?_).mono ?_
    (fun _ _ kept => kept) fun _ kept => kept
  · intro accepted state steps id entry factory dependencies prepares
    have progress := sound.progress current accepted steps
    have grounded := sound.grounded current accepted
    have respected := progress.respects_of_pervades grounded (observance.breaks _)
      (prevails _ (progress.family grounded) (progress.closed_gathers grounded.closed)) prepares
      (observance.permits _ _ _ _)
    exact fewer (respected.passes (heeds.steps prevails sound current accepted steps)).1
  · intro application after yielded joins
    obtain ⟨state, compiles, finish⟩ := yielded
    exact ⟨state, compiles, ((observance.asks _).like (Assembly.like_of_finish finish)
      (heeds.finished prevails sound current compiles joins _)).1⟩

/-- A build keeps the observance, when it prevails while the bundles finish. -/
theorem Heeds.build (heeds : host.Heeds observance)
    (prevails : observance.Prevails host.applications) (sound : host.Sound)
    (joins : ∀ application, host.build.2.applications = host.applications ++ [application] →
      observance.Prevails (application.joining host.applications)) :
    host.build.2.Heeds observance := by
  cases current : host.assembly with
  | none =>
    rw [build_eq, current]
    exact heeds
  | some assembly =>
    refine build_of_yields (motive := fun after =>
      (∀ application, after.applications = host.applications ++ [application] →
        observance.Prevails (application.joining host.applications)) → after.Heeds observance)
      current ((heeds.build_yields prevails sound current).mono ?_ (fun _ _ holds _ => holds)
        fun _ holds _ => holds) joins
    intro application after yielded joins
    obtain ⟨state, compiles, holds⟩ := yielded (joins application rfl)
    apply observance.fewer _ holds
    intro accessor knows
    obtain ⟨pool, entry, offers, among, within⟩ := knows
    exact sound.knows_build current compiles offers among within

/-- Every move keeps an observance that prevails among the applications before it, and while the
bundles of a new one finish. -/
theorem Heeds.moves (heeds : host.Heeds observance)
    (prevails : observance.Prevails host.applications) (sound : host.Sound)
    (joins : ∀ application, after.applications = host.applications ++ [application] →
      observance.Prevails (application.joining host.applications))
    (moves : host.Moves after) : after.Heeds observance := by
  cases moves with
  | start config => exact heeds
  | addScope name parent =>
    exact .of_same (declare_applications _ _)
      ((observance.asks host.Knows).like (declare_like _ _) heeds).1
  | declare scope declaration draws =>
    exact .of_same (declare_applications _ _)
      ((observance.asks host.Knows).like (declare_like _ _) heeds).1
  | build => exact heeds.build prevails sound joins
  | ask path query =>
    rw [ask_eq]
    cases place : path.resolve? host.applications with
    | none => exact heeds
    | some pool =>
      have serves : (observance.asks host.Knows).Serves host.applications (fun _ _ => True) pool :=
        fun _ entry found => (prevails _ sound.family host.closed).respected_value entry.accessor
          (knows_of_find? (offers_of_resolve? place) found)
      exact ((serves.respected_answer query).passes heeds).1
  | collect =>
    have cleared : host.memory.Like host.memory.cleared := ⟨rfl, rfl, rfl⟩
    refine .of_same ?_ ((observance.asks host.Knows).like cleared heeds).1
    rfl

/-- Every reachable host keeps an observance that prevails among all applications. -/
theorem Reachable.heeds (reachable : host.Reachable)
    (prevails : ∀ applications, observance.Prevails applications) : host.Heeds observance := by
  apply reachable.induct
  · exact heeds_patient
  · intro before after sound moves heeds
    exact heeds.moves (prevails before.applications) sound (fun _ _ => prevails _) moves

end Host

end Wiring
