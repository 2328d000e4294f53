import Wiring.Proofs.Reaching

/-!
Wards: disciplines that every later run keeps. A ward guards some of the accessors, admits the
producers whose invocations its discipline permits, and takes in each new accessor that is made
with admitted producers. So it outlasts every compilation, and every move of a host.
-/

namespace Wiring

open Relation

/-- A discipline that outlasts what is built later: accessors from the bound on are guarded when
their producers are admitted. -/
structure Ward (discipline : Discipline) (gives : Accessor → Instance → Prop)
    (guards : Accessor → Prop) (admits : Producer → List (Key × Accessor) → Prop) (bound : Nat) :
    Prop where
  breaks : discipline.breaks
  governs : discipline.Governs guards gives
  permits : ∀ producer dependencies, admits producer dependencies →
    (∀ dependency ∈ dependencies, guards dependency.2) →
    discipline.Permits producer (fun dependency => gives dependency.2) dependencies
  joins : ∀ accessor : Accessor, bound ≤ accessor.id.number →
    (∀ dependency ∈ accessor.dependencies, guards dependency.2) →
    (∀ producer, accessor.producer? = some producer → admits producer accessor.dependencies) →
    guards accessor
  counts : ∀ memory, discipline.holds memory → discipline.Passes memory memory.countAccessor
  grows : ∀ before after : Memory, discipline.leads before after → before.Grows after

namespace Discipline

variable {discipline : Discipline} {gives : Accessor → Instance → Prop}

theorem Governs.mono {known fewer : Accessor → Prop} (governs : discipline.Governs known gives)
    (within : ∀ accessor, fewer accessor → known accessor) : discipline.Governs fewer gives :=
  fun accessor member => governs accessor (within accessor member)

end Discipline

namespace Ward

open Blueprint

variable {discipline : Discipline} {gives : Accessor → Instance → Prop} {guards : Accessor → Prop}
  {admits : Producer → List (Key × Accessor) → Prop} {bound : Nat}
  {blueprint : Blueprint} {assembly : Assembly} {applications : List Application}
  {spent : Nat → Prop} {base : Accessor → Prop} {state after : Memory × Compiled}

/-- The ward guards everything that is compiled, and its discipline holds. -/
structure Covers (discipline : Discipline) (guards : Accessor → Prop) (bound : Nat)
    (base : Accessor → Prop) (state : Memory × Compiled) : Prop where
  guarded : ∀ accessor, state.2.Gathers base accessor → guards accessor
  holds : discipline.holds state.1
  low : bound ≤ state.1.accessors

/-- An accessor that is known already is given to one more entry. -/
theorem Covers.share (covers : Covers discipline guards bound base state) {id : EntryId}
    {accessor : Accessor} (fresh : state.2 id = none) (gathers : state.2.Gathers base accessor) :
    Covers discipline guards bound base (state.1, state.2.add id accessor) := by
  refine ⟨fun other added => ?_, covers.holds, covers.low⟩
  rcases (Compiled.gathers_add fresh).mp added with old | rfl
  · exact covers.guarded other old
  · exact covers.guarded _ gathers

/-- A new accessor of admitted producers is guarded. -/
theorem Covers.make (ward : Ward discipline gives guards admits bound)
    (covers : Covers discipline guards bound base state) {id : EntryId} {accessor : Accessor}
    (fresh : state.2 id = none) (number : accessor.id = ⟨state.1.accessors⟩)
    (gathered : ∀ dependency ∈ accessor.dependencies, state.2.Gathers base dependency.2)
    (admitted : ∀ producer, accessor.producer? = some producer →
      admits producer accessor.dependencies) :
    discipline.leads state.1 state.1.countAccessor ∧
      Covers discipline guards bound base (state.1.countAccessor, state.2.add id accessor) := by
  obtain ⟨holds, leads⟩ := ward.counts _ covers.holds
  refine ⟨leads, fun other added => ?_, holds, covers.low.trans (ward.grows _ _ leads)⟩
  rcases (Compiled.gathers_add fresh).mp added with old | rfl
  · exact covers.guarded other old
  · refine ward.joins other ?_
      (fun dependency member => covers.guarded _ (gathered dependency member)) admitted
    rw [number]
    exact covers.low

/-- A new constant is guarded, as it has no producer any more. -/
theorem Covers.makeConstant (ward : Ward discipline gives guards admits bound)
    (covers : Covers discipline guards bound base state) {id : EntryId}
    (fresh : state.2 id = none) (handle : Instance) :
    discipline.leads state.1 state.1.countAccessor ∧
      Covers discipline guards bound base
        (state.1.countAccessor, state.2.add id (.constant ⟨state.1.accessors⟩ handle)) := by
  apply covers.make ward fresh rfl
  · intro _ member
    cases member
  · intro _ makes
    cases makes

/-- Every step of a compilation keeps what it covers, when its factories are admitted. -/
theorem Covers.step (ward : Ward discipline gives guards admits bound)
    (covers : Covers discipline guards bound base state)
    (grounded : blueprint.Grounded assembly applications spent base)
    (progress : blueprint.Progress spent base state)
    (step : blueprint.Step applications state after)
    (admitted : ∀ {mode : InstantiationMode} {id : EntryId} {entry : Entry} {factory : Factory}
      {dependencies : List (Key × Accessor)},
      blueprint.Prepares mode state.2 id entry factory dependencies → after.2 id ≠ none →
        admits (blueprint.producerOf id entry factory) dependencies) :
    discipline.leads state.1 after.1 ∧ Covers discipline guards bound base after := by
  have reported {memory : Memory} {compiled : Compiled} (event : Event)
      (covers : discipline.leads state.1 memory ∧
        Covers discipline guards bound base (memory, compiled)) :
      discipline.leads state.1 (memory.report event) ∧
        Covers discipline guards bound base (memory.report event, compiled) := by
    obtain ⟨led, guarded, holds, low⟩ := covers
    obtain ⟨held, leads⟩ := discipline.like (memory.like_report event) holds
    exact ⟨discipline.trans led leads, guarded, held, low⟩
  have compiled (compiled : Compiled) (id : EntryId) (accessor : Accessor) :
      compiled.add id accessor id ≠ none := by
    simp
  cases step with
  | reported event => exact reported event ⟨discipline.refl _, covers⟩
  | given fresh found origin => exact covers.makeConstant ward fresh _
  | shared fresh found origin known =>
    exact ⟨discipline.refl _, covers.share fresh (.inr ⟨_, known⟩)⟩
  | imported fresh found origin =>
    obtain ⟨imports, -⟩ := grounded.sound.foreign found origin
    exact ⟨discipline.refl _, covers.share fresh (.inl (grounded.imports _ imports).1)⟩
  | lazy prepares =>
    have covered := progress.covered (grounded.sound.linked prepares.found prepares.origin)
      prepares.covers
    refine reported _ (covers.make ward prepares.fresh rfl
      (fun dependency member => (covered dependency member).1) ?_)
    intro _ same
    cases same
    exact admitted prepares (compiled _ _ _)
  | prototype prepares =>
    have covered := progress.covered (grounded.sound.linked prepares.found prepares.origin)
      prepares.covers
    refine reported _ (covers.make ward prepares.fresh rfl
      (fun dependency member => (covered dependency member).1) ?_)
    intro _ same
    cases same
    exact admitted prepares (compiled _ _ _)
  | constant prepares invoked =>
    rename_i memory middle others id entry factory dependencies handle
    have covered := progress.covered (grounded.sound.linked prepares.found prepares.origin)
      prepares.covers
    have permits := ward.permits _ dependencies (admitted prepares (compiled _ _ _))
      fun dependency member => covers.guarded _ (covered dependency member).1
    have respected := progress.respects grounded ward.breaks
      (ward.governs.mono covers.guarded) prepares permits
    obtain ⟨⟨held, leads⟩, -⟩ := (respected memory covers.holds).of_value invoked
    have covers : Covers discipline guards bound base (middle, others) :=
      ⟨covers.guarded, held, covers.low.trans (ward.grows _ _ leads)⟩
    have made := covers.makeConstant ward prepares.fresh handle
    exact reported _ ⟨discipline.trans leads made.1, made.2⟩

/-- All steps of a compilation keep what it covers, when every factory is admitted. -/
theorem Covers.steps (ward : Ward discipline gives guards admits bound)
    (covers : Covers discipline guards bound base state)
    (grounded : blueprint.Grounded assembly applications spent base)
    (progress : blueprint.Progress spent base state)
    (admitted : ∀ {mode : InstantiationMode} {compiled : Compiled} {id : EntryId} {entry : Entry}
      {factory : Factory} {dependencies : List (Key × Accessor)},
      blueprint.Prepares mode compiled id entry factory dependencies →
        admits (blueprint.producerOf id entry factory) dependencies)
    (steps : blueprint.Steps applications state after) :
    discipline.leads state.1 after.1 ∧ Covers discipline guards bound base after := by
  induction steps with
  | refl => exact ⟨discipline.refl _, covers⟩
  | tail steps step ih =>
    obtain ⟨led, covers⟩ := ih
    obtain ⟨onward, kept⟩ := covers.step ward grounded (Steps.progress steps grounded progress) step
      fun prepares _ => admitted prepares
    exact ⟨discipline.trans led onward, kept⟩

/-- An admitted constant keeps the discipline, whatever comes of its invocation. -/
theorem Covers.invoked (ward : Ward discipline gives guards admits bound)
    (covers : Covers discipline guards bound base state)
    (grounded : blueprint.Grounded assembly applications spent base)
    (progress : blueprint.Progress spent base state) {mode : InstantiationMode} {id : EntryId}
    {entry : Entry} {factory : Factory} {dependencies : List (Key × Accessor)}
    (prepares : blueprint.Prepares mode state.2 id entry factory dependencies)
    (admitted : admits (blueprint.producerOf id entry factory) dependencies) :
    discipline.Passes state.1
      (blueprint.invocation applications id entry factory dependencies state.1).2 := by
  have covered := progress.covered (grounded.sound.linked prepares.found prepares.origin)
    prepares.covers
  have permits := ward.permits _ dependencies admitted fun dependency member =>
    covers.guarded _ (covered dependency member).1
  exact (progress.respects grounded ward.breaks (ward.governs.mono covers.guarded) prepares
    permits).passes covers.holds

/-- The bundles of a compiled application keep the discipline when they finish. -/
theorem Covers.finished {memory : Memory} {application : Application}
    (ward : Ward discipline gives guards admits bound)
    (covers : Covers discipline guards bound base state)
    (compiles : assembly.Compiles applications memory application state)
    (closed : Closed applications (state.2.Gathers base)) :
    discipline.Passes state.1
      (finishEach applications application assembly.installations state.1).2 := by
  have serves := compiles.serves (ward.governs.mono covers.guarded) ward.breaks closed
  exact (Discipline.respected_finishEach serves (.inl ward.breaks)).passes covers.holds

/-- A change of the memory that the discipline allows. -/
theorem Covers.advance {memory : Memory} (ward : Ward discipline gives guards admits bound)
    (covers : Covers discipline guards bound base state)
    (passes : discipline.Passes state.1 memory) :
    Covers discipline guards bound base (memory, state.2) :=
  ⟨covers.guarded, passes.1, covers.low.trans (ward.grows _ _ passes.2)⟩

end Ward

namespace Host

variable {host : Host} {assembly : Assembly} {discipline : Discipline}
  {gives : Accessor → Instance → Prop} {guards : Accessor → Prop}
  {admits : Producer → List (Key × Accessor) → Prop} {bound number : Nat}

/-- The ward guards everything that the host knows, and its discipline holds. -/
abbrev Covered (host : Host) (discipline : Discipline) (guards : Accessor → Prop) (bound : Nat) :
    Prop :=
  Ward.Covers discipline guards bound host.Knows (host.memory, Compiled.empty)

theorem Covered.guarded (covered : host.Covered discipline guards bound) {accessor : Accessor}
    (knows : host.Knows accessor) : guards accessor :=
  Ward.Covers.guarded covered accessor (.inl knows)

/-- Whatever a build comes to, it keeps the discipline of a ward that admits its factories, and
the ward guards what is new. -/
theorem Covered.build_yields (ward : Ward discipline gives guards admits bound) (sound : host.Sound)
    (current : host.assembly = some assembly) (covered : host.Covered discipline guards bound)
    (admitted : assembly.survey.accepted = true →
      ∀ {mode : InstantiationMode} {compiled : Compiled} {id : EntryId} {entry : Entry}
      {factory : Factory} {dependencies : List (Key × Accessor)},
      (assembly.blueprint assembly.survey).Prepares mode compiled id entry factory dependencies →
        admits ((assembly.blueprint assembly.survey).producerOf id entry factory) dependencies) :
    Attempt.Yields (assembly.build host.applications) host.memory
      (fun application after => discipline.Passes host.memory after ∧ ∃ state,
        assembly.Compiles host.applications host.memory application state ∧
        ∀ accessor, state.2.Gathers host.Knows accessor → guards accessor)
      (fun _ after => discipline.Passes host.memory after)
      (fun after => discipline.Passes host.memory after) := by
  have announced : discipline.Passes host.memory (assembly.announced host.memory) :=
    discipline.like (assembly.like_announced host.memory) covered.holds
  have start := covered.advance ward announced
  have stepped (accepted : assembly.survey.accepted = true) {state : Memory × Compiled}
      (steps : (assembly.blueprint assembly.survey).Steps host.applications
        (assembly.announced host.memory, Compiled.empty) state) :
      discipline.Passes host.memory state.1 ∧
        Ward.Covers discipline guards bound host.Knows state := by
    obtain ⟨led, covers⟩ := start.steps ward (sound.grounded current accepted)
      (.start (sound.announced assembly)) (admitted accepted) steps
    exact ⟨announced.trans ⟨covers.holds, led⟩, covers⟩
  have finished {application : Application} {state : Memory × Compiled}
      (compiles : assembly.Compiles host.applications host.memory application state) :
      discipline.Passes host.memory
        (finishEach host.applications application assembly.installations state.1).2 := by
    obtain ⟨passes, covers⟩ := stepped compiles.accepted compiles.steps
    exact passes.trans (covers.finished ward compiles
      ((sound.progress current compiles.accepted compiles.steps).closed_gathers host.closed))
  refine (Assembly.build_keeps (sound.wellFormed assembly current) announced ?_).mono ?_
    (fun _ _ kept => kept) fun _ kept => kept
  · intro accepted state steps id entry factory dependencies prepares
    obtain ⟨passes, covers⟩ := stepped accepted steps
    exact passes.trans (covers.invoked ward (sound.grounded current accepted)
      (sound.progress current accepted steps) prepares (admitted accepted prepares))
  · intro application after yielded
    obtain ⟨state, compiles, finish⟩ := yielded
    have passes := finished compiles
    have like := Assembly.like_of_finish finish
    exact ⟨passes.trans (discipline.like like passes.1), state, compiles,
      (stepped compiles.accepted compiles.steps).2.guarded⟩

theorem declare_applications (host : Host) {α : Type} (declaring : Declaring α) :
    (host.declare declaring).2.applications = host.applications := by
  rw [declare_eq]
  cases host.assembly <;> rfl

/-- Only a build changes the applications. -/
theorem Moves.same_or_build {after : Host} (moves : host.Moves after) :
    after.applications = host.applications ∨ after = host.build.2 := by
  cases moves with
  | start config => exact .inl rfl
  | addScope name parent => exact .inl (declare_applications _ _)
  | declare scope declaration draws => exact .inl (declare_applications _ _)
  | build => exact .inr rfl
  | ask path query =>
    rw [ask_eq]
    cases path.resolve? host.applications <;> exact .inl rfl
  | collect => exact .inl rfl

theorem declare_like (host : Host) {α : Type} (declaring : Declaring α) :
    host.memory.Like (host.declare declaring).2.memory := by
  rw [declare_eq]
  cases host.assembly with
  | none => exact ⟨rfl, rfl, rfl⟩
  | some assembly => exact Assembly.like_foldl_report _ host.memory

/-- Declaring leaves a spent number spent. -/
theorem Sound.spent_declare (sound : host.Sound) {α : Type} {declaring : Declaring α}
    {given : α → Assembly → Prop}
    (keeps : ∀ assembly, assembly.WellFormed host.Offers →
      declaring.Keeps host.Offers (assembly, []) given) (spent : host.Spent number) :
    (host.declare declaring).2.Spent number := by
  rw [declare_eq]
  cases current : host.assembly with
  | none => exact spent
  | some assembly =>
    have advances : assembly.Advances host.Offers (declaring (assembly, [])).2.1 :=
      (Attempt.Yields.mono (keeps assembly (sound.wellFormed assembly current))
        (fun _ _ kept => kept.1) (fun _ _ kept => kept) fun _ kept => kept).after
    refine ⟨spent.1, ?_⟩
    intro _ same
    cases same
    rw [advances.number]
    exact spent.2 assembly current

/-- A spent number stays spent. -/
theorem Sound.spent_moves (sound : host.Sound) {after : Host} (spent : host.Spent number)
    (moves : host.Moves after) : after.Spent number := by
  cases moves with
  | start config =>
    refine ⟨Nat.lt_succ_of_lt spent.1, ?_⟩
    intro _ same
    cases same
    exact Nat.ne_of_gt spent.1
  | addScope name parent =>
    exact sound.spent_declare (fun _ wellFormed => Declaring.keeps_addScope wellFormed name parent)
      spent
  | declare scope declaration draws =>
    exact sound.spent_declare (fun _ wellFormed => keeps_declareIn wellFormed draws scope) spent
  | build =>
    rw [build_eq]
    cases host.assembly with
    | none => exact spent
    | some assembly => exact ⟨spent.1, nofun⟩
  | ask path query =>
    rw [ask_eq]
    cases path.resolve? host.applications with
    | none => exact spent
    | some pool => exact spent
  | collect => exact spent

/-- The number of an assembly is spent once it is built, whatever came of it. -/
theorem Sound.spent_build (sound : host.Sound) (current : host.assembly = some assembly) :
    host.build.2.Spent assembly.number := by
  rw [build_eq, current]
  exact ⟨sound.number assembly current, nofun⟩

/-- The same pools, and a memory that the discipline leads to. -/
theorem Covered.of_passes (ward : Ward discipline gives guards admits bound)
    (covered : host.Covered discipline guards bound) (after : Host)
    (same : after.applications = host.applications)
    (passes : discipline.Passes host.memory after.memory) :
    discipline.leads host.memory after.memory ∧ after.Covered discipline guards bound := by
  obtain ⟨guarded, holds, low⟩ := covered.advance ward passes
  refine ⟨passes.2, fun accessor gathers => ?_, holds, low⟩
  obtain ⟨pool, entry, ⟨application, member, has⟩, rest⟩ := gathers.resolve_right nofun
  rw [same] at member
  exact guarded accessor (.inl ⟨pool, entry, ⟨application, member, has⟩, rest⟩)

/-- A build keeps the discipline of a ward that admits its factories. -/
theorem Covered.build (ward : Ward discipline gives guards admits bound) (sound : host.Sound)
    (covered : host.Covered discipline guards bound)
    (admitted : ∀ assembly, host.assembly = some assembly → assembly.survey.accepted = true →
      ∀ {mode : InstantiationMode} {compiled : Compiled} {id : EntryId} {entry : Entry}
        {factory : Factory} {dependencies : List (Key × Accessor)},
        (assembly.blueprint assembly.survey).Prepares mode compiled id entry factory dependencies →
          admits ((assembly.blueprint assembly.survey).producerOf id entry factory) dependencies) :
    discipline.leads host.memory host.build.2.memory ∧
      host.build.2.Covered discipline guards bound := by
  cases current : host.assembly with
  | none =>
    rw [build_eq, current]
    exact ⟨discipline.refl _, covered⟩
  | some assembly =>
    have kept {memory : Memory} (passes : discipline.Passes host.memory memory) :
        discipline.leads host.memory memory ∧
          Covered ⟨host.begun, none, host.applications, memory⟩ discipline guards bound :=
      covered.of_passes ward ⟨_, none, _, memory⟩ rfl passes
    have yields := covered.build_yields ward sound current (admitted assembly current)
    refine build_of_yields current (motive := fun after : Host =>
      discipline.leads host.memory after.memory ∧ after.Covered discipline guards bound)
      (yields.mono ?_ (fun _ _ passes => kept passes) fun _ passes => kept passes)
    intro application after yielded
    obtain ⟨passes, state, compiles, guarded⟩ := yielded
    obtain ⟨-, holds, low⟩ := covered.advance ward passes
    refine ⟨passes.2, fun accessor gathers => ?_, holds, low⟩
    obtain ⟨pool, entry, offers, holds, within⟩ := gathers.resolve_right nofun
    exact guarded accessor (sound.knows_build current compiles offers holds within)

/-- Every move keeps the discipline of a ward, when a build does. -/
theorem Covered.moves_of_build (ward : Ward discipline gives guards admits bound)
    (covered : host.Covered discipline guards bound)
    (built : discipline.leads host.memory host.build.2.memory ∧
      host.build.2.Covered discipline guards bound) {after : Host} (moves : host.Moves after) :
    discipline.leads host.memory after.memory ∧ after.Covered discipline guards bound := by
  cases moves with
  | start config => exact covered.of_passes ward _ rfl ⟨covered.holds, discipline.refl _⟩
  | addScope name parent =>
    exact covered.of_passes ward _ (declare_applications _ _)
      (discipline.like (declare_like _ _) covered.holds)
  | declare scope declaration draws =>
    exact covered.of_passes ward _ (declare_applications _ _)
      (discipline.like (declare_like _ _) covered.holds)
  | build => exact built
  | ask path query =>
    rw [ask_eq]
    cases place : path.resolve? host.applications with
    | none => exact ⟨discipline.refl _, covered⟩
    | some pool =>
      have serves : discipline.Serves host.applications gives pool := fun key entry found =>
        (ward.governs.mono fun _ knows => covered.guarded knows).respected_value ward.breaks
          host.closed entry.accessor (knows_of_find? (offers_of_resolve? place) found)
      exact covered.of_passes ward _ rfl ((serves.respected_answer query).passes covered.holds)
  | collect => exact covered.of_passes ward _ rfl (discipline.like ⟨rfl, rfl, rfl⟩ covered.holds)

/-- Every move keeps the discipline of a ward, when it admits what other assemblies make. -/
theorem Covered.moves (ward : Ward discipline gives guards admits bound)
    (apart : ∀ producer dependencies, producer.factory.assembly ≠ number →
      admits producer dependencies)
    (sound : host.Sound) (spent : host.Spent number)
    (covered : host.Covered discipline guards bound) {after : Host} (moves : host.Moves after) :
    discipline.leads host.memory after.memory ∧ after.Covered discipline guards bound := by
  apply covered.moves_of_build ward _ moves
  apply covered.build ward sound
  intro assembly current _ _ _ _ _ _ _ _
  exact apart _ _ (spent.2 assembly current)

/-- Every later run keeps the discipline of a ward that admits what other assemblies make. -/
theorem Covered.leads (ward : Ward discipline gives guards admits bound)
    (apart : ∀ producer dependencies, producer.factory.assembly ≠ number →
      admits producer dependencies)
    (sound : host.Sound) (spent : host.Spent number)
    (covered : host.Covered discipline guards bound) {after : Host} (leads : host.Leads after) :
    discipline.leads host.memory after.memory ∧ after.Covered discipline guards bound := by
  have kept : after.Sound ∧ after.Spent number ∧ discipline.leads host.memory after.memory ∧
      after.Covered discipline guards bound := by
    induction leads with
    | refl => exact ⟨sound, spent, discipline.refl _, covered⟩
    | tail _ moves ih =>
      obtain ⟨sound, spent, led, covered⟩ := ih
      obtain ⟨onward, kept⟩ := covered.moves ward apart sound spent moves
      exact ⟨sound.moves moves, sound.spent_moves spent moves, discipline.trans led onward, kept⟩
  exact kept.2.2

end Host

end Wiring
