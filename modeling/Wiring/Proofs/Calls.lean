import Wiring.Proofs.Tallies
import Wiring.Proofs.Works
import Wiring.Stock

/-!
How often the factories of an assembly are called. A constant factory is called exactly once, by
the build; a lazy one is called at most once, whoever asks for its value and however often; and a
reading of a prototype calls its factory once, when all dependencies can be read.
-/

namespace Wiring

open Relation

theorem Memory.latched_none (memory : Memory) : memory.Latched none := nofun

namespace Blueprint

variable {blueprint : Blueprint} {assembly : Assembly} {applications : List Application}
  {spent : Nat → Prop} {base : Accessor → Prop} {state after : Memory × Compiled} {id : EntryId}
  {entry : Entry} {factory : Factory} {dependencies : List (Key × Accessor)}

/-- How often the factory of an entry was called, depending on how far its entry has come. -/
inductive Tallied (blueprint : Blueprint) (id : EntryId) (base : Accessor → Prop)
    (state : Memory × Compiled) : InstantiationMode → Prop
  /-- The entry is not compiled, and the factory was not called. -/
  | pending {mode : InstantiationMode} (fresh : state.2 id = none)
      (tallies : Ward.Tallies (blueprint.factoryOf id) none base state)
      (uncalled : state.1.calls (blueprint.factoryOf id) = 0) : Tallied blueprint id base state mode
  /-- The factory was called for a constant. -/
  | made {accessor : Accessor} (known : state.2 id = some accessor)
      (tallies : Ward.Tallies (blueprint.factoryOf id) none base state)
      (called : state.1.calls (blueprint.factoryOf id) = 1) :
      Tallied blueprint id base state .constant
  /-- Only a lazy accessor can call the factory. -/
  | deferred {accessor : Accessor} (known : state.2 id = some accessor)
      (lazily : accessor.mode = .lazy)
      (tallies : Ward.Tallies (blueprint.factoryOf id) (some accessor) base state) :
      Tallied blueprint id base state .lazy

/-- No other entry has the factory of this one. -/
theorem producerOf_ne {other : EntryId} (different : other ≠ id) :
    (blueprint.producerOf other entry factory).factory ≠ blueprint.factoryOf id := by
  intro same
  apply different
  cases other
  cases id
  simpa [producerOf] using same

/-- The invocation of the factory of a constant that was not called before calls it at most once,
and exactly once when it gives a value. -/
theorem tallied_invocation (grounded : blueprint.Grounded assembly applications spent base)
    (progress : blueprint.Progress spent base state)
    (prepares : blueprint.Prepares .constant state.2 id entry factory dependencies)
    (tallies : Ward.Tallies (blueprint.factoryOf id) none base state)
    (uncalled : state.1.calls (blueprint.factoryOf id) = 0) :
    Attempt.Yields (blueprint.invocation applications id entry factory dependencies) state.1
      (fun _ after => (Discipline.tally (blueprint.factoryOf id) none).holds after ∧
        state.1.accessors ≤ after.accessors ∧ after.Latched none ∧
        after.calls (blueprint.factoryOf id) = 1)
      (fun _ after => (Discipline.tally (blueprint.factoryOf id) none).holds after ∧
        state.1.accessors ≤ after.accessors ∧ after.Latched none)
      (fun after => (Discipline.tally (blueprint.factoryOf id) none).holds after ∧
        state.1.accessors ≤ after.accessors ∧ after.Latched none) := by
  have ward := Discipline.tally_ward_unowned (blueprint.factoryOf id)
  have closed := progress.closed_gathers grounded.closed
  have governs := ward.governs.mono tallies.guarded
  have covered := progress.covered (grounded.sound.linked prepares.found prepares.origin)
    prepares.covers
  have yields := Discipline.tally_invoke (governs.surrounded trivial closed state.1.depth)
    (fun dependency member => governs.respected_read trivial closed state.1.depth dependency.2
      (covered dependency member).1)
    (show (blueprint.producerOf id entry factory).factory = blueprint.factoryOf id from rfl)
    state.1.latched_none uncalled
  unfold Attempt.Yields at yields ⊢
  rw [invocation_apply]
  exact yields

/-- The step that compiles the entry of a factory: a constant is called, and a lazy accessor is the
only one that can call it later. -/
theorem Tallied.compile (grounded : blueprint.Grounded assembly applications spent base)
    (progress : blueprint.Progress spent base state)
    (found : blueprint.entries[id.index]? = some entry) (origin : entry.origin = .made factory)
    (shared : entry.effectiveMode blueprint.defaultMode ≠ .prototype)
    (fresh : state.2 id = none)
    (tallies : Ward.Tallies (blueprint.factoryOf id) none base state)
    (uncalled : state.1.calls (blueprint.factoryOf id) = 0)
    (step : blueprint.Step applications state after) {accessor : Accessor}
    (known : after.2 id = some accessor) :
    blueprint.Tallied id base after (entry.effectiveMode blueprint.defaultMode) := by
  have ward := Discipline.tally_ward_unowned (blueprint.factoryOf id)
  -- The step is about this entry.
  have here {compiled : Compiled} {other : EntryId} {added : Accessor}
      (fresh : compiled id = none) (known : compiled.add other added id = some accessor) :
      id = other := by
    rcases Compiled.add_cases known with ⟨same, -⟩ | old
    · exact same
    · rw [fresh] at old
      cases old
  cases step with
  | reported event =>
    rw [fresh] at known
    cases known
  | given _ place other =>
    obtain rfl := here fresh known
    obtain rfl := Option.some.inj (found.symm.trans place)
    rw [origin] at other
    cases other
  | shared _ place other _ =>
    obtain rfl := here fresh known
    obtain rfl := Option.some.inj (found.symm.trans place)
    rw [origin] at other
    cases other
  | imported _ place other =>
    obtain rfl := here fresh known
    obtain rfl := Option.some.inj (found.symm.trans place)
    rw [origin] at other
    cases other
  | prototype prepares =>
    obtain rfl := here fresh known
    obtain rfl := Option.some.inj (found.symm.trans prepares.found)
    exact absurd prepares.mode shared
  | lazy prepares =>
    rename_i memory compiled other place maker dependencies
    obtain rfl := here fresh known
    obtain rfl := Option.some.inj (found.symm.trans prepares.found)
    rw [prepares.mode]
    refine .deferred (Compiled.add_self _ _ _) rfl
      ⟨fun other gathers producer makes own => ?_, ?_, Nat.zero_le _⟩
    · rcases (Compiled.gathers_add fresh).mp gathers with old | rfl
      · have unowned := tallies.guarded other old producer makes own
        cases unowned
      · rfl
    · have zero : (memory.countAccessor.report (.entryCompiled entry.key .lazy)).calls
          (blueprint.factoryOf id) = 0 := uncalled
      exact ⟨Nat.le_trans (Nat.le_of_eq zero) (Nat.zero_le 1), fun _ => zero⟩
  | constant prepares invoked =>
    rename_i memory middle compiled other place maker dependencies handle
    obtain rfl := here fresh known
    obtain rfl := Option.some.inj (found.symm.trans prepares.found)
    obtain ⟨holds, -, -, once⟩ :=
      (tallied_invocation grounded progress prepares tallies uncalled).of_value invoked
    have left : Ward.Tallies (blueprint.factoryOf id) none base (middle, compiled) :=
      ⟨tallies.guarded, holds, Nat.zero_le _⟩
    have made := left.makeConstant ward fresh handle
    rw [prepares.mode]
    exact .made known ⟨made.2.guarded, made.2.holds, Nat.zero_le _⟩ once

/-- Every step of a compilation keeps the tally of a factory. -/
theorem Tallied.step (grounded : blueprint.Grounded assembly applications spent base)
    (progress : blueprint.Progress spent base state)
    (found : blueprint.entries[id.index]? = some entry) (origin : entry.origin = .made factory)
    (shared : entry.effectiveMode blueprint.defaultMode ≠ .prototype)
    (tallied : blueprint.Tallied id base state (entry.effectiveMode blueprint.defaultMode))
    (step : blueprint.Step applications state after) :
    blueprint.Tallied id base after (entry.effectiveMode blueprint.defaultMode) := by
  generalize mode : entry.effectiveMode blueprint.defaultMode = effective at tallied
  -- What is compiled already is not compiled again.
  have later {accessor : Accessor} (known : state.2 id = some accessor) {mode : InstantiationMode}
      {other : EntryId} {entry : Entry} {factory : Factory} {dependencies : List (Key × Accessor)}
      (prepares : blueprint.Prepares mode state.2 other entry factory dependencies) :
      (blueprint.producerOf other entry factory).factory ≠ blueprint.factoryOf id := by
    exact producerOf_ne (Compiled.ne_of_fresh prepares.fresh known).symm
  cases tallied with
  | pending fresh tallies uncalled =>
    cases known : after.2 id with
    | some accessor =>
      rw [← mode]
      exact compile grounded progress found origin shared fresh tallies uncalled step known
    | none =>
      obtain ⟨leads, kept⟩ := tallies.step (Discipline.tally_ward_unowned _) grounded progress
        step fun _ compiled => producerOf_ne (by rintro rfl; exact compiled known)
      exact .pending known kept ((leads.2 state.1.latched_none).2.trans uncalled)
  | made known tallies called =>
    obtain ⟨leads, kept⟩ := tallies.step (Discipline.tally_ward_unowned _) grounded progress
      step fun prepares _ => later known prepares
    exact .made (step.extends known) kept ((leads.2 state.1.latched_none).2.trans called)
  | deferred known lazily tallies =>
    have ward := Discipline.tally_ward (blueprint.factoryOf id) _ fun accessor owns =>
      Option.some.inj owns ▸ lazily
    obtain ⟨-, kept⟩ := tallies.step ward grounded progress step fun prepares _ =>
      later known prepares
    exact .deferred (step.extends known) lazily kept

/-- All steps of a compilation keep the tally of a factory. -/
theorem Tallied.steps (grounded : blueprint.Grounded assembly applications spent base)
    (progress : blueprint.Progress spent base state)
    (found : blueprint.entries[id.index]? = some entry) (origin : entry.origin = .made factory)
    (shared : entry.effectiveMode blueprint.defaultMode ≠ .prototype)
    (tallied : blueprint.Tallied id base state (entry.effectiveMode blueprint.defaultMode))
    (steps : blueprint.Steps applications state after) :
    blueprint.Tallied id base after (entry.effectiveMode blueprint.defaultMode) := by
  induction steps with
  | refl => exact tallied
  | tail steps step ih =>
    exact ih.step grounded (Steps.progress steps grounded progress) found origin shared step

end Blueprint

namespace Host

variable {host : Host} {assembly : Assembly} {index : Nat} {entry : Entry} {factory : Factory}

/-- A factory was not called before the build of its assembly. -/
theorem Sound.uncalled (sound : host.Sound) (current : host.assembly = some assembly)
    (index : Nat) : host.memory.calls ⟨assembly.number, index⟩ = 0 := by
  apply List.countP_eq_zero.mpr
  intro moment member call
  cases moment with
  | begun other => cases call
  | ended other => cases call
  | called other handed =>
    obtain rfl : other = ⟨assembly.number, index⟩ := by simpa [Moment.isCallOf] using call
    exact (sound.arena.handed _ handed member).1.2 assembly current rfl

/-- Nothing that a host knows works for a factory of the assembly that is being declared. -/
theorem Sound.spares (sound : host.Sound) (current : host.assembly = some assembly)
    {accessor : Accessor} (knows : host.Knows accessor) :
    accessor.Spares ⟨assembly.number, index⟩ none :=
  fun _ makes own =>
    absurd (congrArg FactoryId.assembly own) (sound.assembly_ne current knows makes)

/-- When a build has been announced no factory of the assembly was called. -/
theorem Sound.tallied (sound : host.Sound) (current : host.assembly = some assembly)
    (id : EntryId) (mode : InstantiationMode) :
    (assembly.blueprint assembly.survey).Tallied id host.Knows
      (assembly.announced host.memory, Compiled.empty) mode := by
  have uncalled : (assembly.announced host.memory).calls ⟨assembly.number, id.index⟩ = 0 := by
    unfold Memory.calls
    rw [(assembly.like_announced host.memory).history]
    exact sound.uncalled current id.index
  refine .pending rfl ⟨fun accessor gathers => ?_, ?_, Nat.zero_le _⟩ uncalled
  · exact sound.spares current (gathers.resolve_right nofun)
  · exact ⟨Nat.le_trans (Nat.le_of_eq uncalled) (Nat.zero_le 1), fun _ => uncalled⟩

/-- Every state of a compilation keeps the tally of a factory that is no prototype. -/
theorem Sound.tallied_steps (sound : host.Sound) (current : host.assembly = some assembly)
    (declared : assembly.entries[index]? = some entry) (origin : entry.origin = .made factory)
    (shared : entry.effectiveMode assembly.config.defaultMode ≠ .prototype)
    (accepted : assembly.survey.accepted = true) {state : Memory × Compiled}
    (steps : (assembly.blueprint assembly.survey).Steps host.applications
      (assembly.announced host.memory, Compiled.empty) state) :
    (assembly.blueprint assembly.survey).Tallied ⟨index⟩ host.Knows state
      (entry.effectiveMode assembly.config.defaultMode) :=
  Blueprint.Tallied.steps (sound.grounded current accepted) (.start (sound.announced assembly))
    (sound.found current declared) origin shared (sound.tallied current ⟨index⟩ _) steps

/-- Whatever comes of a constant, a factory that is no prototype was called at most once. -/
theorem Sound.tally_invoked (sound : host.Sound) (current : host.assembly = some assembly)
    (declared : assembly.entries[index]? = some entry) (origin : entry.origin = .made factory)
    (shared : entry.effectiveMode assembly.config.defaultMode ≠ .prototype)
    (accepted : assembly.survey.accepted = true) {state : Memory × Compiled}
    (steps : (assembly.blueprint assembly.survey).Steps host.applications
      (assembly.announced host.memory, Compiled.empty) state)
    {id : EntryId} {other : Entry} {maker : Factory} {dependencies : List (Key × Accessor)}
    (prepares : (assembly.blueprint assembly.survey).Prepares .constant state.2 id other maker
      dependencies) :
    (Discipline.tally ⟨assembly.number, index⟩ none).holds
      ((assembly.blueprint assembly.survey).invocation host.applications id other maker
        dependencies state.1).2 := by
  have grounded := sound.grounded current accepted
  have progress := sound.progress current accepted steps
  have tallied := sound.tallied_steps current declared origin shared accepted steps
  generalize entry.effectiveMode assembly.config.defaultMode = mode at tallied
  have later {accessor : Accessor} (known : state.2 ⟨index⟩ = some accessor) : id ≠ ⟨index⟩ := by
    rintro rfl
    rw [prepares.fresh] at known
    cases known
  cases tallied with
  | pending fresh tallies uncalled =>
    by_cases same : id = ⟨index⟩
    · subst same
      exact ((Blueprint.tallied_invocation grounded progress prepares tallies uncalled).mono
        (fun _ _ kept => kept.1) (fun _ _ kept => kept.1) fun _ kept => kept.1).after
    · exact (tallies.invoked (Discipline.tally_ward_unowned _) grounded progress prepares
        (Blueprint.producerOf_ne same)).1
  | made known tallies called =>
    exact (tallies.invoked (Discipline.tally_ward_unowned _) grounded progress prepares
      (Blueprint.producerOf_ne (later known))).1
  | deferred known lazily tallies =>
    have ward := Discipline.tally_ward ⟨assembly.number, index⟩ _ fun accessor owns =>
      Option.some.inj owns ▸ lazily
    have holds := (tallies.invoked ward grounded progress prepares
      (Blueprint.producerOf_ne (later known))).1
    exact ⟨holds.1, fun shut => absurd (Memory.latched_none _) shut⟩

/-- A build leaves a factory that is no prototype called at most once, and a constant exactly once
when it gives an application. Only a lazy accessor can call such a factory later. -/
theorem Sound.tallied_build (sound : host.Sound) (current : host.assembly = some assembly)
    (declared : assembly.entries[index]? = some entry) (origin : entry.origin = .made factory)
    (shared : entry.effectiveMode assembly.config.defaultMode ≠ .prototype) :
    Attempt.Yields (assembly.build host.applications) host.memory
      (fun application after => ∃ owner state,
        (∀ accessor, owner = some accessor → accessor.mode = .lazy) ∧
        (Discipline.tally ⟨assembly.number, index⟩ owner).holds after ∧
        assembly.Compiles host.applications host.memory application state ∧
        (∀ accessor, state.2.Gathers host.Knows accessor →
          accessor.Spares ⟨assembly.number, index⟩ owner) ∧
        (entry.effectiveMode assembly.config.defaultMode = .constant →
          owner = none ∧ after.calls ⟨assembly.number, index⟩ = 1))
      (fun _ after => (Discipline.tally ⟨assembly.number, index⟩ none).holds after)
      (fun after => (Discipline.tally ⟨assembly.number, index⟩ none).holds after) := by
  have announced : (Discipline.tally ⟨assembly.number, index⟩ none).holds
      (assembly.announced host.memory) := by
    cases sound.tallied current ⟨index⟩ .prototype with
    | pending fresh tallies uncalled => exact tallies.holds
  have absent : ∀ accessor : Accessor, none = some accessor → accessor.mode = .lazy := nofun
  have only {lazily : Accessor} (mode : lazily.mode = .lazy) :
      ∀ accessor, some lazily = some accessor → accessor.mode = .lazy :=
    fun accessor owns => Option.some.inj owns ▸ mode
  have finished {application : Application} {state : Memory × Compiled}
      {owner : Option Accessor} (lazily : ∀ accessor, owner = some accessor → accessor.mode = .lazy)
      (compiles : assembly.Compiles host.applications host.memory application state)
      (tallies : Ward.Tallies ⟨assembly.number, index⟩ owner host.Knows state) :
      (Discipline.tally ⟨assembly.number, index⟩ owner).Passes state.1
        (finishEach host.applications application assembly.installations state.1).2 :=
    tallies.finished (Discipline.tally_ward _ owner lazily) compiles
      ((sound.progress current compiles.accepted compiles.steps).closed_gathers host.closed)
  refine (Assembly.build_keeps (sound.wellFormed assembly current) announced
    fun accepted _ steps _ _ _ _ prepares =>
      sound.tally_invoked current declared origin shared accepted steps prepares).mono ?_
    (fun _ _ kept => kept) fun _ kept => kept
  intro application after yielded
  obtain ⟨state, compiles, finish⟩ := yielded
  have like := Assembly.like_of_finish finish
  have tallied := sound.tallied_steps current declared origin shared compiles.accepted
    compiles.steps
  obtain ⟨accessor, compiled⟩ :=
    compiles.declared (sound.wellFormed assembly current) declared
  generalize mode : entry.effectiveMode assembly.config.defaultMode = effective at tallied
  cases tallied with
  | pending fresh tallies uncalled =>
    rw [fresh] at compiled
    cases compiled
  | made known tallies called =>
    have passes := finished absent compiles tallies
    obtain ⟨holds, leads⟩ := passes.trans (Discipline.like _ like passes.1)
    refine ⟨none, state, absent, holds, compiles, tallies.guarded, fun _ => ⟨rfl, ?_⟩⟩
    exact (leads.2 state.1.latched_none).2.trans called
  | deferred known lazily tallies =>
    obtain ⟨holds, -⟩ := finished (only lazily) compiles tallies
    exact ⟨_, state, only lazily, (Discipline.like _ like holds).1, compiles, tallies.guarded,
      nofun⟩

/-- After a build the tally of a factory that is no prototype is kept for all that is built. -/
theorem Sound.covered_tally (sound : host.Sound) (current : host.assembly = some assembly)
    (declared : assembly.entries[index]? = some entry) (origin : entry.origin = .made factory)
    (shared : entry.effectiveMode assembly.config.defaultMode ≠ .prototype) :
    ∃ owner, (∀ accessor, owner = some accessor → accessor.mode = .lazy) ∧
      host.build.2.Covered (.tally ⟨assembly.number, index⟩ owner)
        (Accessor.Spares ⟨assembly.number, index⟩ owner) 0 ∧
      (entry.effectiveMode assembly.config.defaultMode = .constant →
        ∀ number application, host.build.1 = some (.application number application) →
          owner = none ∧ host.build.2.memory.calls ⟨assembly.number, index⟩ = 1) := by
  have yields := sound.tallied_build current declared origin shared
  unfold Attempt.Yields at yields
  unfold Host.build
  rw [current]
  dsimp only
  generalize assembly.build host.applications host.memory = result at yields ⊢
  obtain ⟨ending, after⟩ := result
  -- Without an application nothing new is known.
  have kept (holds : (Discipline.tally ⟨assembly.number, index⟩ none).holds after) :
      Covered ⟨host.begun, none, host.applications, after⟩ (.tally ⟨assembly.number, index⟩ none)
        (Accessor.Spares ⟨assembly.number, index⟩ none) 0 :=
    ⟨fun _ gathers => sound.spares current (gathers.resolve_right nofun), holds, Nat.zero_le _⟩
  cases ending with
  | error error => exact ⟨none, nofun, kept yields, fun _ _ _ => nofun⟩
  | panic message => exact ⟨none, nofun, kept yields, fun _ _ _ => nofun⟩
  | exhausted => exact ⟨none, nofun, kept yields, fun _ _ _ => nofun⟩
  | value application =>
    obtain ⟨owner, state, lazily, holds, compiles, spares, once⟩ := yields
    refine ⟨owner, lazily, ⟨fun accessor gathers => ?_, holds, Nat.zero_le _⟩,
      fun constant _ _ _ => once constant⟩
    obtain ⟨pool, entry, offers, held, within⟩ := gathers.resolve_right nofun
    exact spares accessor (sound.knows_build current compiles offers held within)

/-- In every run after a build, a factory that is no prototype was called at most once. -/
theorem Sound.calls_le_one (sound : host.Sound) (current : host.assembly = some assembly)
    (declared : assembly.entries[index]? = some entry) (origin : entry.origin = .made factory)
    (shared : entry.effectiveMode assembly.config.defaultMode ≠ .prototype) {later : Host}
    (leads : host.build.2.Leads later) :
    later.memory.calls ⟨assembly.number, index⟩ ≤ 1 := by
  obtain ⟨owner, lazily, covered, -⟩ := sound.covered_tally current declared origin shared
  have kept := covered.leads (Discipline.tally_ward _ owner lazily)
    (fun producer _ apart own => apart (by rw [own])) sound.build (sound.spent_build current) leads
  exact kept.2.holds.1

/-- In every run after a build that gave an application, a constant factory was called once. -/
theorem Sound.calls_eq_one (sound : host.Sound) (current : host.assembly = some assembly)
    (declared : assembly.entries[index]? = some entry) (origin : entry.origin = .made factory)
    (constant : entry.effectiveMode assembly.config.defaultMode = .constant) {number : Nat}
    {application : Application} (built : host.build.1 = some (.application number application))
    {later : Host} (leads : host.build.2.Leads later) :
    later.memory.calls ⟨assembly.number, index⟩ = 1 := by
  obtain ⟨owner, lazily, covered, once⟩ :=
    sound.covered_tally current declared origin (by simp [constant])
  obtain ⟨rfl, called⟩ := once constant number application built
  have kept := covered.leads (Discipline.tally_ward _ none lazily)
    (fun producer _ apart own => apart (by rw [own])) sound.build (sound.spent_build current) leads
  exact (kept.1.2 (Memory.latched_none _)).2.trans called

/-- The calls of factories in every run. No factory is called before the build of its assembly. A
build calls a constant factory at most once, and exactly once when it gives an application; nothing
that happens later calls it again. A lazy factory is called at most once, whatever the build comes
to and whatever is declared, built and asked for later. Each reading of a prototype calls its
factory itself exactly once when all dependencies can be read, and otherwise not at all. -/
theorem Reachable.calls_disciplined (reachable : host.Reachable)
    (current : host.assembly = some assembly) :
    (∀ index entry, assembly.entries[index]? = some entry → entry.isFactory = true →
      host.memory.calls ⟨assembly.number, index⟩ = 0 ∧
      ∀ later, host.build.2.Leads later →
        (entry.effectiveMode assembly.config.defaultMode = .constant →
          later.memory.calls ⟨assembly.number, index⟩ ≤ 1 ∧
          ∀ number application, host.build.1 = some (.application number application) →
            later.memory.calls ⟨assembly.number, index⟩ = 1) ∧
        (entry.effectiveMode assembly.config.defaultMode = .lazy →
          later.memory.calls ⟨assembly.number, index⟩ ≤ 1)) ∧
    ∀ applications depth id producer dependencies before, ∃ works, Moment.Whole works ∧
      (Accessor.read (surroundings applications depth) (.prototype id producer dependencies)
        before).2.history = before.history ++ works ∧
      Moment.outerCalls 0 works =
        match (Accessor.readEach (surroundings applications depth) producer.key dependencies
          (before.record (.begun producer.factory))).1 with
        | .value _ => [producer.factory]
        | .error _ => []
        | .panic _ => []
        | .exhausted => [] := by
  have sound := reachable.sound
  refine ⟨fun index entry declared makes => ⟨sound.uncalled current index, ?_⟩,
    Discipline.prototype_works⟩
  obtain ⟨factory, origin⟩ := entry.isFactory_iff.mp makes
  refine fun later leads => ⟨fun constant => ⟨?_, fun number application built => ?_⟩,
    fun deferred => ?_⟩
  · exact sound.calls_le_one current declared origin (by simp [constant]) leads
  · exact sound.calls_eq_one current declared origin constant built leads
  · exact sound.calls_le_one current declared origin (by simp [deferred]) leads

theorem calls_disciplined_sample :
    (sample.build.2.ask ⟨0, .root, false⟩ (.get (Key.of .u64) .u64 .keyed)).2.memory.calls
      ⟨Assembly.sample.number, 2⟩ = 1 := by
  obtain ⟨application, built⟩ := built_sample
  obtain ⟨entry, declared, facts⟩ : ∃ entry, Assembly.sample.entries[2]? = some entry ∧
      (entry.isFactory, entry.effectiveMode Assembly.sample.config.defaultMode) =
        (true, .constant) :=
    Option.map_eq_some_iff.mp (by decide +kernel)
  obtain ⟨makes, constant⟩ := Prod.mk.inj facts
  exact (((reachable_sample.calls_disciplined assembly_sample).1 2 entry declared makes).2 _
    (.single (.ask _ _ _))).1 constant |>.2 0 application built

end Host

end Wiring
