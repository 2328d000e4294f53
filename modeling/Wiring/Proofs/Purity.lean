import Wiring.Proofs.Lookup
import Wiring.Proofs.Meanings
import Wiring.Stock

/-!
Value semantics. An assembly of pure factories is built exactly when its constants have values, and
every lookup in the application then answers with the meaning of the entry that is visible,
whatever was looked up, built or broken off before.
-/

namespace Wiring

open Relation

/-- The factories of an assembly are determined by the values of their dependencies, and what it
imports is pure. -/
structure Assembly.Pure (assembly : Assembly) : Prop where
  factories : ∀ (index : Nat) (entry : Entry) (factory : Factory),
    assembly.entries[index]? = some entry → entry.origin = .made factory →
      Behaviour.Determined factory.behaviour entry.key entry.dependencies
  imports : ∀ imported, assembly.Imports imported → imported.accessor.Pure

/-- Every accessor of the pool is pure. -/
def Pool.Pure (pool : Pool) : Prop := ∀ entry, pool.Holds entry → entry.accessor.Pure

/-- The entry is a factory that is called when the assembly is built. -/
structure Assembly.Constant (assembly : Assembly) (index : Nat) (entry : Entry) : Prop where
  declared : assembly.entries[index]? = some entry
  factory : ∃ factory, entry.origin = .made factory
  mode : entry.effectiveMode assembly.config.defaultMode = .constant

/-- What the entries of an assembly come to. -/
def Assembly.meaning (assembly : Assembly) (id : EntryId) : Outcome :=
  (assembly.blueprint assembly.survey).meaning id

/-- A lookup in the pool answers with the outcome, or finds nothing when there is none. -/
def Host.Answers (host : Host) (pool : Pool) (key : Key) (outcome : Option Outcome) : Prop :=
  ∃ answer after, pool.getInstance host.applications key host.memory = (.value answer, after) ∧
    answer.map Instance.value =
      match outcome with
      | none => .error (.notFound key)
      | some outcome => outcome.mapError LookupError.construction

namespace Assembly

variable {offered : Pool → Prop} {assembly : Assembly}

/-- The resolution of a pure assembly is pure. -/
theorem Pure.blueprint (pure : assembly.Pure) (wellFormed : assembly.WellFormed offered)
    (accepted : assembly.survey.accepted = true) :
    (assembly.blueprint assembly.survey).Pure where
  factories found origin :=
    pure.factories _ _ _ (declared_of_made wellFormed found origin) origin
  imports found origin :=
    pure.imports _ ((blueprint_sound wellFormed accepted).foreign found origin).1

end Assembly

namespace Host

variable {host : Host} {assembly : Assembly} {application : Application}
  {state : Memory × Compiled}

/-- The meaning of a resolved assembly solves the equations of its entries, and nothing else
does. -/
theorem Sound.denotes (sound : host.Sound) (current : host.assembly = some assembly)
    (accepted : assembly.survey.accepted = true) :
    (assembly.blueprint assembly.survey).Denotes assembly.meaning ∧
      ∀ outcomes, (assembly.blueprint assembly.survey).Denotes outcomes → ∀ id entry,
        (assembly.blueprint assembly.survey).entries[id.index]? = some entry →
          outcomes id = assembly.meaning id := by
  obtain ⟨rank, ranked⟩ :=
    Assembly.blueprint_ranked (sound.wellFormed assembly current) accepted
  have denotes := Blueprint.denotes_meaning ranked
  exact ⟨denotes, fun outcomes solves id entry found =>
    solves.unique ranked denotes (Nat.lt_succ_self _) found⟩

/-- The compiled accessors of a pure assembly come to the meanings of their entries. -/
theorem Honest.agrees (honest : host.Honest) (sound : host.Sound)
    (current : host.assembly = some assembly) (pure : assembly.Pure)
    (accepted : assembly.survey.accepted = true)
    (steps : (assembly.blueprint assembly.survey).Steps host.applications
      (assembly.announced host.memory, Compiled.empty) state) :
    state.2.Agrees assembly.meaning :=
  steps.agrees (pure.blueprint (sound.wellFormed assembly current) accepted)
    (sound.grounded current accepted) (sound.announced assembly)
    (honest.steps sound current accepted .refl) (sound.denotes current accepted).1

/-- The bundles of a pure application finish, when none of them panics by itself. -/
theorem Honest.finishes (honest : host.Honest) (sound : host.Sound)
    (current : host.assembly = some assembly) (pure : assembly.Pure)
    (calm : ∀ installation ∈ assembly.installations, installation.bundle.Calm)
    (compiles : assembly.Compiles host.applications host.memory application state) :
    (finishEach host.applications application assembly.installations).Yields state.1
      (fun _ _ => True) (fun _ _ => False) fun _ => False := by
  have progress := sound.progress current compiles.accepted compiles.steps
  have family := progress.family (sound.grounded current compiles.accepted)
  have agrees := honest.agrees sound current pure compiles.accepted compiles.steps
  have serves (pool : Pool) (member : pool ∈ application.pools) :
      (Discipline.honest (state.2.Gathers host.Knows) False).Serves
        (application.joining host.applications) (fun _ _ => True) pool := by
    intro key entry found
    obtain ⟨id, known⟩ := compiles.compiled (.inl member) (Pool.holds_of_find? found)
    exact Discipline.respected_at_depth _ (Accessor.value_apply _ entry.accessor)
      fun depth => Discipline.respected_pure_read family (.inr ⟨id, known⟩) (agrees id _ known).1
        (Discipline.latching_surrounded _ depth)
  have finished := Discipline.respected_finishEach serves (.inr calm) state.1
    (honest.steps sound current compiles.accepted compiles.steps)
  have unfailing :=
    finishEach_unfailing host.applications application assembly.installations state.1
  unfold Attempt.Yields at finished unfailing ⊢
  generalize finishEach host.applications application assembly.installations state.1 = result
    at finished unfailing ⊢
  obtain ⟨ending, after⟩ := result
  cases ending with
  | value done => trivial
  | error error => exact unfailing
  | panic message => exact finished.1
  | exhausted => exact finished.1

/-- A constant that was compiled has a value. -/
theorem Honest.exists_value (honest : host.Honest) (sound : host.Sound)
    (current : host.assembly = some assembly) (pure : assembly.Pure)
    (compiles : assembly.Compiles host.applications host.memory application state) {index : Nat}
    {entry : Entry} (constant : assembly.Constant index entry) :
    ∃ value, assembly.meaning ⟨index⟩ = .ok value := by
  obtain ⟨declared, ⟨factory, origin⟩, mode⟩ := constant
  have agrees := honest.agrees sound current pure compiles.accepted compiles.steps
  obtain ⟨accessor, known⟩ := compiles.declared (sound.wellFormed assembly current) declared
  have shape := compiles.steps.shaped.shape (sound.found current declared) known
  rw [origin] at shape
  obtain ⟨dependencies, -, works⟩ := shape
  have here : entry.effectiveMode (assembly.blueprint assembly.survey).defaultMode =
      .constant := mode
  rw [here] at works
  obtain ⟨number, handle, before, middle, rfl, -⟩ := works
  exact ⟨handle.value, (agrees _ _ known).2.symm⟩

/-- A pure assembly gives an application, or the failure of a constant that has no value. -/
theorem Honest.build_yields_pure (honest : host.Honest) (sound : host.Sound)
    (current : host.assembly = some assembly) (pure : assembly.Pure)
    (accepted : assembly.survey.accepted = true)
    (calm : ∀ installation ∈ assembly.installations, installation.bundle.Calm) :
    Attempt.Yields (assembly.build host.applications) host.memory
      (fun application _ => application.halt = none ∧
        ∀ index entry, assembly.Constant index entry →
          ∃ value, assembly.meaning ⟨index⟩ = .ok value)
      (fun error _ => ∃ index entry cause, assembly.Constant index entry ∧
        assembly.meaning ⟨index⟩ = .error cause ∧ error = .instantiation entry.key cause)
      fun _ => False := by
  have wellFormed := sound.wellFormed assembly current
  have grounded := sound.grounded current accepted
  have denotes := (sound.denotes current accepted).1
  have resolved := pure.blueprint wellFormed accepted
  -- Every constant that is invoked on the way comes to its meaning.
  have invoked {state : Memory × Compiled} {id : EntryId} {entry : Entry} {factory : Factory}
      {dependencies : List (Key × Accessor)}
      (steps : (assembly.blueprint assembly.survey).Steps host.applications
        (assembly.announced host.memory, Compiled.empty) state)
      (prepares : (assembly.blueprint assembly.survey).Prepares .constant state.2 id entry factory
        dependencies) :=
    resolved.yields_invocation grounded (sound.progress current accepted steps)
      (honest.steps sound current accepted steps) denotes
      (honest.agrees sound current pure accepted steps) prepares
  apply (Assembly.build_yields wellFormed host.applications host.memory).mono
  · intro application after yielded
    obtain ⟨state, compiles, finish⟩ := yielded
    refine ⟨?_, fun index entry constant =>
      honest.exists_value sound current pure compiles constant⟩
    rcases Assembly.finish_cases finish with ⟨whole, -⟩ | ⟨-, ending, finished, broken⟩
    · exact whole
    · have finishes := honest.finishes sound current pure calm compiles
      rw [Attempt.Yields, finished] at finishes
      cases ending with
      | value done => exact absurd rfl broken
      | error error => exact finishes.elim
      | panic message => exact finishes.elim
      | exhausted => exact finishes.elim
  · intro error after yielded
    rcases yielded with ⟨refused, -, -⟩ | ⟨-, state, fails, -⟩
    · rw [accepted] at refused
      cases refused
    · obtain ⟨middle, id, entry, factory, dependencies, cause, steps, prepares, ends, rfl, -⟩ :=
        fails
      have yields := invoked steps prepares
      rw [Attempt.Yields, ends] at yields
      exact ⟨id.index, entry, cause,
        ⟨Assembly.declared_of_made wellFormed prepares.found prepares.origin,
          ⟨factory, prepares.origin⟩, prepares.mode⟩, yields, rfl⟩
  · intro after yielded
    obtain ⟨-, state, breaks, -⟩ := yielded
    obtain ⟨middle, id, entry, factory, dependencies, steps, prepares, ends, -⟩ := breaks
    have yields := invoked steps prepares
    rcases ends with ⟨message, ends⟩ | ends
    · rw [Attempt.Yields, ends] at yields
      exact yields
    · rw [Attempt.Yields, ends] at yields
      exact yields

/-- A lookup in a pool of pure accessors answers with the outcome of the visible one. -/
theorem Honest.answers (honest : host.Honest) (sound : host.Sound) {pool : Pool}
    (offers : host.Offers pool) (pure : pool.Pure) (key : Key) :
    host.Answers pool key ((pool.find? key).map fun entry => entry.accessor.outcome) := by
  unfold Answers Pool.getInstance Pool.withEntry
  cases found : pool.find? key with
  | none => exact ⟨_, _, rfl, rfl⟩
  | some entry =>
    have knows := knows_of_find? offers found
    have simple := pure entry (Pool.holds_of_find? found)
    have settles := sound.family.settles
      (Discipline.latching_surrounded host.applications host.memory.depth) knows simple host.memory
      (Discipline.steady_of_honest sound.family knows simple honest)
    simp only [RuntimeEntry.getInstance, Attempt.bind_apply, Attempt.outcome,
      Accessor.value_apply]
    unfold Attempt.Yields at settles
    generalize entry.accessor.read (surroundings host.applications host.memory.depth) host.memory =
      result at settles ⊢
    obtain ⟨ending, after⟩ := result
    cases ending with
    | value handle => exact ⟨_, _, rfl, by rw [Option.map_some, settles.1]; rfl⟩
    | error error => exact ⟨_, _, rfl, by rw [Option.map_some, settles.1]; rfl⟩
    | panic message => exact settles.elim
    | exhausted => exact settles.elim

/-- A pool that is offered stays offered. -/
theorem Offers.leads {pool : Pool} (offers : host.Offers pool) {later : Host}
    (leads : host.Leads later) : later.Offers pool := by
  induction leads with
  | refl => exact offers
  | @tail before after _ moves ih =>
    obtain ⟨application, member, has⟩ := ih
    refine ⟨application, ?_, has⟩
    rcases moves.same_or_build with same | rfl
    · rwa [same]
    · rw [build_eq]
      cases before.assembly with
      | none => exact member
      | some assembly => exact List.mem_append_left _ member

/-- A pure assembly is built, and its constants have values, or one of them has none and the build
fails with its error. -/
theorem Honest.build_pure (honest : host.Honest) (sound : host.Sound)
    (current : host.assembly = some assembly) (pure : assembly.Pure)
    (accepted : assembly.survey.accepted = true)
    (calm : ∀ installation ∈ assembly.installations, installation.bundle.Calm) :
    ((∃ number application, host.build.1 = some (.application number application)) ∧
      ∀ index entry, assembly.Constant index entry →
        ∃ value, assembly.meaning ⟨index⟩ = .ok value) ∨
    ∃ index entry cause, assembly.Constant index entry ∧
      assembly.meaning ⟨index⟩ = .error cause ∧
      host.build.1 = some (.failed (.instantiation entry.key cause)) := by
  have yields := honest.build_yields_pure sound current pure accepted calm
  unfold Attempt.Yields at yields
  unfold Host.build
  rw [current]
  dsimp only
  generalize assembly.build host.applications host.memory = result at yields ⊢
  obtain ⟨ending, after⟩ := result
  cases ending with
  | value application =>
    obtain ⟨whole, values⟩ := yields
    exact .inl ⟨⟨host.built.length, application, by simp [Built.of, whole]⟩, values⟩
  | panic message => exact yields.elim
  | exhausted => exact yields.elim
  | error error =>
    obtain ⟨index, entry, cause, constant, fails, rfl⟩ := yields
    exact .inr ⟨index, entry, cause, constant, fails, rfl⟩

end Host

/-- The visible accessor comes to what its entry denotes. -/
theorem Compiled.Agrees.map_eq {compiled : Compiled} {outcomes : EntryId → Outcome}
    (agrees : compiled.Agrees outcomes) {key : Key} {found : Option EntryId}
    {visible : Option RuntimeEntry}
    (related : Option.Rel (fun id entry => entry.key = key ∧ compiled id = some entry.accessor)
      found visible) :
    (visible.map fun entry => entry.accessor.outcome) = found.map outcomes := by
  cases related with
  | none => rfl
  | some fits => rw [Option.map_some, Option.map_some, (agrees _ _ fits.2).2]

namespace Host

variable {host : Host} {assembly : Assembly}

/-- Value semantics, for a resolved assembly of pure factories that imports from pure pools. Its
entries have a meaning, by recursion over the resolved graph and in one way only. When no bundle
panics, the assembly is built exactly if every constant factory has a value, and otherwise fails
with the error of one that has none. The pools of the application are pure again. Whatever a host
does after the build, a lookup in a scope or in the exports finds nothing when no entry is visible
there, and otherwise answers with the meaning of the visible entry. -/
theorem Reachable.value_semantics (reachable : host.Reachable)
    (current : host.assembly = some assembly) (accepted : assembly.survey.accepted = true)
    (pure : assembly.Pure)
    (calm : ∀ installation ∈ assembly.installations, installation.bundle.Calm) :
    ((assembly.blueprint assembly.survey).Denotes assembly.meaning ∧
      ∀ outcomes : EntryId → Outcome, (assembly.blueprint assembly.survey).Denotes outcomes →
        ∀ (id : EntryId) (entry : Entry),
          (assembly.blueprint assembly.survey).entries[id.index]? = some entry →
            outcomes id = assembly.meaning id) ∧
    ((∃ number application, host.build.1 = some (.application number application)) ↔
      ∀ (index : Nat) (entry : Entry), assembly.Constant index entry →
        ∃ value, assembly.meaning ⟨index⟩ = .ok value) ∧
    ((¬ ∃ number application, host.build.1 = some (.application number application)) →
      ∃ (index : Nat) (entry : Entry) (cause : ConstructionError),
        assembly.Constant index entry ∧ assembly.meaning ⟨index⟩ = .error cause ∧
        host.build.1 = some (.failed (.instantiation entry.key cause))) ∧
    ∀ (number : Nat) (application : Application),
      host.build.1 = some (.application number application) →
      (∀ pool, application.Has pool → pool.Pure) ∧
      ∀ later : Host, host.build.2.Leads later →
        (∀ (index : Nat) (scope : Scope), assembly.scopes[index]? = some scope →
          ∃ (pool : Pool) (registry : Registry), application.pools[index]? = some pool ∧
            assembly.survey.registries[index]? = some registry ∧
            ∀ key, later.Answers pool key
              ((registry.getNearest? assembly.survey.registries key).map assembly.meaning)) ∧
        ∀ key, later.Answers application.exports key
          ((assembly.survey.exports.get? key).map assembly.meaning) := by
  have sound := reachable.sound
  have honest := reachable.honest
  have wellFormed := sound.wellFormed assembly current
  have outcome := honest.build_pure sound current pure accepted calm
  refine ⟨sound.denotes current accepted, ⟨fun built => ?_, fun values => ?_⟩, fun missed => ?_,
    fun number application built => ?_⟩
  · rcases outcome with ⟨-, values⟩ | ⟨index, entry, cause, constant, fails, failed⟩
    · exact values
    · obtain ⟨number, application, built⟩ := built
      rw [failed] at built
      cases built
  · rcases outcome with ⟨built, -⟩ | ⟨index, entry, cause, constant, fails, failed⟩
    · exact built
    · obtain ⟨value, ends⟩ := values index entry constant
      rw [fails] at ends
      cases ends
  · exact outcome.resolve_left fun built => missed built.1
  · obtain ⟨after, -, after_build, -⟩ := build_of_application current built
    obtain ⟨state, compiles⟩ := sound.exists_compiles current built
    have agrees := honest.agrees sound current pure accepted compiles.steps
    have simple (pool : Pool) (has : application.Has pool) : pool.Pure := by
      intro entry holds
      obtain ⟨id, known⟩ := compiles.compiled has holds
      exact (agrees id _ known).1
    refine ⟨simple, fun later leads => ?_⟩
    -- The pools of the application are offered from now on.
    have answers (pool : Pool) (has : application.Has pool) (key : Key) :
        later.Answers pool key ((pool.find? key).map fun entry => entry.accessor.outcome) := by
      have offers : host.build.2.Offers pool := by
        rw [after_build]
        exact ⟨application, List.mem_append_right _ List.mem_cons_self, has⟩
      have reached := reachable.leads (.head (.build host) leads)
      exact reached.honest.answers reached.sound (offers.leads leads) (simple pool has) key
    constructor
    · intro index scope place
      obtain ⟨pool, registry, found, held, -⟩ := compiles.exists_pool place
      refine ⟨pool, registry, found, held, fun key => ?_⟩
      rw [← agrees.map_eq (compiles.rel_getNearest? wellFormed found held key)]
      exact answers pool (.inl (List.mem_of_getElem? found)) key
    · intro key
      rw [← agrees.map_eq (compiles.rel_get?_exports key)]
      exact answers application.exports (.inr rfl) key

end Host

/-- A closure that adds is determined by its parameters. -/
theorem Signature.determined_addition (signature : Signature) (owner : Key) :
    Behaviour.Determined signature.addition.behaviour owner signature.dependencies := by
  refine ⟨fun values =>
    .ok (.ofParts signature.output ((values.map Value.number).foldl (· + ·) 1) ""),
    fun call handed handover => ?_⟩
  unfold addition Factory.ofInfallible
  dsimp only
  rw [handover.parameters_eq_ok owner]
  rfl

namespace Assembly

/-- The sample is a number and three closures that add. -/
theorem origins_sample :
    sample.entries.map (fun entry => (entry.origin, entry.dependencies)) =
      (Origin.given ⟨.declared 0 0, .ofParts .u8 7 ""⟩, []) ::
        [Signature.mk .u16 [.u8], ⟨.u32, [.u16]⟩, ⟨.u64, [.u16, .u32]⟩].map fun signature =>
          (.made signature.addition, signature.dependencies) := rfl

/-- The sample imports nothing. -/
theorem imports_sample (imported : RuntimeEntry) : ¬ sample.Imports imported := by
  intro imports
  obtain ⟨scope, member, use, among, -⟩ := imports
  have none : sample.scopes.map Scope.imports = [[]] := rfl
  have listed : scope.imports ∈ sample.scopes.map Scope.imports :=
    List.mem_map.mpr ⟨scope, member, rfl⟩
  rw [none, List.mem_singleton] at listed
  rw [listed] at among
  cases among

theorem pure_sample : sample.Pure where
  factories index entry factory found origin := by
    have member : (entry.origin, entry.dependencies) ∈
        sample.entries.map fun entry => (entry.origin, entry.dependencies) :=
      List.mem_map.mpr ⟨entry, List.mem_of_getElem? found, rfl⟩
    rw [origins_sample, origin] at member
    rcases List.mem_cons.mp member with given | closure
    · cases given
    · obtain ⟨signature, -, same⟩ := List.mem_map.mp closure
      obtain ⟨made, keys⟩ := Prod.mk.inj same
      obtain rfl := Origin.made.inj made
      rw [← keys]
      exact signature.determined_addition entry.key
  imports imported imports := (imports_sample imported imports).elim

/-- The meaning adds up the numbers on which an entry rests. -/
example : (sample.meaning ⟨3⟩).map Value.number = .ok 18 := by decide +kernel

end Assembly

theorem Host.value_semantics_sample :
    ∃ application pool registry, sample.build.1 = some (.application 0 application) ∧
      application.pools[0]? = some pool ∧
      Assembly.sample.survey.registries[0]? = some registry ∧
      ∀ key, sample.build.2.Answers pool key
        ((registry.getNearest? Assembly.sample.survey.registries key).map
          Assembly.sample.meaning) := by
  obtain ⟨application, built⟩ := built_sample
  obtain ⟨scope, place⟩ : ∃ scope : Scope, Assembly.sample.scopes[0]? = some scope :=
    Option.isSome_iff_exists.mp (by decide +kernel)
  have installations : Assembly.sample.installations = [] := rfl
  obtain ⟨-, -, -, builds⟩ := reachable_sample.value_semantics assembly_sample
    (by decide +kernel) Assembly.pure_sample (by rw [installations]; nofun)
  obtain ⟨-, answers⟩ := builds 0 application built
  obtain ⟨pool, registry, found, held, gives⟩ := (answers _ .refl).1 0 scope place
  exact ⟨application, pool, registry, built, found, held, gives⟩

end Wiring
