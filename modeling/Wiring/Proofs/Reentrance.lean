import Wiring.Proofs.Innocence
import Wiring.Proofs.Purity

/-!
No looping. A resolved assembly is compiled without following delegates and dependencies for ever,
and no accessor depends on itself. Where all factories are innocent, every lookup has an answer, and
none of them tells of re-entrance, whatever was asked before.
-/

namespace Wiring

open Relation

namespace Attempt

variable {σ ε α β : Type} {state : σ}

/-- From the state the attempt comes to an end, and the value that it may give has the property. -/
def EndsIn (attempt : Attempt σ ε α) (state : σ) (given : α → Prop) : Prop :=
  (attempt state).1 ≠ .exhausted ∧ ∀ value, (attempt state).1 = .value value → given value

theorem endsIn_pure {value : α} {given : α → Prop} (fits : given value) :
    (pure value : Attempt σ ε α).EndsIn state given := by
  refine ⟨nofun, ?_⟩
  intro _ same
  cases same
  exact fits

/-- A value is turned into another one. -/
theorem EndsIn.turn {attempt : Attempt σ ε α} {turn : α → β} {given : β → Prop}
    (ends : attempt.EndsIn state fun value => given (turn value)) :
    (attempt >>= fun value => pure (turn value)).EndsIn state given := by
  unfold EndsIn at *
  rw [bind_apply]
  rcases found : attempt state with ⟨ending, after⟩
  rw [found] at ends
  cases ending with
  | error error => exact ⟨nofun, nofun⟩
  | panic message => exact ⟨nofun, nofun⟩
  | exhausted => exact absurd rfl ends.1
  | value value =>
    refine ⟨nofun, ?_⟩
    intro _ same
    cases same
    exact ends.2 value rfl

end Attempt

/-- The outcome is no error that goes back to re-entrance. -/
def Untroubled (outcome : Except ConstructionError Instance) : Prop :=
  ∀ error, outcome = .error error → ¬ error.IsReentrant

/-- The answer tells of no error that goes back to re-entrance. -/
def Answer.Untroubled (answer : Answer) : Prop :=
  ∀ error, answer = .failed (.construction error) → ¬ error.IsReentrant

/-- An answer that is no failure is without trouble. -/
theorem Answer.untroubled_of_ne_failed {answer : Answer}
    (fine : ∀ error, answer ≠ .failed error) : answer.Untroubled :=
  fun _ same => absurd same (fine _)

/-- The type that a reader expects adds no trouble. -/
theorem Untroubled.expectType {outcome : Except ConstructionError Instance}
    (untroubled : Untroubled outcome) (key : Key) (type : ServiceType) :
    Untroubled (expectType key type outcome) := by
  cases outcome with
  | error error => exact untroubled
  | ok handle =>
    unfold Wiring.expectType
    dsimp only
    split
    · exact nofun
    · intro error same
      cases same
      exact ConstructionError.not_isReentrant_typeMismatch _ _ _

theorem Untroubled.answer {outcome : Except ConstructionError Instance}
    (untroubled : Untroubled outcome) :
    (Answer.ofOutcome (outcome.mapError LookupError.construction)).Untroubled := by
  cases outcome with
  | ok handle => exact nofun
  | error error =>
    intro _ same
    cases same
    exact untroubled error rfl

section

variable {applications : List Application} {memory : Memory}

/-- An entry gives its value without trouble in every way of asking for it. -/
structure RuntimeEntry.Untroubled (applications : List Application) (memory : Memory)
    (entry : RuntimeEntry) : Prop where
  handle : (entry.getInstance applications).EndsIn memory Wiring.Untroubled
  typed : ∀ type, (entry.get applications type).EndsIn memory Wiring.Untroubled

/-- An entry of innocent factories gives its value without trouble. -/
theorem Accessor.Innocent.untroubled {known : Accessor → Prop} (family : Family known)
    {entry : RuntimeEntry} (member : known entry.accessor) (innocent : entry.accessor.Innocent)
    (steady : Custom.innocent.Steady memory entry.accessor) :
    entry.Untroubled applications memory := by
  have handle : (entry.getInstance applications).EndsIn memory Untroubled := by
    have ends := read_ends (innocent.factoriesEnd (memory.surroundings applications)) memory
    have latches : Discipline.latching.Surrounded (memory.surroundings applications) :=
      Discipline.latching_surrounded applications memory.depth
    have untangled := family.untangles latches member innocent memory steady
    unfold Attempt.Untangled Attempt.Yields at untangled
    unfold Attempt.EndsIn RuntimeEntry.getInstance Attempt.outcome value
    generalize entry.accessor.read (memory.surroundings applications) memory = result at *
    obtain ⟨ending, after⟩ := result
    cases ending with
    | panic message => exact ⟨nofun, nofun⟩
    | exhausted => exact absurd rfl ends
    | value handle =>
      refine ⟨nofun, ?_⟩
      intro _ same
      cases same
      exact nofun
    | error error =>
      refine ⟨nofun, ?_⟩
      intro _ same
      cases same
      intro _ same
      cases same
      exact untangled.1
  refine ⟨handle, fun type => ?_⟩
  exact Attempt.EndsIn.turn
    ⟨handle.1, fun outcome given => (handle.2 outcome given).expectType _ _⟩

/-- A lookup in a pool whose entries give their values without trouble is without trouble. -/
theorem Pool.endsIn_withEntry {pool : Pool} {key : Key}
    {use : RuntimeEntry → Asking (Except ConstructionError Instance)}
    (uses : ∀ entry, pool.find? key = some entry → (use entry).EndsIn memory Untroubled) :
    (pool.withEntry key use).EndsIn memory fun outcome =>
      (Answer.ofOutcome outcome).Untroubled := by
  unfold withEntry
  cases found : pool.find? key with
  | none => exact Attempt.endsIn_pure nofun
  | some entry =>
    have ends := uses entry found
    refine Attempt.EndsIn.turn ⟨ends.1, fun outcome given => ?_⟩
    exact (ends.2 outcome given).answer

/-- Every question to a pool is answered without trouble when its entries give their values so. -/
theorem Pool.endsIn_answer {pool : Pool}
    (gives : ∀ key entry, pool.find? key = some entry → entry.Untroubled applications memory)
    (query : PoolQuery) :
    (pool.answer applications query).EndsIn memory Answer.Untroubled := by
  have keyed (key : Key) (type : ServiceType) :
      (pool.getKeyed applications key type).EndsIn memory fun outcome =>
        (Answer.ofOutcome outcome).Untroubled :=
    endsIn_withEntry fun entry found => (gives key entry found).typed type
  have asked (key : Key) :
      (pool.getInstance applications key).EndsIn memory fun outcome =>
        (Answer.ofOutcome outcome).Untroubled :=
    endsIn_withEntry fun entry found => (gives key entry found).handle
  cases query with
  | get key type route =>
    cases route with
    | keyed => exact (keyed key type).turn
    | plain => exact (keyed _ type).turn
    | qualified => exact (keyed _ type).turn
    | handle => exact (asked key).turn
    | entry =>
      simp only [answer]
      cases found : pool.find? key with
      | none => exact Attempt.endsIn_pure (Answer.untroubled_of_ne_failed (by simp))
      | some entry =>
        have ends := (gives key entry found).typed type
        exact Attempt.EndsIn.turn ⟨ends.1, fun outcome given => (ends.2 outcome given).answer⟩
    | entryHandle =>
      simp only [answer]
      cases found : pool.find? key with
      | none => exact Attempt.endsIn_pure (Answer.untroubled_of_ne_failed (by simp))
      | some entry =>
        have ends := (gives key entry found).handle
        exact Attempt.EndsIn.turn ⟨ends.1, fun outcome given => (ends.2 outcome given).answer⟩
  | contains key => exact Attempt.endsIn_pure (Answer.untroubled_of_ne_failed (by simp))
  | entry key full =>
    refine Attempt.EndsIn.turn ⟨Attempt.ends_observe id memory, fun state _ => ?_⟩
    apply Answer.untroubled_of_ne_failed
    cases pool.find? key <;> simp
  | services => exact Attempt.endsIn_pure (Answer.untroubled_of_ne_failed (by simp))
  | race key threads =>
    have each (thread : Nat) :
        ((Asking.orFail (pool.getInstance applications key)).ending :
          Asking (Ending LookupError Instance)).Ends := Attempt.ends_ending _
    exact Attempt.EndsIn.turn
      ⟨Attempt.Ends.forEach each _ memory, fun _ _ => Answer.untroubled_of_ne_failed (by simp)⟩
  | contents =>
    exact Attempt.EndsIn.turn
      ⟨Attempt.ends_observe id memory, fun _ _ => Answer.untroubled_of_ne_failed (by simp)⟩

/-- A question to a pool of innocent factories is answered without trouble wherever their cells are
settled. -/
theorem Pool.endsIn_answer_of_customary {known : Accessor → Prop} (family : Family known)
    (holds : (Discipline.customary Custom.innocent known True).holds memory) {pool : Pool}
    (each : ∀ key entry, pool.find? key = some entry →
      known entry.accessor ∧ entry.accessor.Innocent) (query : PoolQuery) :
    (pool.answer applications query).EndsIn memory Answer.Untroubled := by
  refine endsIn_answer (fun key entry found => ?_) query
  obtain ⟨member, innocent⟩ := each key entry found
  exact innocent.untroubled family member
    (Discipline.steady_of_customary Custom.lawful_innocent family member innocent holds)

end

/-- The factories of an assembly are innocent, and so are those behind what it imports. -/
structure Assembly.Innocent (assembly : Assembly) : Prop where
  factories : ∀ (index : Nat) (entry : Entry) (factory : Factory),
    assembly.entries[index]? = some entry → entry.origin = .made factory →
      ∀ call handed, (factory.behaviour call ⟨entry.key, handed⟩).Innocent
  imports : ∀ imported, assembly.Imports imported → imported.accessor.Innocent

/-- All factories behind the pool are innocent. -/
def Pool.Innocent (pool : Pool) : Prop := ∀ entry, pool.Holds entry → entry.accessor.Innocent

/-- An accessor is innocent when its factory and its dependencies are. -/
theorem Accessor.Innocent.of_dependencies {accessor : Accessor}
    (own : ∀ producer, accessor.producer? = some producer → producer.Innocent)
    (below : ∀ dependency ∈ accessor.dependencies, dependency.2.Innocent) :
    accessor.Innocent := by
  intro inner within
  rcases within.cases with rfl | ⟨dependency, member, inside⟩
  · exact own
  · exact below dependency member inner inside

namespace Blueprint

variable {blueprint : Blueprint} {applications : List Application}
  {state after : Memory × Compiled}

/-- Every step of a compilation keeps what is compiled innocent. -/
theorem Step.innocent (step : blueprint.Step applications state after)
    (factories : ∀ {id : EntryId} {entry : Entry} {factory : Factory},
      blueprint.entries[id.index]? = some entry → entry.origin = .made factory →
        (blueprint.producerOf id entry factory).Innocent)
    (imports : ∀ {id : EntryId} {entry : Entry} {imported : RuntimeEntry},
      blueprint.entries[id.index]? = some entry → entry.origin = .delegate (.foreign imported) →
        imported.accessor.Innocent)
    (innocent : ∀ id accessor, state.2 id = some accessor → accessor.Innocent) :
    ∀ id accessor, after.2 id = some accessor → accessor.Innocent := by
  have added {compiled : Compiled} {other : EntryId} {new : Accessor} (clean : new.Innocent)
      (old : ∀ id accessor, compiled id = some accessor → accessor.Innocent) (id : EntryId)
      (accessor : Accessor) (known : compiled.add other new id = some accessor) :
      accessor.Innocent := by
    rcases Compiled.add_cases known with ⟨-, rfl⟩ | before
    · exact clean
    · exact old id accessor before
  have covered {links : List (Key × EntryId)} {dependencies : List (Key × Accessor)}
      (covers : state.2.Covers links dependencies) (dependency : Key × Accessor)
      (member : dependency ∈ dependencies) : dependency.2.Innocent := by
    obtain ⟨link, -, fits⟩ := exists_of_forall₂_right covers member
    exact innocent _ _ fits.2
  cases step with
  | reported event => exact innocent
  | given fresh found origin => exact added (.of_dependencies nofun nofun) innocent
  | shared fresh found origin known => exact added (innocent _ _ known) innocent
  | imported fresh found origin => exact added (imports found origin) innocent
  | constant prepares invoked => exact added (.of_dependencies nofun nofun) innocent
  | lazy prepares =>
    refine added (.of_dependencies ?_ (covered prepares.covers)) innocent
    intro _ same
    cases same
    exact factories prepares.found prepares.origin
  | prototype prepares =>
    refine added (.of_dependencies ?_ (covered prepares.covers)) innocent
    intro _ same
    cases same
    exact factories prepares.found prepares.origin

end Blueprint

namespace Host

variable {host : Host} {assembly : Assembly} {application : Application}
  {state : Memory × Compiled}

/-- All that is compiled for an innocent assembly is innocent. -/
theorem Sound.innocent_steps (sound : host.Sound) (current : host.assembly = some assembly)
    (accepted : assembly.survey.accepted = true) (innocent : assembly.Innocent)
    (steps : (assembly.blueprint assembly.survey).Steps host.applications
      (assembly.announced host.memory, Compiled.empty) state) :
    ∀ id accessor, state.2 id = some accessor → accessor.Innocent := by
  have wellFormed := sound.wellFormed assembly current
  induction steps with
  | refl => exact fun _ _ known => nomatch known
  | tail _ step ih =>
    refine step.innocent (fun found origin => ?_) (fun found origin => ?_) ih
    · exact innocent.factories _ _ _ (Assembly.declared_of_made wellFormed found origin) origin
    · exact innocent.imports _
        ((Assembly.blueprint_sound wellFormed accepted).foreign found origin).1

/-- A question to a pool of innocent factories is answered without trouble in every reachable
host. -/
theorem Reachable.answer_untroubled (reachable : host.Reachable) {pool : Pool}
    (offers : host.Offers pool) (innocent : pool.Innocent) (query : PoolQuery) :
    (pool.answer host.applications query).EndsIn host.memory Answer.Untroubled := by
  have observes : host.Observes Custom.innocent := reachable.observes Custom.lawful_innocent
  refine Pool.endsIn_answer_of_customary reachable.sound.family observes ?_ query
  intro key entry found
  exact ⟨knows_of_find? offers found, innocent entry (Pool.holds_of_find? found)⟩

/-- The same holds while bundles finish, after any of them. -/
theorem Reachable.finishing_untroubled (reachable : host.Reachable)
    (current : host.assembly = some assembly)
    (compiles : assembly.Compiles host.applications host.memory application state)
    (innocent : assembly.Innocent) (installations : List Installation) {pool : Pool}
    (member : pool ∈ application.pools) (query : PoolQuery) :
    (pool.answer (application.joining host.applications) query).EndsIn
      (finishEach host.applications application installations state.1).2 Answer.Untroubled := by
  have sound := reachable.sound
  have progress := sound.progress current compiles.accepted compiles.steps
  have observes : host.Observes Custom.innocent := reachable.observes Custom.lawful_innocent
  refine Pool.endsIn_answer_of_customary
    (progress.family (sound.grounded current compiles.accepted))
    (observes.finished Custom.lawful_innocent sound current compiles installations) ?_ query
  intro key entry found
  obtain ⟨id, known⟩ := compiles.compiled (.inl member) (Pool.holds_of_find? found)
  exact ⟨.inr ⟨id, known⟩,
    sound.innocent_steps current compiles.accepted innocent compiles.steps id _ known⟩

/-- A resolved assembly is compiled and run without looping. No entry needs itself, however far
away, so that beyond the number of entries the depth of a compilation does not matter: from every
entry it comes to an accessor, or to a constant that fails or is broken off. Whatever a host does
later, no accessor that it knows depends on itself, and a reading ends when the factories behind it
do. When all factories are innocent, no question to the application is left without an answer or
answered with an error that goes back to re-entrance: neither while the bundles finish nor later,
whatever was asked before. -/
theorem Reachable.never_loops (reachable : host.Reachable)
    (current : host.assembly = some assembly) {resolution : Resolution}
    (resolved : assembly.resolve = .ok resolution) :
    (∀ index : Nat,
      Acc (fun next node => (assembly.blueprint resolution).Needs node next) index) ∧
    (∀ (depth : Nat) (id : EntryId), id.index < resolution.entries.length →
      resolution.entries.length ≤ depth →
      (assembly.blueprint resolution).accessor host.applications depth id =
        (assembly.blueprint resolution).accessor host.applications resolution.entries.length id ∧
      ∀ state : Memory × Compiled,
        ((assembly.blueprint resolution).accessor host.applications depth id).Yields state
          (fun accessor after =>
            (assembly.blueprint resolution).Steps host.applications state after ∧
              after.2 id = some accessor)
          (fun error after =>
            (assembly.blueprint resolution).Fails host.applications state error after)
          (fun after => (assembly.blueprint resolution).Breaks host.applications state after)) ∧
    (∀ later : Host, host.build.2.Leads later →
      (∀ id : AccessorId, ¬ TransGen later.Links id id) ∧
      ∀ (accessor : Accessor) (surroundings : Surroundings),
        accessor.FactoriesEnd surroundings → (accessor.read surroundings).Ends) ∧
    (assembly.Innocent →
      (∀ (application : Application) (state : Memory × Compiled),
        assembly.Compiles host.applications host.memory application state →
        ∀ (installations : List Installation) (pool : Pool), pool ∈ application.pools →
          ∀ query : PoolQuery, (pool.answer (application.joining host.applications) query).EndsIn
            (finishEach host.applications application installations state.1).2
            Answer.Untroubled) ∧
      ∀ (number : Nat) (application : Application),
        host.build.1 = some (.application number application) →
        (∀ pool, application.Has pool → pool.Innocent) ∧
        ∀ later : Host, host.build.2.Leads later → ∀ pool : Pool, application.Has pool →
          ∀ query : PoolQuery,
            (pool.answer later.applications query).EndsIn later.memory Answer.Untroubled) := by
  have sound := reachable.sound
  have wellFormed := sound.wellFormed assembly current
  obtain ⟨accepted, rfl⟩ := Assembly.survey_of_resolve resolved
  obtain ⟨rank, ranked⟩ := Assembly.blueprint_ranked wellFormed accepted
  have reached {later : Host} (leads : host.build.2.Leads later) : later.Reachable :=
    reachable.leads (.head (.build host) leads)
  refine ⟨ranked.acc_needs, fun depth id inside deep => ⟨?_, fun state => ?_⟩, fun later leads =>
    ⟨(reached leads).sound.acyclic, fun accessor surroundings ends => Accessor.read_ends ends⟩,
    fun innocent => ⟨?_, fun number application built => ?_⟩⟩
  · have low := ranked.bounded id.index inside
    exact ranked.accessor_eq host.applications inside (Nat.lt_of_lt_of_le low deep) low
  · have low := ranked.bounded id.index inside
    have compiles := Blueprint.accessor_yields ranked host.applications inside
      (Nat.lt_of_lt_of_le low deep) state
    refine Attempt.Yields.mono compiles ?_ (fun _ _ fails => fails) fun _ breaks => breaks
    intro accessor after yielded
    exact ⟨yielded.1.1, yielded.2⟩
  · intro application state compiles installations pool member query
    exact reachable.finishing_untroubled current compiles innocent installations member query
  · obtain ⟨after, -, after_build, -⟩ := build_of_application current built
    obtain ⟨state, compiles⟩ := sound.exists_compiles current built
    have clean (pool : Pool) (has : application.Has pool) : pool.Innocent := by
      intro entry holds
      obtain ⟨id, known⟩ := compiles.compiled has holds
      exact sound.innocent_steps current accepted innocent compiles.steps id _ known
    refine ⟨clean, fun later leads pool has query => ?_⟩
    have offers : host.build.2.Offers pool := by
      rw [after_build]
      exact ⟨application, List.mem_append_right _ List.mem_cons_self, has⟩
    exact (reached leads).answer_untroubled (offers.leads leads) (clean pool has) query

end Host

/-- Handling errors asks no pool when neither the behaviour nor the handler does. -/
theorem Behaviour.Alone.catchWith {ε δ : Type} {behaviour : Behaviour ε} {kind : ε → Prop}
    {left : δ → Prop} (alone : behaviour.Alone kind) {handler : ε → Behaviour δ}
    (handles : ∀ error, kind error → (handler error).Alone left) :
    (behaviour.catchWith handler).Alone left := by
  induction behaviour with
  | give value => exact trivial
  | fail error => exact handles error alone
  | panic message => exact trivial
  | write note next ih => exact ih alone
  | lookup path key next => exact alone.elim
  | peek path key next => exact alone.elim

namespace Dependencies

variable {dependencies : Dependencies} {error : ConstructionError}

/-- The first failure is among the answers. -/
theorem mem_of_firstFailure {answers : List (Except ConstructionError Value)}
    (fails : firstFailure answers = .error error) : .error error ∈ answers := by
  induction answers with
  | nil => cases fails
  | cons answer rest ih =>
    cases answer with
    | error first =>
      cases fails
      exact List.mem_cons_self
    | ok value =>
      rw [firstFailure] at fails
      split at fails
      · cases fails
      · rename_i later failed
        cases fails
        exact List.mem_cons_of_mem _ (ih failed)

/-- A dependency that cannot be read is missing or has another type. -/
theorem not_isReentrant_read {cursor : Nat} {reading : Reading}
    (fails : (dependencies.read cursor reading).1 = .error error) : ¬ error.IsReentrant := by
  have downcast {handle : Instance} {type : ServiceType}
      (fails : (dependencies.downcast handle type).map (Value.mk type) = .error error) :
      ¬ error.IsReentrant := by
    unfold Dependencies.downcast at fails
    split at fails
    · cases fails
    · cases fails
      exact ConstructionError.not_isReentrant_typeMismatch _ _ _
  have get {index : Nat} {type : ServiceType}
      (fails : (dependencies.get index type).map (Value.mk type) = .error error) :
      ¬ error.IsReentrant := by
    unfold Dependencies.get handle at fails
    cases found : dependencies.values[index]? with
    | none =>
      simp only [found] at fails
      cases fails
      exact ConstructionError.not_isReentrant_missingDependency _ _
    | some pair =>
      simp only [found] at fails
      exact downcast fails
  cases reading with
  | position index type => exact get fails
  | next type => exact get fails
  | handle index =>
    unfold read handle at fails
    dsimp only at fails
    split at fails
    · cases fails
    · cases fails
      exact ConstructionError.not_isReentrant_missingDependency _ _
  | keyed key type =>
    unfold read getKeyed at fails
    dsimp only at fails
    split at fails
    · exact downcast fails
    · cases fails
      exact ConstructionError.not_isReentrant_missingDependency _ _

/-- Parameters that cannot be fetched are missing or have other types. -/
theorem not_isReentrant_parameters {types : List ServiceType}
    (fails : dependencies.parameters types = .error error) : ¬ error.IsReentrant := by
  have each (readings : List Reading) (cursor : Nat)
      (member : .error error ∈ dependencies.readEach cursor readings) : ¬ error.IsReentrant := by
    induction readings generalizing cursor with
    | nil => cases member
    | cons reading rest ih =>
      rw [readEach] at member
      rcases List.mem_cons.mp member with first | later
      · exact not_isReentrant_read first.symm
      · exact ih _ later
  exact each _ _ (mem_of_firstFailure fails)

end Dependencies

/-- A function with typed parameters that asks no pool is innocent. -/
theorem Factory.innocent_ofInfallible {parameters : List ServiceType}
    {function : Nat → List Value → Behaviour Raised}
    (alone : ∀ call values, (function call values).Alone fun _ => True) (call : Nat)
    (dependencies : Dependencies) :
    ((ofInfallible parameters function).behaviour call dependencies).Innocent := by
  unfold ofInfallible
  dsimp only
  split
  · rename_i error fails
    exact Dependencies.not_isReentrant_parameters fails
  · exact (alone call _).catchWith fun _ _ => trivial

theorem Assembly.innocent_sample : sample.Innocent where
  factories index entry factory found origin call handed := by
    have member : (entry.origin, entry.dependencies) ∈
        sample.entries.map fun entry => (entry.origin, entry.dependencies) :=
      List.mem_map.mpr ⟨entry, List.mem_of_getElem? found, rfl⟩
    rw [origins_sample, origin] at member
    rcases List.mem_cons.mp member with given | closure
    · cases given
    · obtain ⟨signature, -, same⟩ := List.mem_map.mp closure
      obtain ⟨made, -⟩ := Prod.mk.inj same
      obtain rfl := Origin.made.inj made
      have alone (call : Nat) (values : List Value) :
          (Behaviour.give (.ofParts signature.output
            ((values.map Value.number).foldl (· + ·) 1) "") : Behaviour Raised).Alone
            fun _ => True := trivial
      exact Factory.innocent_ofInfallible alone call _
  imports imported imports := (imports_sample imported imports).elim

theorem Assembly.resolved_sample : sample.resolve = .ok sample.survey := by
  have accepted : sample.survey.accepted = true := by decide +kernel
  simp only [resolve, accepted, if_true]

theorem Host.never_loops_sample :
    ∃ application, sample.build.1 = some (.application 0 application) ∧
      ∀ pool, application.Has pool → ∀ query,
        (pool.answer sample.build.2.applications query).EndsIn sample.build.2.memory
          Answer.Untroubled := by
  obtain ⟨application, built⟩ := built_sample
  obtain ⟨-, -, -, untroubled⟩ :=
    reachable_sample.never_loops assembly_sample Assembly.resolved_sample
  obtain ⟨-, answers⟩ := (untroubled Assembly.innocent_sample).2 0 application built
  exact ⟨application, built, answers _ .refl⟩

end Wiring
