import Wiring.Proofs.Blame
import Wiring.Proofs.Identity
import Wiring.Proofs.Lookup
import Wiring.Stock

/-!
Error paths. A construction error mirrors the path of declared dependencies along which it came: an
invocation fails with its first dependency that fails or by itself, each owner on the way adds its
own key and that of its dependency, and every lookup passes the error on as it is.
-/

namespace Wiring

open Relation

/-- Among calm pools the errors that are remembered are accounted for. -/
theorem Observance.blaming_prevails {all applications : List Application}
    (pools : CalmPools applications) (stood : Stood all applications) :
    (Observance.blaming all).Prevails applications :=
  fun _ family closed => Discipline.pervades_of_reads trivial closed
    fun _ surrounded accessor member => (family.tells pools stood surrounded accessor member).1

namespace Pool

variable {pool : Pool} {applications : List Application} {key : Key} {entry : RuntimeEntry}
  {memory after : Memory} {error : ConstructionError}

/-- A lookup passes the error of the entry on. -/
theorem getInstance_of_error (found : pool.find? key = some entry)
    (fails : entry.accessor.value applications memory = (.error error, after)) :
    pool.getInstance applications key memory =
      (.value (.error (.construction error)), after) := by
  simp only [getInstance, withEntry, found, RuntimeEntry.getInstance, Attempt.bind_apply,
    Attempt.outcome, fails]
  rfl

/-- So does a lookup that expects a type. -/
theorem getKeyed_of_error (found : pool.find? key = some entry)
    (fails : entry.accessor.value applications memory = (.error error, after))
    (type : ServiceType) :
    pool.getKeyed applications key type memory =
      (.value (.error (.construction error)), after) := by
  simp only [getKeyed, withEntry, found, RuntimeEntry.get, RuntimeEntry.getInstance,
    Attempt.bind_apply, Attempt.outcome, fails]
  rfl

end Pool

/-- So does the lookup of a factory. -/
theorem lookup_of_error {applications : List Application} {path : PoolPath} {key : Key}
    {pool : Pool} {entry : RuntimeEntry} {depth : Nat} {memory after : Memory}
    {error : ConstructionError}
    (place : path.resolve? applications = some pool) (found : pool.find? key = some entry)
    (fails : entry.accessor.read (surroundings applications depth) memory = (.error error, after)) :
    (surroundings applications (depth + 1)).lookup path key memory =
      (.value (some (.error (.construction error))), after) := by
  simp only [surroundings, lookupIn, place, found, Attempt.andThen, Attempt.outcome,
    Attempt.mapError, fails]
  rfl

namespace Host

variable {host after : Host} {assembly : Assembly} {application : Application}

theorem Moves.applications_kept (moves : host.Moves after) :
    host.applications <+: after.applications := by
  rcases moves.same_or_build with same | rfl
  · rw [same]
  · rw [build_eq]
    cases host.assembly with
    | none => exact List.prefix_refl _
    | some assembly => exact List.prefix_append _ _

/-- No application is ever taken away. -/
theorem applications_kept (leads : host.Leads after) :
    host.applications <+: after.applications := by
  induction leads with
  | refl => exact List.prefix_refl _
  | tail _ moves ih => exact ih.trans moves.applications_kept

/-- What comes before a calm host is calm. -/
theorem Calm.before (calm : after.Calm) (leads : host.Leads after) : host.Calm := by
  intro accessor knows
  obtain ⟨pool, entry, ⟨application, member, has⟩, rest⟩ := knows
  exact calm accessor
    ⟨pool, entry, ⟨application, (applications_kept leads).subset member, has⟩, rest⟩

/-- The pools of the last application of a calm host were calm while its bundles finished. -/
theorem Calm.pools_joining (calm : host.Calm) {earlier : List Application}
    (last : host.applications = earlier ++ [application]) :
    CalmPools (application.joining earlier) := by
  intro path pool key entry place found
  have offers : host.Offers pool := by
    rcases PoolPath.resolve?_joining place with old | own
    · obtain ⟨other, among, has⟩ := exists_has_of_resolve? old
      exact ⟨other, last ▸ List.mem_append_left _ among, has⟩
    · exact ⟨application, last ▸ List.mem_append_right _ List.mem_cons_self,
        Application.has_of_pool? own⟩
  exact calm.accessor (knows_of_find? offers found)

/-- A calm host accounts for the errors that it remembers. -/
theorem Reachable.accounts (reachable : host.Reachable) (calm : host.Calm) :
    host.memory.Accounts host.applications host.Knows := by
  obtain ⟨patience, leads⟩ := reachable
  have heeds {middle : Host} (earlier : (patient patience).Leads middle)
      (onward : middle.Leads host) : middle.Heeds (.blaming host.applications) := by
    induction earlier with
    | refl => exact heeds_patient patience
    | tail earlier moves ih =>
      have before := onward.head moves
      refine (ih before).moves
        (Observance.blaming_prevails (calm.before before).pools (.inl (applications_kept before)))
        (Reachable.sound ⟨patience, earlier⟩) (fun application grown => ?_) moves
      -- The pools of an application are calm while its bundles finish, since they stay.
      apply Observance.blaming_prevails ((calm.before onward).pools_joining grown)
      exact .inr ⟨_, application, grown ▸ applications_kept onward, rfl⟩
  exact heeds leads .refl

/-- In a calm host every reading keeps errors accounted for, and tells why it fails. -/
theorem Sound.tells (sound : host.Sound) (calm : host.Calm) (depth : Nat) {accessor : Accessor}
    (knows : host.Knows accessor) :
    (Discipline.blaming host.applications host.Knows).Respected
        (accessor.read (surroundings host.applications depth)) (fun _ => True) ∧
      accessor.Tells host.applications host.Knows (surroundings host.applications depth) :=
  have prevails :=
    Observance.blaming_prevails calm.pools (.inl (List.prefix_refl host.applications))
  sound.family.tells calm.pools (.inl (List.prefix_refl _))
    ((prevails _ sound.family host.closed).surrounded depth) accessor knows

/-- A host is calm after a build when it was calm before and the factories of the assembly are
calm. -/
theorem Sound.calm_build (sound : host.Sound) (current : host.assembly = some assembly)
    (calm : host.Calm)
    (own : ∀ entry ∈ assembly.entries, ∀ factory, entry.origin = .made factory →
      ∀ call dependencies, (factory.behaviour call dependencies).Calm) : host.build.2.Calm := by
  have wellFormed := sound.wellFormed assembly current
  refine build_of_yields (motive := fun after => after.Calm) current
    ((sound.build_yields current).mono ?_ (fun _ _ _ => calm) fun _ _ => calm)
  intro application after yielded accessor knows producer makes
  obtain ⟨state, compiles, -⟩ := yielded
  obtain ⟨pool, entry, offers, holds, within⟩ := knows
  have grounded := sound.grounded current compiles.accepted
  rcases sound.knows_build current compiles offers holds within with old | ⟨id, known⟩
  · exact calm accessor old producer makes
  · rcases Blueprint.Shaped.of_producer grounded.sound compiles.steps.shaped known makes with
      ⟨imported, imports, rfl⟩ | ⟨id, maker, factory, found, origin, -, rfl⟩
    · exact calm _ (grounded.imports imported imports).1 producer makes
    · have declared := Assembly.declared_of_made wellFormed found origin
      exact fun call handed => own maker (List.mem_of_getElem? declared) factory origin call _

/-- Construction errors mirror the path of dependencies, in every run after a build whose factories
do not panic. A factory entry that is no constant is produced under its own key, by its own factory
and from its declared dependencies in order, and through whatever pool it is read: by one accessor.
A visit to an accessor fails because its first dependency that fails does, with the error of that
dependency behind its own key and that of the dependency, and then no later dependency is read and
the factory is not called; or because the factory reports the error or makes a value of another
type when all dependencies were read; or because of what was remembered, or because it is
computing. A function that reads its dependencies by itself and a closure report a construction
error as it is, and another error as a failure of the owner. Every error that a reading comes to
goes back along a path of declared dependencies to an accessor that failed by itself in the past,
and has the root cause of the error of that one. A lookup gives the error of the accessor as it is,
and entries that share an accessor give the same under all their keys. -/
theorem Reachable.mirrors_dependencies (reachable : host.Reachable)
    (current : host.assembly = some assembly) {number : Nat}
    (built : host.build.1 = some (.application number application)) {later : Host}
    (leads : host.build.2.Leads later) (calm : later.Calm) :
    (∀ (index : Nat) (entry : Entry) (factory : Factory), assembly.entries[index]? = some entry →
      entry.origin = .made factory →
      entry.effectiveMode assembly.config.defaultMode ≠ .constant →
      ∃ (home : Pool) (own : RuntimeEntry) (producer : Producer),
        application.pools[entry.scope.index]? = some home ∧
        home.layer.find? entry.key = some own ∧ own.accessor.producer? = some producer ∧
        producer.key = entry.key ∧ producer.behaviour = factory.behaviour ∧
        own.accessor.dependencies.map Prod.fst = entry.dependencies ∧
        ∀ (accessor : Accessor) (same : Producer), later.Knows accessor →
          accessor.producer? = some same → same.factory = producer.factory →
            accessor = own.accessor) ∧
    (∀ (visit : Visit) (error : ConstructionError),
      (visit.result later.applications).1 = .error error →
        visit.Fails later.applications error) ∧
    (∀ (surroundings : Surroundings) (call : Nat) (dependencies : Dependencies)
      (before after : Memory) (error : ConstructionError),
      (∀ function : Nat → Dependencies → Behaviour Raised,
        ((Factory.ofReader function).behaviour call dependencies).Reports surroundings before error
            after ↔
          ∃ raised, (function call dependencies).Reports surroundings before raised after ∧
            error = raised.toConstructionError dependencies.owner) ∧
      ∀ (parameters : List ServiceType) (function : Nat → List Value → Behaviour Raised),
        (((Factory.ofFallible parameters function).behaviour call dependencies).Reports surroundings
            before error after ↔
          (dependencies.parameters parameters = .error error ∧ after = before) ∨
            ∃ values raised, dependencies.parameters parameters = .ok values ∧
              (function call values).Reports surroundings before raised after ∧
              error = raised.toConstructionError dependencies.owner) ∧
        (((Factory.ofInfallible parameters function).behaviour call dependencies).Reports
            surroundings before error after ↔
          dependencies.parameters parameters = .error error ∧ after = before)) ∧
    later.memory.Accounts later.applications later.Knows ∧
    (∀ visit : Visit, later.Knows visit.accessor →
      visit.memory.Accounts later.applications later.Knows →
      (visit.result later.applications).2.Accounts later.applications later.Knows ∧
      ∀ error : ConstructionError, (visit.result later.applications).1 = .error error →
        ∃ (path : List (Key × Key)) (last : Accessor) (own : ConstructionError),
          visit.accessor.Follows path last ∧
          last.FailsItself later.applications (visit.result later.applications).2.history own ∧
          error = own.behind path ∧ error.rootCause = own.rootCause) ∧
    ∀ (pool : Pool) (key : Key) (entry : RuntimeEntry), later.Offers pool →
      pool.find? key = some entry →
      (∀ (memory after : Memory) (error : ConstructionError),
        (Visit.mk memory.depth entry.accessor memory).result later.applications =
            (.error error, after) →
          pool.getInstance later.applications key memory =
              (.value (.error (.construction error)), after) ∧
            ∀ type : ServiceType, pool.getKeyed later.applications key type memory =
              (.value (.error (.construction error)), after)) ∧
      (∀ (path : PoolPath) (depth : Nat) (memory after : Memory) (error : ConstructionError),
        path.resolve? later.applications = some pool →
        (Visit.mk depth entry.accessor memory).result later.applications = (.error error, after) →
          (surroundings later.applications (depth + 1)).lookup path key memory =
            (.value (some (.error (.construction error))), after)) ∧
      ∀ (other : Pool) (second : Key) (shared : RuntimeEntry), later.Offers other →
        other.find? second = some shared → entry.sharesAccessor shared = true →
        ∀ memory : Memory, pool.getInstance later.applications key memory =
          other.getInstance later.applications second memory := by
  have sound := reachable.sound
  have wellFormed := sound.wellFormed assembly current
  have onward : later.Reachable := (reachable.leads (.single (.build host))).leads leads
  obtain ⟨state, compiles⟩ := sound.exists_compiles current built
  refine ⟨fun index entry factory declared origin working => ?_,
    fun visit error ends => Visit.fails_of_result ends,
    fun surroundings call dependencies before after error =>
      ⟨fun function => Factory.reports_ofReader_iff, fun parameters function =>
        ⟨Factory.reports_ofFallible_iff, Factory.reports_ofInfallible_iff⟩⟩,
    onward.accounts calm, fun visit knows accounts => ?_,
    fun pool key entry offers found => ⟨fun memory after error fails => ?_,
      fun path depth memory after error place fails => lookup_of_error place found fails,
      fun other second shared offered listed same memory => ?_⟩⟩
  · obtain ⟨home, own, place, listed, known⟩ := compiles.exists_own wellFormed declared
    obtain ⟨dependencies, accessor, compiled, works, visible⟩ :=
      sound.dependencies_visible current compiles declared origin place
    obtain rfl := Option.some.inj (compiled.symm.trans known)
    obtain ⟨producer, makes⟩ := works.exists_producer working
    obtain ⟨rfl, needed⟩ := works.producer_eq makes
    refine ⟨home, own, _, place, listed, makes, rfl, rfl, ?_, fun other same knows makes' factory =>
      ?_⟩
    · rw [needed, map_eq_map_of_forall₂ visible fun _ _ fits => fits.1, List.map_id']
    · have among := sound.among_later current built compiles leads knows same makes'
        (congrArg FactoryId.assembly factory)
      rw [factory] at among
      exact Option.some.inj (among.symm.trans known)
  · obtain ⟨depth, accessor, before⟩ := visit
    obtain ⟨respected, tells⟩ := onward.sound.tells calm depth knows
    refine ⟨(respected.passes accounts).1, fun error ends => ?_⟩
    obtain ⟨path, last, own, follows, fails, rfl⟩ :=
      tells (calm.accessor knows) before error _ accounts (Prod.ext ends rfl)
    exact ⟨path, last, own, follows, fails, rfl, own.rootCause_behind path⟩
  · exact ⟨Pool.getInstance_of_error found fails, Pool.getKeyed_of_error found fails⟩
  · rw [RuntimeEntry.sharesAccessor_iff] at same
    have one := onward.sound.arena.unique _ _ (knows_of_find? offers found)
      (knows_of_find? offered listed) same
    simp only [Pool.getInstance, Pool.withEntry, found, listed, RuntimeEntry.getInstance, one]

/-- A host that is about to build a closure that fails and two sums on top of it, of which the
second is exported under another key. -/
def faulty : Host :=
  (Host.new.start (.named "faulty")).declareEach
    [.provide (.typed .u8 none [] (.ofFallible [] fun _ _ => .fail (.other "missing")))
        [.choose .lazy],
      .provide (Signature.adding ⟨.u16, [.u8]⟩) [.choose .lazy],
      .provide (Signature.adding ⟨.u32, [.u16]⟩) [.choose .prototype],
      .exportRenamed (.of .u32) (.qualified .u32 "public")]

theorem reachable_faulty : faulty.Reachable :=
  ⟨0, .head (.start _ _) (leads_declareEach _ _ fun _ =>
    ⟨trivial, trivial, trivial, trivial, trivial⟩)⟩

end Host

/-- A closure that adds does not panic. -/
theorem Signature.calm_addition (signature : Signature) (call : Nat) (dependencies : Dependencies) :
    (signature.addition.behaviour call dependencies).Calm := by
  unfold addition Factory.ofInfallible
  dsimp only
  split <;> trivial

namespace Assembly

/-- The assembly that this host is about to build. -/
def faulty : Assembly := Host.faulty.assembly.getD (.new 0 (.named ""))

theorem origins_faulty :
    faulty.entries.map Entry.origin =
      .made (.ofFallible [] fun _ _ => .fail (.other "missing")) ::
        [Signature.mk .u16 [.u8], ⟨.u32, [.u16]⟩].map fun signature =>
          .made signature.addition := rfl

theorem calm_faulty (entry : Entry) (member : entry ∈ faulty.entries) (factory : Factory)
    (origin : entry.origin = .made factory) (call : Nat) (dependencies : Dependencies) :
    (factory.behaviour call dependencies).Calm := by
  have listed : entry.origin ∈ faulty.entries.map Entry.origin := List.mem_map.mpr ⟨_, member, rfl⟩
  rw [origins_faulty, origin] at listed
  rcases List.mem_cons.mp listed with fails | adds
  · obtain rfl := Origin.made.inj fails
    have calm (call : Nat) (values : List Value) :
        (Behaviour.fail (.other "missing") : Behaviour Raised).Calm := trivial
    exact Factory.calm_ofFallible calm call dependencies
  · obtain ⟨signature, -, same⟩ := List.mem_map.mp adds
    obtain rfl := Origin.made.inj same
    exact signature.calm_addition call dependencies

end Assembly

namespace Host

/-- What comes of the second sum: the failure, behind the first sum and the second one. -/
def failedSum : ConstructionError :=
  .dependency (.of .u32) (.of .u16)
    (.dependency (.of .u16) (.of .u8) (.failed (.of .u8) "missing"))

theorem mirrors_dependencies_sample :
    ∃ (application : Application) (entry : RuntimeEntry) (path : List (Key × Key))
      (last : Accessor) (own : ConstructionError),
      faulty.build.1 = some (.application 0 application) ∧
      application.exports.find? (.qualified .u32 "public") = some entry ∧
      (application.exports.getInstance faulty.build.2.applications (.qualified .u32 "public")
        faulty.build.2.memory).1 = .value (.error (.construction failedSum)) ∧
      entry.accessor.Follows path last ∧ failedSum = own.behind path ∧
      own.rootCause = .failed (.of .u8) "missing" := by
  obtain ⟨application, built⟩ := faulty.exists_application (by decide +kernel)
  have current : faulty.assembly = some Assembly.faulty := rfl
  have bare : faulty.applications = [] := rfl
  have calm : faulty.build.2.Calm := by
    refine reachable_faulty.sound.calm_build current ?_ Assembly.calm_faulty
    rintro accessor ⟨pool, entry, ⟨application, member, -⟩, -⟩
    rw [bare] at member
    cases member
  obtain ⟨-, -, -, accounts, goes, passes⟩ :=
    reachable_faulty.mirrors_dependencies current built .refl calm
  have seen : faulty.build.2.applications.map (fun application =>
      (application.exports.find? (.qualified .u32 "public")).map fun entry =>
        match ((Visit.mk faulty.build.2.memory.depth entry.accessor
          faulty.build.2.memory).result faulty.build.2.applications).1 with
        | .error error => some error
        | _ => none) = [some (some failedSum)] := by
    decide +kernel
  obtain ⟨memory, -, host_after, -⟩ := build_of_application current built
  have applications : faulty.build.2.applications = [application] := by rw [host_after, bare]; rfl
  have offers : faulty.build.2.Offers application.exports :=
    ⟨application, by rw [applications]; exact List.mem_cons_self, .inr rfl⟩
  generalize faulty.build.2 = later at *
  rw [applications, List.map_singleton, List.cons.injEq] at seen
  obtain ⟨entry, found, ends⟩ := Option.map_eq_some_iff.mp seen.1
  have fails : ((Visit.mk later.memory.depth entry.accessor later.memory).result
      later.applications).1 = .error failedSum := by
    split at ends
    · rename_i error ended
      rw [applications, ended, Option.some.inj ends]
    · cases ends
  obtain ⟨gives, -⟩ := passes _ _ entry offers found
  obtain ⟨path, last, own, follows, -, behind, root⟩ :=
    (goes ⟨_, entry.accessor, later.memory⟩ (knows_of_find? offers found) accounts).2 _ fails
  exact ⟨application, entry, path, last, own, built, found,
    congrArg Prod.fst (gives _ _ _ (Prod.ext fails rfl)).1, follows, behind, root.symm⟩

end Host

end Wiring
