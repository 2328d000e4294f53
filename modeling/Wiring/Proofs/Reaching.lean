import Wiring.Proofs.Hosts
import Wiring.Recipe
import Wiring.Stock

/-!
Every reachable host is sound. What is left to show is that a build keeps it so: the compilation
adds accessors to the arena, and the new pools hold no others.
-/

namespace Wiring

open Relation

section Joining

variable {path : PoolPath} {application : Application} {applications : List Application}

/-- What resolves while the bundles of an application finish is a pool of that one, or resolves
anyway. -/
theorem PoolPath.resolve?_joining {pool : Pool}
    (place : path.resolve? (application.joining applications) = some pool) :
    path.resolve? applications = some pool ∨ application.pool? path.pool = some pool := by
  obtain ⟨other, found, named⟩ := Option.bind_eq_some_iff.mp place
  unfold PoolPath.application? Application.joining at found
  rw [List.filter_append, List.getElem?_append] at found
  split at found
  · exact .inl (Option.bind_eq_some_iff.mpr ⟨other, found, named⟩)
  · have member := List.mem_of_mem_filter (List.mem_of_getElem? found)
    rw [List.mem_singleton.mp member] at named
    exact .inr named

/-- While the bundles of an application finish, those who hold a pool of it find it. -/
theorem PoolPath.resolve?_of_held (held : path.held = true)
    (last : path.application = applications.length) :
    path.resolve? (application.joining applications) = application.pool? path.pool := by
  unfold PoolPath.resolve? PoolPath.application? Application.joining
  rw [held, List.filter_eq_self.mpr fun _ _ => Bool.true_or _, last, List.getElem?_concat_length]
  rfl

/-- The others find what they found before. -/
theorem PoolPath.resolve?_of_not_held (free : path.held = false) :
    path.resolve? (application.joining applications) = path.resolve? applications := by
  have same : path.application? (application.joining applications) =
      path.application? applications := by
    unfold PoolPath.application? Application.joining
    rw [List.filter_append, free]
    exact congrArg (fun built : List Application => built[path.application]?) (List.append_nil _)
  rw [PoolPath.resolve?, same, PoolPath.resolve?]

/-- A bundle asks for a value when it finishes, whose factory looks up another one in the pool that
it holds. -/
def Host.holding : Host :=
  let factory : Factory := ⟨"holding", fun _ _ => .lookup ⟨0, .root, true⟩ (.of .u8) fun answer =>
    if answer.isSome then .give (.ofParts .u16 5 "") else .panic "nothing is held"⟩
  ((Host.new.start (.named "holding")).declare (declareIn .root
    (.install ⟨"asking", .script "asking" [.ask (.get (.of .u16) .u16 .keyed)]⟩ fun _ =>
      [.provide (.given (.ofParts .u8 7 "") none) [],
        .provide (.typed .u16 none [] factory) [.choose .lazy]]))).2

example : Host.holding.build.2.applications.map (fun application =>
    (application.pools.flatMap Pool.localEntries).map fun entry =>
      Host.holding.build.2.memory.stateOf entry.accessor) = [[none, some .ready]] := by
  decide +kernel

end Joining

namespace Assembly

variable {assembly : Assembly} {applications : List Application} {memory : Memory}
  {application : Application} {state : Memory × Compiled}

/-- Every layer of a compiled application is that of one of its pools. -/
theorem Compiles.exists_owner (compiles : assembly.Compiles applications memory application state)
    {pool : Pool} (has : application.Has pool) :
    ∀ layer ∈ pool.layers, ∃ owner, application.Has owner ∧ owner.layer = layer := by
  rcases has with member | rfl
  · obtain ⟨index, found⟩ := List.getElem?_of_mem member
    clear member
    -- The layers above a pool are those of an earlier pool.
    induction index using Nat.strong_induction_on generalizing pool with
    | _ index ih =>
      obtain ⟨registry, scope, -, -, -, ancestors⟩ := compiles.stacked index pool found
      intro layer member
      rcases List.mem_cons.mp member with rfl | above
      · exact ⟨pool, .inl (List.mem_of_getElem? found), rfl⟩
      · rw [ancestors] at above
        cases parent : scope.parent.bind fun parent =>
            (application.pools.take index)[parent.index]? with
        | none => simp [parent] at above
        | some upper =>
          obtain ⟨id, -, earlier⟩ := Option.bind_eq_some_iff.mp parent
          rw [List.getElem?_take] at earlier
          split at earlier
          · rename_i before
            rw [parent] at above
            exact ih id.index before earlier layer above
          · cases earlier
  · intro layer member
    rcases List.mem_cons.mp member with rfl | above
    · exact ⟨application.exports, .inr rfl, rfl⟩
    · rw [compiles.alone] at above
      cases above

/-- Every layer of a compiled application holds the accessors of the registrations of some
registry. -/
theorem Compiles.layer_matches
    (compiles : assembly.Compiles applications memory application state) {pool : Pool}
    (has : application.Has pool) :
    ∀ layer ∈ pool.layers, ∃ registry, (registry ∈ assembly.survey.registries ∨
      registry = assembly.survey.exports) ∧ layer.Matches registry state.2 := by
  intro layer member
  obtain ⟨owner, has, rfl⟩ := compiles.exists_owner has layer member
  rcases has with member | rfl
  · obtain ⟨index, found⟩ := List.getElem?_of_mem member
    obtain ⟨registry, scope, place, -, fits, -⟩ := compiles.stacked index owner found
    exact ⟨registry, .inl (List.of_mem_zip (List.mem_of_getElem? place)).1, fits⟩
  · exact ⟨assembly.survey.exports, .inr rfl, compiles.exports⟩

/-- An entry of a compiled application has the accessor of a registration under its key. -/
theorem Compiles.registered
    (compiles : assembly.Compiles applications memory application state) {pool : Pool}
    (has : application.Has pool) {layer : Layer} (member : layer ∈ pool.layers)
    {item : Key × RuntimeEntry} (among : item ∈ layer.entries) :
    ∃ registry id, (registry ∈ assembly.survey.registries ∨ registry = assembly.survey.exports) ∧
      (item.1, id) ∈ registry.registrations ∧ item.2.key = item.1 ∧
      state.2 id = some item.2.accessor := by
  obtain ⟨registry, origin, fits⟩ := compiles.layer_matches has layer member
  obtain ⟨pair, held, key, same, known⟩ := exists_of_forall₂_right fits among
  exact ⟨registry, pair.2, origin, by rw [key]; exact held, same.trans key.symm, known⟩

/-- Every accessor in a compiled application was compiled. -/
theorem Compiles.compiled (compiles : assembly.Compiles applications memory application state)
    {pool : Pool} (has : application.Has pool) {entry : RuntimeEntry} (holds : pool.Holds entry) :
    ∃ id, state.2 id = some entry.accessor := by
  obtain ⟨layer, member, item, among, rfl⟩ := holds
  obtain ⟨registry, id, -, -, -, known⟩ := compiles.registered has member among
  exact ⟨id, known⟩

/-- The pool of a scope holds what its registry holds. -/
theorem Compiles.scope_matches
    (compiles : assembly.Compiles applications memory application state) {index : Nat} {pool : Pool}
    (found : application.pools[index]? = some pool) :
    ∃ registry, assembly.survey.registries[index]? = some registry ∧
      pool.layer.Matches registry state.2 := by
  obtain ⟨registry, scope, place, -, fits, -⟩ := compiles.stacked index pool found
  exact ⟨registry, (List.getElem?_zip_eq_some.mp place).1, fits⟩

/-- A declared entry stands under its own key in the pool of its scope. -/
theorem Compiles.exists_own {offered : Pool → Prop}
    (compiles : assembly.Compiles applications memory application state)
    (wellFormed : assembly.WellFormed offered) {index : Nat} {entry : Entry}
    (found : assembly.entries[index]? = some entry) :
    ∃ home own, application.pools[entry.scope.index]? = some home ∧
      home.layer.find? entry.key = some own ∧ state.2 ⟨index⟩ = some own.accessor := by
  obtain ⟨scope, here, -⟩ := wellFormed.placed index entry found
  have inside : entry.scope.index < application.pools.length := by
    rw [compiles.length]
    exact (List.getElem?_eq_some_iff.mp here).1
  have place := List.getElem?_eq_getElem inside
  obtain ⟨registry, held, fits⟩ := compiles.scope_matches place
  have registered := get?_exportedDraft wellFormed compiles.accepted found
  rw [registry_exportedDraft held] at registered
  have listed := fits.rel_find? entry.key
  rw [registered] at listed
  obtain ⟨own, listed, -, known⟩ := exists_of_rel_some listed
  exact ⟨_, own, place, listed, known⟩

/-- Every declared entry is compiled. -/
theorem Compiles.declared {offered : Pool → Prop}
    (compiles : assembly.Compiles applications memory application state)
    (wellFormed : assembly.WellFormed offered) {index : Nat} {entry : Entry}
    (found : assembly.entries[index]? = some entry) :
    ∃ accessor, state.2 ⟨index⟩ = some accessor := by
  obtain ⟨home, own, -, -, known⟩ := compiles.exists_own wellFormed found
  exact ⟨own.accessor, known⟩

/-- While bundles finish, the pools of the application show no other accessors. -/
theorem Compiles.closed_joining {applications : List Application} {memory : Memory}
    {application : Application} {state : Memory × Compiled} {base : Accessor → Prop}
    (compiles : assembly.Compiles applications memory application state)
    (closed : Closed applications (state.2.Gathers base)) :
    Closed (application.joining applications) (state.2.Gathers base) where
  dependencies := closed.dependencies
  visible path pool key entry place found := by
    rcases PoolPath.resolve?_joining place with old | own
    · exact closed.visible path pool key entry old found
    · obtain ⟨id, known⟩ :=
        compiles.compiled (Application.has_of_pool? own) (Pool.holds_of_find? found)
      exact .inr ⟨id, known⟩

/-- Finishing keeps what every reading of the gathered accessors keeps. -/
theorem Compiles.serves_of_pervades {applications others : List Application} {memory : Memory}
    {application : Application} {state : Memory × Compiled} {base : Accessor → Prop}
    {discipline : Discipline} {gives : Accessor → Instance → Prop}
    (compiles : assembly.Compiles applications memory application state)
    (pervades : discipline.Pervades others (state.2.Gathers base) gives) :
    ∀ pool ∈ application.pools, discipline.Serves others gives pool := by
  intro pool member key entry found
  obtain ⟨id, known⟩ := compiles.compiled (.inl member) (Pool.holds_of_find? found)
  exact pervades.respected_value entry.accessor (.inr ⟨id, known⟩)

theorem Compiles.serves {applications : List Application} {memory : Memory}
    {application : Application} {state : Memory × Compiled} {base : Accessor → Prop}
    {discipline : Discipline} {gives : Accessor → Instance → Prop}
    (compiles : assembly.Compiles applications memory application state)
    (governs : discipline.Governs (state.2.Gathers base) gives) (breaks : discipline.breaks)
    (closed : Closed applications (state.2.Gathers base)) :
    ∀ pool ∈ application.pools,
      discipline.Serves (application.joining applications) gives pool :=
  compiles.serves_of_pervades (governs.pervades breaks (compiles.closed_joining closed))

end Assembly

namespace Host

variable {host : Host} {assembly : Assembly}

/-- What an assembly imports stands in a pool of the host. -/
theorem Sound.offers_imported (sound : host.Sound) (current : host.assembly = some assembly)
    {imported : RuntimeEntry} (imports : assembly.Imports imported) :
    ∃ pool, host.Offers pool ∧ pool.Holds imported := by
  obtain ⟨scope, member, use, among, pool, source, visible⟩ := imports
  obtain ⟨index, place⟩ := List.getElem?_of_mem member
  have proper := (sound.wellFormed assembly current).scopes index scope place
  exact ⟨pool, (proper.imports use among).source pool source, Pool.holds_of_visible visible⟩

/-- The compilation of an assembly goes on among the pools of a sound host. -/
theorem Sound.grounded (sound : host.Sound) (current : host.assembly = some assembly)
    (accepted : assembly.survey.accepted = true) :
    (assembly.blueprint assembly.survey).Grounded assembly host.applications host.Begun
      host.Knows where
  sound := Assembly.blueprint_sound (sound.wellFormed assembly current) accepted
  closed := host.closed
  imports := by
    intro imported imports
    obtain ⟨pool, offers, holds⟩ := sound.offers_imported current imports
    refine ⟨⟨pool, imported, offers, holds, .self⟩, ?_⟩
    obtain ⟨layer, within, item, listed, rfl⟩ := holds
    obtain ⟨key, type⟩ := sound.typed pool offers layer within item listed
    rw [key, type]
  spent := sound.number assembly current

/-- A declared entry stands in the blueprint of its assembly. -/
theorem Sound.found (sound : host.Sound) (current : host.assembly = some assembly) {index : Nat}
    {entry : Entry} (declared : assembly.entries[index]? = some entry) :
    (assembly.blueprint assembly.survey).entries[index]? = some entry :=
  Assembly.blueprint_found (sound.wellFormed assembly current) declared

/-- The memory of a sound host when a build has been announced. -/
theorem Sound.announced (sound : host.Sound) (assembly : Assembly) :
    Arena host.Begun host.Knows (assembly.announced host.memory) :=
  (sound.arena.mono (fun _ knows => knows) fun _ spent => spent.1).like
    (assembly.like_announced host.memory)

/-- Every state of the compilation keeps the arena. -/
theorem Sound.progress (sound : host.Sound) (current : host.assembly = some assembly)
    (accepted : assembly.survey.accepted = true) {state : Memory × Compiled}
    (steps : (assembly.blueprint assembly.survey).Steps host.applications
      (assembly.announced host.memory, Compiled.empty) state) :
    (assembly.blueprint assembly.survey).Progress host.Begun host.Knows state :=
  steps.progress (sound.grounded current accepted) (.start (sound.announced assembly))

/-- The bundles of a compiled application keep the arena when they finish. -/
theorem Sound.finished (sound : host.Sound) (current : host.assembly = some assembly)
    {application : Application} {state : Memory × Compiled}
    (compiles : assembly.Compiles host.applications host.memory application state) :
    Arena host.Begun (state.2.Gathers host.Knows)
      (finishEach host.applications application assembly.installations state.1).2 := by
  have progress := sound.progress current compiles.accepted compiles.steps
  have serves := compiles.serves (Arena.governs host.Begun (state.2.Gathers host.Knows)) trivial
    (progress.closed_gathers host.closed)
  exact ((Discipline.respected_finishEach serves (.inl trivial)).passes progress.arena).1

/-- A constant that fails or is broken off leaves the arena. -/
theorem Sound.invoked (sound : host.Sound) (current : host.assembly = some assembly)
    (accepted : assembly.survey.accepted = true) {state : Memory × Compiled}
    (steps : (assembly.blueprint assembly.survey).Steps host.applications
      (assembly.announced host.memory, Compiled.empty) state)
    {id : EntryId} {entry : Entry} {factory : Factory} {dependencies : List (Key × Accessor)}
    (prepares : (assembly.blueprint assembly.survey).Prepares .constant state.2 id entry factory
      dependencies) :
    Arena host.Begun (state.2.Gathers host.Knows)
      ((assembly.blueprint assembly.survey).invocation host.applications id entry factory
        dependencies state.1).2 := by
  have progress := sound.progress current accepted steps
  exact ((progress.respected_invocation (sound.grounded current accepted) prepares).passes
    progress.arena).1

/-- Whatever a build comes to, the accessors known before keep their arena, and a new application
adds those that were compiled for it. -/
theorem Sound.build_yields (sound : host.Sound) (current : host.assembly = some assembly) :
    Attempt.Yields (assembly.build host.applications) host.memory
      (fun application after => ∃ state,
        assembly.Compiles host.applications host.memory application state ∧
        Arena host.Begun (state.2.Gathers host.Knows) after)
      (fun _ after => Arena host.Begun host.Knows after)
      (fun after => Arena host.Begun host.Knows after) := by
  have fewer {compiled : Compiled} {memory : Memory}
      (arena : Arena host.Begun (compiled.Gathers host.Knows) memory) :
      Arena host.Begun host.Knows memory :=
    arena.mono (fun _ knows => .inl knows) fun _ begun => begun
  refine (Assembly.build_keeps (sound.wellFormed assembly current) (sound.announced assembly)
    fun accepted _ steps _ _ _ _ prepares =>
      fewer (sound.invoked current accepted steps prepares)).mono ?_ (fun _ _ kept => kept)
    fun _ kept => kept
  intro application after yielded
  obtain ⟨state, compiles, finish⟩ := yielded
  exact ⟨state, compiles, (sound.finished current compiles).like (Assembly.like_of_finish finish)⟩

/-- What the host knows after a build was known before or was compiled. -/
theorem Sound.knows_build (sound : host.Sound) (current : host.assembly = some assembly)
    {application : Application} {state : Memory × Compiled}
    (compiles : assembly.Compiles host.applications host.memory application state)
    {accessor : Accessor} {pool : Pool} {entry : RuntimeEntry}
    (offers : ∃ other ∈ host.applications ++ [application], other.Has pool)
    (holds : pool.Holds entry) (within : entry.accessor.Within accessor) :
    state.2.Gathers host.Knows accessor := by
  obtain ⟨other, member, has⟩ := offers
  rcases List.mem_append.mp member with old | new
  · exact .inl ⟨pool, entry, ⟨other, old, has⟩, holds, within⟩
  · rw [List.mem_singleton.mp new] at has
    obtain ⟨id, known⟩ := compiles.compiled has holds
    have progress := sound.progress current compiles.accepted compiles.steps
    exact within.of_closed (progress.closed_gathers host.closed).dependencies (.inr ⟨id, known⟩)

/-- The pools of a compiled application are typed. -/
theorem Sound.typed_build (sound : host.Sound) (current : host.assembly = some assembly)
    {application : Application} {state : Memory × Compiled}
    (compiles : assembly.Compiles host.applications host.memory application state)
    {pool : Pool} (has : application.Has pool) : pool.Typed := by
  intro layer member item among
  obtain ⟨registry, id, origin, held, key, known⟩ := compiles.registered has member among
  have progress := sound.progress current compiles.accepted compiles.steps
  obtain ⟨entry, found, type⟩ := progress.typed id _ known
  obtain ⟨other, place, same⟩ :=
    Assembly.survey_holds (sound.wellFormed assembly current) origin _ held
  obtain rfl := Option.some.inj (found.symm.trans place)
  exact ⟨key, by rw [type, same]⟩

/-- A build keeps a host sound. -/
theorem Sound.build (sound : host.Sound) : host.build.2.Sound := by
  cases current : host.assembly with
  | none =>
    rw [build_eq, current]
    exact sound
  | some assembly =>
    have kept {memory : Memory} (arena : Arena host.Begun host.Knows memory) :
        Sound ⟨host.begun, none, host.applications, memory⟩ :=
      ⟨arena.mono (fun _ knows => knows) fun _ begun => ⟨begun, nofun⟩, sound.typed, nofun, nofun⟩
    refine build_of_yields current ((sound.build_yields current).mono ?_
      (fun _ _ arena => kept arena) fun _ arena => kept arena)
    intro application after yielded
    obtain ⟨state, compiles, arena⟩ := yielded
    refine ⟨arena.mono ?_ fun _ begun => ⟨begun, nofun⟩, ?_, nofun, nofun⟩
    · intro accessor knows
      obtain ⟨pool, entry, offers, holds, within⟩ := knows
      exact sound.knows_build current compiles offers holds within
    · intro pool offers
      obtain ⟨other, member, has⟩ := offers
      rcases List.mem_append.mp member with old | new
      · exact sound.typed pool ⟨other, old, has⟩
      · rw [List.mem_singleton.mp new] at has
        exact sound.typed_build current compiles has

/-- A build that gave an application adds it to the host; all its bundles have finished. -/
theorem build_of_application (current : host.assembly = some assembly) {number : Nat}
    {application : Application} (built : host.build.1 = some (.application number application)) :
    ∃ after, assembly.build host.applications host.memory = (.value application, after) ∧
      host.build.2 =
        { host with
          assembly := none
          applications := host.applications ++ [application]
          memory := after } ∧
      application.halt = none := by
  unfold Host.build at built ⊢
  rw [current] at built ⊢
  dsimp only at built ⊢
  generalize assembly.build host.applications host.memory = result at built ⊢
  obtain ⟨ending, after⟩ := result
  cases ending with
  | error error => cases built
  | panic message => cases built
  | exhausted => cases built
  | value other =>
    obtain ⟨rfl, whole⟩ := Built.of_eq_application (Option.some.inj built)
    exact ⟨after, rfl, rfl, whole⟩

/-- The application that a build gave was compiled. -/
theorem Sound.exists_compiles (sound : host.Sound) (current : host.assembly = some assembly)
    {number : Nat} {application : Application}
    (built : host.build.1 = some (.application number application)) :
    ∃ state, assembly.Compiles host.applications host.memory application state := by
  obtain ⟨after, builds, -⟩ := build_of_application current built
  obtain ⟨state, compiles, -⟩ := (Assembly.build_yields (sound.wellFormed assembly current)
    host.applications host.memory).of_value builds
  exact ⟨state, compiles⟩

/-- A build after which there are more built applications gave one. -/
theorem exists_application (host : Host)
    (grown : host.built.length < host.build.2.built.length) :
    ∃ application, host.build.1 = some (.application host.built.length application) := by
  unfold Host.build at grown ⊢
  cases current : host.assembly with
  | none => simp [current] at grown
  | some assembly =>
    simp only [current] at grown ⊢
    generalize assembly.build host.applications host.memory = result at grown ⊢
    obtain ⟨ending, after⟩ := result
    cases ending with
    | error error => simp [built] at grown
    | panic message => simp [built] at grown
    | exhausted => simp [built] at grown
    | value application =>
      refine ⟨application, ?_⟩
      cases whole : application.halt with
      | none => simp [Built.of, whole]
      | some halt => simp [built, whole] at grown

/-- Every move keeps a host sound. -/
theorem Sound.moves (sound : host.Sound) {after : Host} (moves : host.Moves after) :
    after.Sound := by
  cases moves with
  | start config => exact sound.start config
  | addScope name parent =>
    exact sound.declare fun assembly wellFormed => Declaring.keeps_addScope wellFormed name parent
  | declare scope declaration draws =>
    exact sound.declare fun assembly wellFormed => keeps_declareIn wellFormed draws scope
  | build => exact sound.build
  | ask path query => exact sound.ask path query
  | collect => exact sound.collect

/-- What a sound host leads to is sound. -/
theorem Sound.leads (sound : host.Sound) {after : Host} (leads : host.Leads after) :
    after.Sound := by
  induction leads with
  | refl => exact sound
  | tail _ moves ih => exact ih.moves moves

/-- Every reachable host is sound. -/
theorem Reachable.sound (reachable : host.Reachable) : host.Sound := by
  obtain ⟨patience, leads⟩ := reachable
  exact (sound_patient patience).leads leads

theorem Reachable.leads (reachable : host.Reachable) {later : Host} (leads : host.Leads later) :
    later.Reachable := by
  obtain ⟨patience, earlier⟩ := reachable
  exact ⟨patience, earlier.trans leads⟩

/-- What holds before anything was done, and is kept by every move of a sound host, holds of every
reachable host. -/
theorem Reachable.induct {property : Host → Prop} (reachable : host.Reachable)
    (start : ∀ patience, property (patient patience))
    (step : ∀ before after, before.Sound → before.Moves after → property before →
      property after) : property host := by
  obtain ⟨patience, leads⟩ := reachable
  induction leads with
  | refl => exact start patience
  | tail earlier moves ih => exact step _ _ (Reachable.sound ⟨patience, earlier⟩) moves ih

/-- Several providers are declared in the root scope, each in its mode. -/
def provideEach (host : Host) (providers : List (Provider × InstantiationMode)) : Host :=
  providers.foldl (fun host pair =>
    (host.declare (declareIn .root (.provide pair.1 [.choose pair.2]))).2) host

theorem leads_provideEach (host : Host) (providers : List (Provider × InstantiationMode)) :
    host.Leads (host.provideEach providers) := by
  induction providers generalizing host with
  | nil => exact .refl
  | cons pair rest ih =>
    have first : (Declaration.provide pair.1 [.choose pair.2]).Draws host.Offers := trivial
    exact .head (.declare host .root _ first) (ih _)

/-- Declarations are made in the root scope one after the other. -/
def declareEach (host : Host) (declarations : List Declaration) : Host :=
  declarations.foldl (fun host declaration => (host.declare (declareIn .root declaration)).2) host

theorem leads_declareEach (host : Host) (declarations : List Declaration)
    (draws : ∀ offered, Declaration.DrawsEach offered declarations) :
    host.Leads (host.declareEach declarations) := by
  induction declarations generalizing host with
  | nil => exact .refl
  | cons declaration rest ih =>
    exact .head (.declare host .root declaration (draws host.Offers).1)
      (ih _ fun offered => (draws offered).2)

end Host

/-- A closure that adds one to the numbers of its parameters. -/
def Signature.addition (signature : Signature) : Factory :=
  .ofInfallible signature.parameters fun _ values =>
    .give (.ofParts signature.output ((values.map Value.number).foldl (· + ·) 1) "")

/-- The provider of such a closure. -/
def Signature.adding (signature : Signature) : Provider :=
  .typed signature.output none signature.dependencies signature.addition

/-- A host that is about to build a number and three sums on top of it, one in each mode. -/
def Host.sample : Host :=
  (Host.new.start (.named "sample")).provideEach
    [(.given (.ofParts .u8 7 "") none, .constant),
      (Signature.adding ⟨.u16, [.u8]⟩, .lazy),
      (Signature.adding ⟨.u32, [.u16]⟩, .constant),
      (Signature.adding ⟨.u64, [.u16, .u32]⟩, .prototype)]

theorem Host.reachable_sample : Host.sample.Reachable :=
  ⟨0, .head (.start _ _) (Host.leads_provideEach _ _)⟩

/-- The assembly that the sample is about to build. -/
def Assembly.sample : Assembly := Host.sample.assembly.get (by decide +kernel)

theorem Host.assembly_sample : Host.sample.assembly = some Assembly.sample :=
  (Option.some_get _).symm

theorem Host.built_sample :
    ∃ application, Host.sample.build.1 = some (.application 0 application) :=
  Host.sample.exists_application (by decide +kernel)

end Wiring
