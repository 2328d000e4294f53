import Wiring.Proofs.Shapes
import Wiring.Proofs.Wards
import Wiring.Stock

/-!
Resolution and lookup agree. At build time a dependency is looked up in the registries of a scope
and its ancestors; at run time a key is looked up in the layers of a pool. Each layer of a pool
matches the registry of the same scope, so both walks stop at the same entry.
-/

namespace Wiring

open Relation

namespace Assembly

variable {offered : Pool → Prop} {assembly : Assembly} {applications : List Application}
  {memory : Memory} {application : Application} {state : Memory × Compiled}

/-- The registry of a scope has the parent of the scope. -/
theorem survey_parent (wellFormed : assembly.WellFormed offered) {index : Nat} {registry : Registry}
    {scope : Scope} (held : assembly.survey.registries[index]? = some registry)
    (place : assembly.scopes[index]? = some scope) : registry.parent = scope.parent := by
  have places := (exportedDraft_sound wellFormed).places index
  rw [← survey_registries, held, place] at places
  exact (Prod.mk.inj (Option.some.inj places)).2

/-- The pool of a scope stands on the pool of the parent scope. -/
theorem Compiles.ancestors_eq
    (compiles : assembly.Compiles applications memory application state)
    (wellFormed : assembly.WellFormed offered) {index : Nat} {scope : Scope} {pool : Pool}
    (place : assembly.scopes[index]? = some scope)
    (found : application.pools[index]? = some pool) :
    (scope.parent = none → pool.ancestors = []) ∧
      ∀ parent, scope.parent = some parent → parent.index < index ∧
        ∃ upper, application.pools[parent.index]? = some upper ∧ pool.ancestors = upper.layers := by
  obtain ⟨registry, other, here, -, -, ancestors⟩ := compiles.stacked index pool found
  obtain rfl := Option.some.inj (place.symm.trans (List.getElem?_zip_eq_some.mp here).2)
  constructor
  · intro root
    rw [ancestors, root]
    rfl
  · intro parent above
    have lower := wellFormed.parents index scope place parent above
    have inside : index < application.pools.length := (List.getElem?_eq_some_iff.mp found).1
    have upper := List.getElem?_eq_getElem (lower.trans inside)
    refine ⟨lower, _, upper, ?_⟩
    rw [ancestors, above, Option.bind_some, List.getElem?_take_of_lt lower, upper]
    rfl

/-- The layers of a pool match the registries of its scope and of the ancestors of the scope. -/
theorem Compiles.layers_match
    (compiles : assembly.Compiles applications memory application state)
    (wellFormed : assembly.WellFormed offered) {index : Nat} {pool : Pool} {registry : Registry}
    (found : application.pools[index]? = some pool)
    (held : assembly.survey.registries[index]? = some registry) {length : Nat}
    (enough : index ≤ length) :
    List.Forall₂ (fun registry layer => layer.Matches registry state.2)
      (Registry.lineage assembly.survey.registries length registry) pool.layers := by
  induction length generalizing index pool registry with
  | zero =>
    obtain ⟨other, scope, place, -, fits, -⟩ := compiles.stacked index pool found
    obtain ⟨there, here⟩ := List.getElem?_zip_eq_some.mp place
    obtain rfl := Option.some.inj (held.symm.trans there)
    obtain ⟨root, below⟩ := compiles.ancestors_eq wellFormed here found
    unfold Registry.lineage Pool.layers
    cases parent : scope.parent with
    | none => exact root parent ▸ .cons fits .nil
    | some upper => exact absurd (below upper parent).1 (by omega)
  | succ length ih =>
    obtain ⟨other, scope, place, -, fits, -⟩ := compiles.stacked index pool found
    obtain ⟨there, here⟩ := List.getElem?_zip_eq_some.mp place
    obtain rfl := Option.some.inj (held.symm.trans there)
    obtain ⟨root, below⟩ := compiles.ancestors_eq wellFormed here found
    unfold Registry.lineage Pool.layers
    rw [survey_parent wellFormed held here]
    cases parent : scope.parent with
    | none => exact root parent ▸ .cons fits .nil
    | some upper =>
      obtain ⟨lower, higher, there, ancestors⟩ := below upper parent
      obtain ⟨above, has, -⟩ := compiles.scope_matches there
      rw [ancestors, Option.bind_some, has]
      exact .cons fits (ih there has (by omega))

/-- Resolution and lookup stop at the same entry. -/
theorem Compiles.rel_getNearest?
    (compiles : assembly.Compiles applications memory application state)
    (wellFormed : assembly.WellFormed offered) {index : Nat} {pool : Pool} {registry : Registry}
    (found : application.pools[index]? = some pool)
    (held : assembly.survey.registries[index]? = some registry) (key : Key) :
    Option.Rel (fun id entry => entry.key = key ∧ state.2 id = some entry.accessor)
      (registry.getNearest? assembly.survey.registries key) (pool.find? key) :=
  rel_findSome? ((compiles.layers_match wellFormed found held
    (Nat.le_of_lt (List.getElem?_eq_some_iff.mp held).1)).imp fun _ _ fits => fits.rel_find? key)

/-- The pool of the exports has an entry exactly for what is exported. -/
theorem Compiles.rel_get?_exports
    (compiles : assembly.Compiles applications memory application state) (key : Key) :
    Option.Rel (fun id entry => entry.key = key ∧ state.2 id = some entry.accessor)
      (assembly.survey.exports.get? key) (application.exports.find? key) := by
  have alone : application.exports.find? key = application.exports.layer.find? key := by
    rw [Pool.find?, Pool.layers, compiles.alone, List.findSome?_cons]
    cases application.exports.layer.find? key <;> rfl
  rw [alone]
  exact compiles.exports.rel_find? key

/-- Every scope has a pool and a registry. -/
theorem Compiles.exists_pool (compiles : assembly.Compiles applications memory application state)
    {index : Nat} {scope : Scope} (place : assembly.scopes[index]? = some scope) :
    ∃ pool registry, application.pools[index]? = some pool ∧
      assembly.survey.registries[index]? = some registry ∧ pool.name = scope.name := by
  have inside : index < application.pools.length := by
    rw [compiles.length]
    exact (List.getElem?_eq_some_iff.mp place).1
  have found := List.getElem?_eq_getElem inside
  obtain ⟨registry, other, here, name, -⟩ := compiles.stacked index _ found
  obtain ⟨held, same⟩ := List.getElem?_zip_eq_some.mp here
  obtain rfl := Option.some.inj (place.symm.trans same)
  exact ⟨_, registry, found, held, name⟩

end Assembly

namespace Blueprint

variable {blueprint : Blueprint} {applications : List Application} {compiled : Compiled}
  {id : EntryId} {entry : Entry} {factory : Factory} {accessor : Accessor}

/-- Whatever works for a factory entry is its producer, with its dependencies. -/
theorem WorksWith.producer_eq {dependencies : List (Key × Accessor)} {mode : InstantiationMode}
    (works : blueprint.WorksWith applications id entry factory dependencies mode accessor)
    {producer : Producer} (makes : accessor.producer? = some producer) :
    producer = blueprint.producerOf id entry factory ∧ accessor.dependencies = dependencies := by
  cases mode with
  | constant =>
    obtain ⟨number, handle, before, after, rfl, -⟩ := works
    cases makes
  | lazy =>
    obtain ⟨number, rfl⟩ := works
    exact ⟨(Option.some.inj makes).symm, rfl⟩
  | prototype =>
    obtain ⟨number, rfl⟩ := works
    exact ⟨(Option.some.inj makes).symm, rfl⟩

/-- A factory that is not constant works on. -/
theorem WorksWith.exists_producer {dependencies : List (Key × Accessor)}
    {mode : InstantiationMode}
    (works : blueprint.WorksWith applications id entry factory dependencies mode accessor)
    (other : mode ≠ .constant) : ∃ producer, accessor.producer? = some producer := by
  cases mode with
  | constant => exact absurd rfl other
  | lazy =>
    obtain ⟨number, rfl⟩ := works
    exact ⟨_, rfl⟩
  | prototype =>
    obtain ⟨number, rfl⟩ := works
    exact ⟨_, rfl⟩

/-- An accessor that works for a factory was imported, or it was compiled for the entry of the
factory. -/
theorem Shaped.of_producer {assembly : Assembly} (sound : blueprint.Sound assembly)
    (shaped : blueprint.Shaped applications compiled) (known : compiled id = some accessor)
    {producer : Producer} (makes : accessor.producer? = some producer) :
    (∃ imported, assembly.Imports imported ∧ accessor = imported.accessor) ∨
      ∃ id entry factory, blueprint.entries[id.index]? = some entry ∧
        entry.origin = .made factory ∧ compiled id = some accessor ∧
        producer = blueprint.producerOf id entry factory := by
  obtain ⟨entry, found, place, shape, direct⟩ := shaped.exists_producer sound known
  cases origin : entry.origin with
  | given handle =>
    rw [origin] at shape
    obtain ⟨number, rfl⟩ := shape
    cases makes
  | delegate target =>
    cases target with
    | entry target => exact absurd origin (direct target)
    | foreign imported =>
      rw [origin] at shape
      exact .inl ⟨imported, (sound.foreign found origin).1, shape⟩
  | made factory =>
    rw [origin] at shape
    obtain ⟨dependencies, -, works⟩ := shape
    exact .inr ⟨_, entry, factory, found, origin, place, (works.producer_eq makes).1⟩

end Blueprint

/-- Whatever works for a factory of the assembly is the accessor that was compiled for its
entry. -/
def Accessor.Among (number : Nat) (compiled : Compiled) (accessor : Accessor) : Prop :=
  ∀ producer, accessor.producer? = some producer → producer.factory.assembly = number →
    compiled ⟨producer.factory.entry⟩ = some accessor

namespace Discipline

/-- The discipline that only asks for no accessor to be unmade. -/
def growing : Discipline where
  holds _ := True
  leads := Memory.Grows
  breaks := True
  refl := Memory.Grows.refl
  trans := @Memory.Grows.trans
  like like _ := ⟨trivial, like.grows⟩

theorem growing_permits (producer : Producer) (gives : Key × Accessor → Instance → Prop)
    (dependencies : List (Key × Accessor)) : growing.Permits producer gives dependencies where
  begun _ _ := ⟨trivial, Nat.le_refl _⟩
  called _ _ _ _ := ⟨trivial, Nat.le_refl _⟩
  ended _ _ := ⟨trivial, Nat.le_refl _⟩

/-- No later run makes another accessor for a factory of the assembly. -/
theorem growing_ward (number : Nat) (compiled : Compiled) :
    Ward growing (fun _ _ => True) (Accessor.Among number compiled)
      (fun producer _ => producer.factory.assembly ≠ number) 0 where
  breaks := trivial
  governs _ _ _ latches surrounded below :=
    surrounded.respected_read latches trivial (fun _ _ => True) below
      (fun _ _ => growing_permits _ _ _)
      ⟨fun _ _ _ _ => trivial, fun _ _ _ _ _ => ⟨trivial, Nat.le_refl _⟩⟩ fun _ _ => trivial
  permits _ _ _ _ := growing_permits _ _ _
  joins _ _ _ admitted producer makes own := absurd own (admitted producer makes)
  counts _ _ := ⟨trivial, Nat.le_succ _⟩
  grows _ _ leads := leads

end Discipline

namespace Host

variable {host : Host} {assembly : Assembly} {application : Application}
  {state : Memory × Compiled}

/-- Whatever works for a factory of the assembly, in any later run, is the accessor that was
compiled for its entry. -/
theorem Sound.among_later (sound : host.Sound) (current : host.assembly = some assembly)
    {number : Nat} (built : host.build.1 = some (.application number application))
    (compiles : assembly.Compiles host.applications host.memory application state) {later : Host}
    (leads : host.build.2.Leads later) {accessor : Accessor} (knows : later.Knows accessor) :
    accessor.Among assembly.number state.2 := by
  have unspent {accessor : Accessor} (knows : host.Knows accessor) :
      accessor.Among assembly.number state.2 :=
    fun producer makes own => absurd own (sound.assembly_ne current knows makes)
  have grounded := sound.grounded current compiles.accepted
  have covered : host.build.2.Covered .growing (Accessor.Among assembly.number state.2) 0 := by
    refine ⟨fun accessor gathers => ?_, trivial, Nat.zero_le _⟩
    obtain ⟨pool, entry, offers, holds, within⟩ := gathers.resolve_right nofun
    obtain ⟨after, -, after_build, -⟩ := build_of_application current built
    rw [after_build] at offers
    have gathered := sound.knows_build current compiles offers holds within
    rcases gathered with known | ⟨id, known⟩
    · exact unspent known
    · intro producer makes own
      rcases Blueprint.Shaped.of_producer grounded.sound compiles.steps.shaped known makes with
        ⟨imported, imports, rfl⟩ | ⟨id, entry, factory, -, -, compiled, rfl⟩
      · exact unspent (grounded.imports imported imports).1 producer makes own
      · exact compiled
  exact (covered.leads (Discipline.growing_ward assembly.number state.2) (fun _ _ apart => apart)
    sound.build (sound.spent_build current) leads).2.guarded knows

/-- A factory works with the accessors that its scope sees under the keys of its dependencies. -/
theorem Sound.dependencies_visible (sound : host.Sound) (current : host.assembly = some assembly)
    (compiles : assembly.Compiles host.applications host.memory application state) {index : Nat}
    {entry : Entry} {factory : Factory} {pool : Pool}
    (declared : assembly.entries[index]? = some entry) (origin : entry.origin = .made factory)
    (found : application.pools[entry.scope.index]? = some pool) :
    ∃ dependencies accessor, state.2 ⟨index⟩ = some accessor ∧
      (assembly.blueprint assembly.survey).WorksWith host.applications ⟨index⟩ entry factory
        dependencies (entry.effectiveMode assembly.config.defaultMode) accessor ∧
      List.Forall₂ (fun key dependency => dependency.1 = key ∧
        ∃ visible, pool.find? key = some visible ∧ visible.accessor = dependency.2)
        entry.dependencies dependencies := by
  have wellFormed := sound.wellFormed assembly current
  obtain ⟨accessor, known⟩ := compiles.declared wellFormed declared
  have shape := compiles.steps.shaped.shape (sound.found current declared) known
  rw [origin] at shape
  obtain ⟨dependencies, covers, works⟩ := shape
  obtain ⟨registry, held, -⟩ := compiles.scope_matches found
  have linked := Assembly.links_exportedDraft compiles.accepted
    ((Assembly.exportedDraft_sound wellFormed).declared declared)
    (entry.isFactory_iff.mpr ⟨factory, origin⟩)
  refine ⟨dependencies, accessor, known, works, forall₂_of_zip linked covers ?_⟩
  intro key id dependency nearest fits
  obtain ⟨same, compiled⟩ := fits
  have agree := compiles.rel_getNearest? wellFormed found held key
  unfold Draft.nearest? at nearest
  rw [Assembly.registry_exportedDraft held, ← Assembly.survey_registries] at nearest
  rw [nearest] at agree
  generalize visible : pool.find? key = result at agree
  cases agree with
  | some related => exact ⟨same, _, rfl, Option.some.inj (related.2.symm.trans compiled)⟩

/-- Resolution and lookup agree for every application that is built. Each scope has a pool that
stands on the pool of its parent, and under every key the pool has an entry exactly when the
registries of the scope and its ancestors have one; then its accessor is the one compiled for that
entry. So a factory works with one accessor for each declared dependency, in order and under its
key: the one that its scope sees. A delegate shares the accessor of what it leads to, and no later
run makes another accessor for a factory of the assembly. -/
theorem Reachable.lookup_agrees (reachable : host.Reachable)
    (current : host.assembly = some assembly) {number : Nat}
    (built : host.build.1 = some (.application number application)) :
    ∃ state : Memory × Compiled,
      assembly.Compiles host.applications host.memory application state ∧
      (∀ (index : Nat) (scope : Scope), assembly.scopes[index]? = some scope →
        ∃ (pool : Pool) (registry : Registry), application.pools[index]? = some pool ∧
          assembly.survey.registries[index]? = some registry ∧
          (∀ key : Key, Option.Rel
            (fun (id : EntryId) (entry : RuntimeEntry) =>
              entry.key = key ∧ state.2 id = some entry.accessor)
            (registry.getNearest? assembly.survey.registries key) (pool.find? key)) ∧
          pool.name = scope.name ∧
          (scope.parent = none → pool.ancestors = []) ∧
          ∀ parent : ScopeId, scope.parent = some parent → ∃ upper : Pool,
            application.pools[parent.index]? = some upper ∧ pool.ancestors = upper.layers) ∧
      (∀ (index : Nat) (entry : Entry) (factory : Factory) (pool : Pool),
        assembly.entries[index]? = some entry → entry.origin = .made factory →
        application.pools[entry.scope.index]? = some pool →
        ∃ (dependencies : List (Key × Accessor)) (accessor : Accessor),
          state.2 ⟨index⟩ = some accessor ∧
          (assembly.blueprint assembly.survey).WorksWith host.applications ⟨index⟩ entry factory
            dependencies (entry.effectiveMode assembly.config.defaultMode) accessor ∧
          List.Forall₂ (fun (key : Key) (dependency : Key × Accessor) => dependency.1 = key ∧
            ∃ visible : RuntimeEntry, pool.find? key = some visible ∧
              visible.accessor = dependency.2)
            entry.dependencies dependencies) ∧
      (∀ (id : EntryId) (entry : Entry) (accessor : Accessor),
        assembly.survey.entries[id.index]? = some entry → state.2 id = some accessor →
        (∀ target : EntryId, entry.origin = .delegate (.entry target) →
          state.2 target = some accessor) ∧
        ∀ imported : RuntimeEntry, entry.origin = .delegate (.foreign imported) →
          accessor = imported.accessor) ∧
      ∀ later : Host, host.build.2.Leads later → ∀ accessor : Accessor, later.Knows accessor →
        ∀ producer : Producer, accessor.producer? = some producer →
          producer.factory.assembly = assembly.number →
          state.2 ⟨producer.factory.entry⟩ = some accessor := by
  have sound := reachable.sound
  have wellFormed := sound.wellFormed assembly current
  obtain ⟨state, compiles⟩ := sound.exists_compiles current built
  refine ⟨state, compiles, fun index scope place => ?_, fun index entry factory pool => ?_,
    fun id entry accessor found known => ?_, fun later leads accessor knows => ?_⟩
  · obtain ⟨pool, registry, found, held, name⟩ := compiles.exists_pool place
    obtain ⟨root, below⟩ := compiles.ancestors_eq wellFormed place found
    exact ⟨pool, registry, found, held, compiles.rel_getNearest? wellFormed found held, name, root,
      fun parent above => (below parent above).2⟩
  · exact sound.dependencies_visible current compiles
  · have shape := compiles.steps.shaped.shape found known
    constructor
    · intro target origin
      rw [origin] at shape
      exact shape
    · intro imported origin
      rw [origin] at shape
      exact shape
  · exact sound.among_later current built compiles leads knows

theorem lookup_agrees_sample :
    ∃ application pool dependencies, sample.build.1 = some (.application 0 application) ∧
      application.pools[0]? = some pool ∧ pool.ancestors = [] ∧
      List.Forall₂ (fun (key : Key) (dependency : Key × Accessor) => dependency.1 = key ∧
        ∃ visible : RuntimeEntry, pool.find? key = some visible ∧
          visible.accessor = dependency.2)
        [.of .u16, .of .u32] dependencies := by
  obtain ⟨application, built⟩ := built_sample
  obtain ⟨scope, place, root⟩ : ∃ scope : Scope, Assembly.sample.scopes[0]? = some scope ∧
      scope.parent = none := by
    have first : Assembly.sample.scopes[0]?.map Scope.parent = some none := by
      decide +kernel
    exact Option.map_eq_some_iff.mp first
  obtain ⟨entry, declared, facts⟩ : ∃ entry, Assembly.sample.entries[3]? = some entry ∧
      (entry.isFactory, entry.scope.index, entry.dependencies) =
        (true, 0, [Key.of .u16, Key.of .u32]) :=
    Option.map_eq_some_iff.mp (by decide +kernel)
  obtain ⟨makes, home, keys⟩ : entry.isFactory = true ∧ entry.scope.index = 0 ∧
      entry.dependencies = [Key.of .u16, Key.of .u32] := by simpa using facts
  obtain ⟨factory, origin⟩ := entry.isFactory_iff.mp makes
  obtain ⟨state, -, scopes, factories, -⟩ :=
    reachable_sample.lookup_agrees assembly_sample built
  obtain ⟨pool, registry, found, -, -, -, above, -⟩ := scopes 0 scope place
  obtain ⟨dependencies, accessor, -, -, visible⟩ :=
    factories 3 entry factory pool declared origin (by rw [home]; exact found)
  rw [keys] at visible
  exact ⟨application, pool, dependencies, built, found, above root, visible⟩

end Host

end Wiring
