import Wiring.Proofs.Descriptions
import Wiring.Proofs.Lookup
import Wiring.Proofs.Provenance

/-!
From the entries of the pools back to their producers. Every entry of a pool renders a registration
of the resolution, and each registration leads to a producer that came there by the declarations.
The accessor and the description of the entry are those of the producer.
-/

namespace Wiring

/-- The pool of a scope, or that of the exports when no scope is given. -/
def Application.poolFor? (application : Application) : Option ScopeId → Option Pool
  | some scope => application.poolAt? (.scope scope.index)
  | none => application.poolAt? .exports

/-- The registry of a scope, or that of the exports when no scope is given. -/
def Resolution.registryFor? (resolution : Resolution) : Option ScopeId → Option Registry
  | some scope => resolution.registries[scope.index]?
  | none => some resolution.exports

/-- The entry has the accessor, the mode and the description of its producer. A producer of the
assembly stands under its own key in the pool of the scope that declared it, and its mode is the
chosen one or the default. -/
inductive Application.Traces (application : Application) (assembly : Assembly)
    (entry : RuntimeEntry) : Delegate → Prop
  | declared {id : EntryId} {provider : Entry} {home : Pool} {own : RuntimeEntry}
      (found : assembly.entries[id.index]? = some provider)
      (place : application.poolFor? (some provider.scope) = some home)
      (listed : home.layer.find? provider.key = some own)
      (accessor : entry.accessor = own.accessor)
      (mode : entry.mode = provider.effectiveMode assembly.config.defaultMode)
      (description : entry.description = provider.description) :
      Traces application assembly entry (.entry id)
  | imported {imported : RuntimeEntry} (accessor : entry.accessor = imported.accessor)
      (mode : entry.mode = imported.mode) (description : entry.description = imported.description) :
      Traces application assembly entry (.foreign imported)

namespace Delegate

/-- The accessor was compiled for the producer, or it came with it. -/
def Backs (compiled : Compiled) (accessor : Accessor) : Delegate → Prop
  | .entry id => compiled id = some accessor
  | .foreign imported => accessor = imported.accessor

/-- The description of the producer. -/
def description (entries : List Entry) : Delegate → Option String
  | .entry id => entries[id.index]?.bind Entry.description
  | .foreign imported => imported.description

end Delegate

/-- Each entry of the layer renders a registration, in order: it stands under the same key, with the
accessor that was compiled and the description that is known. -/
def Layer.Renders (layer : Layer) (blueprint : Blueprint) (registry : Registry)
    (compiled : Compiled) : Prop :=
  List.Forall₂ (fun pair item => (item.1 = pair.1 ∧ item.2.key = pair.1 ∧
    compiled pair.2 = some item.2.accessor) ∧ item.2.description = blueprint.description pair.2)
    registry.registrations layer.entries

theorem Layer.Matches.renders {layer : Layer} {blueprint : Blueprint} {registry : Registry}
    {compiled : Compiled} (fits : layer.Matches registry compiled)
    (describes : layer.Describes blueprint registry) :
    layer.Renders blueprint registry compiled := forall₂_and fits describes

/-- A registration is found in the layer that renders it. -/
theorem Layer.Renders.exists_find? {layer : Layer} {blueprint : Blueprint} {registry : Registry}
    {compiled : Compiled} (renders : layer.Renders blueprint registry compiled) {key : Key}
    {id : EntryId} (held : registry.get? key = some id) :
    ∃ entry, layer.find? key = some entry ∧ compiled id = some entry.accessor ∧
      entry.description = blueprint.description id := by
  have rel : Option.Rel (fun id entry => compiled id = some entry.accessor ∧
      entry.description = blueprint.description id) (registry.get? key) (layer.find? key) :=
    rel_find?_of_keyed renders (fun _ _ fit => fit.1.1) fun _ _ fit _ => ⟨fit.1.2.2, fit.2⟩
  rw [held] at rel
  exact exists_of_rel_some rel

namespace Assembly

variable {offered : Pool → Prop} {assembly : Assembly} {applications : List Application}
  {memory : Memory} {application : Application} {state : Memory × Compiled} {id : EntryId}
  {entry : Entry} {accessor : Accessor} {receiver : Option ScopeId} {pool : Pool}
  {registry : Registry} {key : Key} {target : Delegate}

/-- The registry of a resolution holds the row of its scope, or that of the public. -/
theorem row_registryFor? (held : assembly.survey.registryFor? receiver = some registry) :
    registry.row assembly.survey.entries = assembly.exportedDraft.rowOf receiver := by
  rw [survey_entries]
  cases receiver with
  | none =>
    obtain rfl := Option.some.inj held
    rw [survey_exports]
    rfl
  | some scope => rw [Draft.rowOf, Draft.row, registry_exportedDraft held]

/-- What a scope or the public holds in the end is registered there. -/
theorem exists_registryFor? (wellFormed : assembly.WellFormed offered)
    (held : (assembly.exportedDraft.rowOf receiver).get? key = some target) :
    ∃ registry id, assembly.survey.registryFor? receiver = some registry ∧
      registry.get? key = some id ∧ delegateTo assembly.survey.entries id = target := by
  obtain ⟨registry, place⟩ : ∃ registry, assembly.survey.registryFor? receiver = some registry := by
    cases receiver with
    | none => exact ⟨_, rfl⟩
    | some scope =>
      cases here : assembly.scopes[scope.index]? with
      | none =>
        rw [Draft.rowOf, (exportedDraft_sound wellFormed).row_eq_nil here] at held
        cases held
      | some data =>
        have inside := (List.getElem?_eq_some_iff.mp here).1
        rw [← (exportedDraft_sound wellFormed).length_registries, ← survey_registries] at inside
        exact ⟨_, List.getElem?_eq_getElem inside⟩
  rw [← row_registryFor? place, Registry.get?_row] at held
  obtain ⟨id, registered, leads⟩ := Option.map_eq_some_iff.mp held
  exact ⟨registry, id, place, registered, leads⟩

/-- What the resolution knows of an entry is the description of its producer. -/
theorem description_blueprint (wellFormed : assembly.WellFormed offered)
    (found : assembly.survey.entries[id.index]? = some entry) :
    (assembly.blueprint assembly.survey).description id =
      (delegateTo assembly.survey.entries id).description assembly.entries := by
  have sound := exportedDraft_sound wellFormed
  unfold Blueprint.description delegateTo Assembly.blueprint
  rw [survey_entries] at found ⊢
  simp only [found, Option.map_some]
  rcases sound.entry_cases found with declared | ⟨bare, -, target, origin, provides⟩
  · cases origin : entry.origin with
    | given handle => simp [Delegate.description, declared]
    | made factory => simp [Delegate.description, declared]
    | delegate target =>
      exact absurd origin ((wellFormed.entries id.index entry declared).ne_delegate target)
  · rw [bare, origin]
    cases target with
    | foreign imported => rfl
    | entry target =>
      obtain ⟨provider, declared, -⟩ := provides
      simp [Delegate.description, declared, sound.declared declared]

/-- The accessor of an entry backs the producer behind it. -/
theorem Compiles.backs (compiles : assembly.Compiles applications memory application state)
    (found : assembly.survey.entries[id.index]? = some entry) (known : state.2 id = some accessor) :
    (delegateTo assembly.survey.entries id).Backs state.2 accessor := by
  have shape := compiles.steps.shaped.shape found known
  unfold delegateTo
  rw [found, Option.map_some]
  cases origin : entry.origin with
  | given handle => exact known
  | made factory => exact known
  | delegate target =>
    rw [origin] at shape
    cases target with
    | entry target => exact shape
    | foreign imported => exact shape

/-- A provider is compiled in its chosen mode, or in the default one. -/
theorem Compiles.mode_eq (compiles : assembly.Compiles applications memory application state)
    (wellFormed : assembly.WellFormed offered)
    (declared : assembly.entries[id.index]? = some entry) (known : state.2 id = some accessor) :
    accessor.mode = entry.effectiveMode assembly.config.defaultMode := by
  have shape := compiles.steps.shaped.shape (blueprint_found wellFormed declared) known
  have proper := wellFormed.entries id.index entry declared
  cases origin : entry.origin with
  | delegate target => exact absurd origin (proper.ne_delegate target)
  | given handle =>
    rw [origin] at shape
    rw [Entry.Proper, origin] at proper
    obtain ⟨number, rfl⟩ := shape
    simp [Entry.effectiveMode, proper.2.1, Accessor.mode]
  | made factory =>
    rw [origin] at shape
    obtain ⟨dependencies, -, works⟩ := shape
    change (assembly.blueprint assembly.survey).WorksWith applications id entry factory dependencies
      (entry.effectiveMode assembly.config.defaultMode) accessor at works
    cases mode : entry.effectiveMode assembly.config.defaultMode with
    | constant =>
      rw [mode] at works
      obtain ⟨number, handle, before, after, rfl, -⟩ := works
      rfl
    | lazy =>
      rw [mode] at works
      obtain ⟨number, rfl⟩ := works
      rfl
    | prototype =>
      rw [mode] at works
      obtain ⟨number, rfl⟩ := works
      rfl

/-- Every pool renders the registry of its scope, or that of the exports. -/
theorem Compiles.renders (compiles : assembly.Compiles applications memory application state)
    (describes : assembly.Describes application)
    (found : application.poolFor? receiver = some pool) :
    ∃ registry, assembly.survey.registryFor? receiver = some registry ∧
      pool.layer.Renders (assembly.blueprint assembly.survey) registry state.2 := by
  cases receiver with
  | none =>
    obtain rfl := Option.some.inj found
    exact ⟨_, rfl, compiles.exports.renders describes.exports⟩
  | some scope =>
    have place : application.pools[scope.index]? = some pool := found
    obtain ⟨registry, data, here, -, fits, -⟩ := compiles.stacked scope.index pool place
    have described := rel_getElem? describes.scopes scope.index
    rw [here, place] at described
    cases described with
    | some described =>
      exact ⟨registry, (List.getElem?_zip_eq_some.mp here).1, fits.renders described⟩

/-- The layer of a pool renders the row of its scope, or that of the public: each entry stands under
its key, with the accessor and the description of its producer. -/
theorem Compiles.renders_row
    (compiles : assembly.Compiles applications memory application state)
    (describes : assembly.Describes application) (wellFormed : assembly.WellFormed offered)
    (found : application.poolFor? receiver = some pool) :
    List.Forall₂ (fun pair item => item.1 = pair.1 ∧ item.2.key = pair.1 ∧
        pair.2.Backs state.2 item.2.accessor ∧
        item.2.description = pair.2.description assembly.entries)
      (assembly.exportedDraft.rowOf receiver) pool.layer.entries := by
  obtain ⟨registry, held, renders⟩ := compiles.renders describes found
  rw [← row_registryFor? held, Registry.row, List.forall₂_map_left_iff]
  refine renders.imp fun pair item fits => ?_
  obtain ⟨⟨same, own, known⟩, described⟩ := fits
  obtain ⟨entry, place, -⟩ := compiles.steps.shaped pair.2 _ known
  exact ⟨same, own, compiles.backs place known,
    described.trans (description_blueprint wellFormed place)⟩

theorem Compiles.exists_poolFor?
    (compiles : assembly.Compiles applications memory application state)
    (wellFormed : assembly.WellFormed offered)
    (held : assembly.survey.registryFor? receiver = some registry) :
    ∃ pool, application.poolFor? receiver = some pool := by
  cases receiver with
  | none => exact ⟨_, rfl⟩
  | some scope =>
    have place : assembly.survey.registries[scope.index]? = some registry := held
    have inside := (List.getElem?_eq_some_iff.mp place).1
    rw [survey_registries, (exportedDraft_sound wellFormed).length_registries,
      ← compiles.length] at inside
    exact ⟨_, List.getElem?_eq_getElem inside⟩

/-- An entry with the accessor and the description of a producer traces back to it. -/
theorem Compiles.traces (compiles : assembly.Compiles applications memory application state)
    (wellFormed : assembly.WellFormed offered) {type : ServiceType}
    (provides : target.Provides assembly type) {entry : RuntimeEntry}
    (backs : target.Backs state.2 entry.accessor)
    (described : entry.description = target.description assembly.entries) :
    application.Traces assembly entry target := by
  cases target with
  | foreign imported => exact .imported backs (congrArg Accessor.mode backs) described
  | entry id =>
    obtain ⟨provider, declared, -⟩ := provides
    obtain ⟨home, own, place, listed, known⟩ := compiles.exists_own wellFormed declared
    obtain same : some entry.accessor = some own.accessor := backs.symm.trans known
    refine .declared declared place listed (Option.some.inj same)
      (compiles.mode_eq wellFormed declared backs) ?_
    rw [described, Delegate.description, declared]
    rfl

/-- What an entry traces back to is backed by its accessor. -/
theorem Compiles.backs_of_traces
    (compiles : assembly.Compiles applications memory application state)
    (wellFormed : assembly.WellFormed offered) {entry : RuntimeEntry}
    (traces : application.Traces assembly entry target) :
    target.Backs state.2 entry.accessor := by
  cases traces with
  | imported accessor => exact accessor
  | declared declared place listed accessor =>
    obtain ⟨home, own, place', listed', known⟩ := compiles.exists_own wellFormed declared
    obtain rfl := Option.some.inj (place.symm.trans place')
    obtain rfl := Option.some.inj (listed.symm.trans listed')
    rw [accessor]
    exact known

/-- An entry that renders a registration traces back to the producer of the registration. -/
theorem Compiles.traces_delegateTo
    (compiles : assembly.Compiles applications memory application state)
    (wellFormed : assembly.WellFormed offered)
    (held : assembly.survey.registryFor? receiver = some registry)
    (listed : (key, id) ∈ registry.registrations) {entry : RuntimeEntry}
    (known : state.2 id = some entry.accessor)
    (described : entry.description = (assembly.blueprint assembly.survey).description id) :
    application.Traces assembly entry (delegateTo assembly.survey.entries id) := by
  have origin : registry ∈ assembly.survey.registries ∨ registry = assembly.survey.exports := by
    cases receiver with
    | none => exact .inr (Option.some.inj held).symm
    | some scope => exact .inl (List.mem_of_getElem? held)
  obtain ⟨provider, place, -⟩ := survey_holds wellFormed origin _ listed
  have found : assembly.exportedDraft.entries[id.index]? = some provider := by
    rw [← blueprint_entries]
    exact place
  have provides := (exportedDraft_sound wellFormed).delegateTo_provides wellFormed found
  rw [← survey_entries] at provides
  rw [description_blueprint wellFormed place] at described
  exact compiles.traces wellFormed provides (compiles.backs place known) described

/-- A registration in the layer of a pool renders a producer that came there. -/
theorem Compiles.exists_target (compiles : assembly.Compiles applications memory application state)
    (describes : assembly.Describes application) (wellFormed : assembly.WellFormed offered)
    (typed : ∀ pool, offered pool → pool.Typed) (found : application.poolFor? receiver = some pool)
    {item : Key × RuntimeEntry} (among : item ∈ pool.layer.entries) :
    ∃ target, assembly.Exposes receiver item.1 target ∧
      application.Traces assembly item.2 target := by
  obtain ⟨registry, held, renders⟩ := compiles.renders describes found
  obtain ⟨⟨key, id⟩, listed, ⟨same, -, known⟩, described⟩ := exists_of_forall₂_right renders among
  have traced := traced_exportedDraft wellFormed typed
    (populatedDraft_accepted wellFormed compiles.accepted)
  have member : (key, delegateTo assembly.survey.entries id) ∈
      assembly.exportedDraft.rowOf receiver := by
    rw [← row_registryFor? held]
    exact List.mem_map.mpr ⟨(key, id), listed, rfl⟩
  have exposes := traced.exposes receiver key _ (Row.get?_of_mem (traced.distinct receiver) member)
  rw [same]
  exact ⟨_, exposes, compiles.traces_delegateTo wellFormed held listed known described⟩

/-- What comes to a scope or to the public is found in the pool there, or the same producer is. -/
theorem Compiles.exists_entry (compiles : assembly.Compiles applications memory application state)
    (describes : assembly.Describes application) (wellFormed : assembly.WellFormed offered)
    (typed : ∀ pool, offered pool → pool.Typed) (exposes : assembly.Exposes receiver key target) :
    ∃ pool entry held, application.poolFor? receiver = some pool ∧
      pool.layer.find? key = some entry ∧ assembly.Exposes receiver key held ∧
      application.Traces assembly entry held ∧ held.Same target := by
  have clean := (assembly.survey_accepted_iff.mp compiles.accepted).1
  have traced := traced_exportedDraft wellFormed typed
    (populatedDraft_accepted wellFormed compiles.accepted)
  obtain ⟨held, known, same⟩ := exposes.exists_held wellFormed typed clean
  obtain ⟨registry, id, place, registered, rfl⟩ := exists_registryFor? wellFormed known
  obtain ⟨pool, found⟩ := compiles.exists_poolFor? wellFormed place
  obtain ⟨other, there, renders⟩ := compiles.renders describes found
  obtain rfl := Option.some.inj (place.symm.trans there)
  obtain ⟨entry, listed, compiled, described⟩ := renders.exists_find? registered
  have traces := compiles.traces_delegateTo wellFormed place (Registry.mem_of_get? registered)
    compiled described
  exact ⟨pool, entry, _, found, listed, traced.exposes receiver key _ known, traces, same⟩

end Assembly

/-- The application that a build gave was compiled, and its entries have the descriptions of those
that were registered. -/
theorem Host.Sound.exists_described {host : Host} {assembly : Assembly} (sound : host.Sound)
    (current : host.assembly = some assembly) {number : Nat} {application : Application}
    (built : host.build.1 = some (.application number application)) :
    ∃ state, assembly.Compiles host.applications host.memory application state ∧
      assembly.Describes application := by
  obtain ⟨after, builds, -⟩ := Host.build_of_application current built
  obtain ⟨⟨state, compiles, -⟩, describes⟩ :=
    ((Assembly.build_yields (sound.wellFormed assembly current) host.applications
      host.memory).of_gives (assembly.gives_build host.applications)).of_value builds
  exact ⟨state, compiles, describes⟩

end Wiring
