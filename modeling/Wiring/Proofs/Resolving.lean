import Wiring.Proofs.Phases
import Wiring.Proofs.Circuits

/-!
What an accepted resolution settles. Every declared entry is registered in its scope, every
dependency of a factory has the provider that its scope sees, and following delegates and
dependencies comes to an end.
-/

namespace Wiring

/-- What steps in turn keep when their items are fine, and lose otherwise. -/
theorem foldl_iff {σ α : Type} (holds : σ → Prop) {fine : α → Prop} {step : σ → α → σ}
    (each : ∀ state item, holds (step state item) ↔ holds state ∧ fine item) (items : List α)
    (state : σ) : holds (items.foldl step state) ↔ holds state ∧ ∀ item ∈ items, fine item := by
  induction items generalizing state with
  | nil => simp
  | cons item rest ih => rw [List.foldl_cons, ih, each, List.forall_mem_cons, and_assoc]

/-- Steps of which each loses what should hold lose it unless there are none. -/
theorem foldl_iff_nil {σ α : Type} (holds : σ → Prop) {step : σ → α → σ}
    (each : ∀ state item, ¬ holds (step state item)) (items : List α) (state : σ) :
    holds (items.foldl step state) ↔ holds state ∧ items = [] := by
  have never (state : σ) (item : α) : holds (step state item) ↔ holds state ∧ False := by
    simp [each]
  rw [foldl_iff holds never, List.eq_nil_iff_forall_not_mem]

theorem length_joinNew_pos {α : Type} (known : α → α → Bool) (items : List α) (item : α) :
    0 < (joinNew known items item).length := by
  unfold joinNew
  split
  · rename_i held
    obtain ⟨old, member, -⟩ := List.any_eq_true.mp held
    exact List.length_pos_of_mem member
  · simp

theorem Diagnostics.recordDependencyCycle_isEmpty (diagnostics : Diagnostics) (cycle : List Key) :
    (diagnostics.recordDependencyCycle cycle).isEmpty = false := by
  have longer := length_joinNew_pos (fun old new => old == new) diagnostics.dependencyCycles
    (rotateToLeast Key.shown cycle)
  simp only [recordDependencyCycle, isEmpty, length, beq_eq_false_iff_ne]
  omega

theorem Diagnostics.recordImportCycle_isEmpty (diagnostics : Diagnostics) (cycle : List String) :
    (diagnostics.recordImportCycle cycle).isEmpty = false := by
  have longer := length_joinNew_pos (fun old new => old == new) diagnostics.importCycles
    (rotateToLeast id cycle)
  simp only [recordImportCycle, isEmpty, length, beq_eq_false_iff_ne]
  omega

namespace Draft

variable {assembly : Assembly} {draft : Draft}

theorem sound_start (assembly : Assembly) :
    (start assembly.scopes assembly.entries).Sound assembly where
  entries := ⟨[], (List.append_nil _).symm, fun _ member => nomatch member⟩
  places index := by
    rw [start, List.getElem?_map, List.getElem?_zipIdx]
    cases assembly.scopes[index]? <;> simp [Registry.empty]
  held registry member := by
    obtain ⟨pair, -, rfl⟩ := List.mem_map.mp member
    exact fun _ member => nomatch member
  exported := fun _ member => nomatch member

/-- Linking leaves no problem exactly when every need has its provider. -/
theorem link_isEmpty (scopes : List Scope) (draft : Draft) :
    (draft.link scopes).diagnostics.isEmpty = true ↔
      draft.diagnostics.isEmpty = true ∧
        ∀ need ∈ draft.needs.flatten, need.provider.isSome = true := by
  refine foldl_iff (fun draft : Draft => draft.diagnostics.isEmpty = true)
    (fun draft need => ?_) _ draft
  unfold settleNeed
  cases need.provider with
  | some provider => simp [report]
  | none =>
    simp [Diagnostics.recordUnresolvedRequirement, Diagnostics.isEmpty, Diagnostics.length]

theorem recordCycles_isEmpty (draft : Draft) (links : List (List EntryId)) :
    (draft.recordCycles links).diagnostics.isEmpty = true ↔
      draft.diagnostics.isEmpty = true ∧ dependencyCycles draft.entries links = [] :=
  foldl_iff_nil (fun diagnostics : Diagnostics => diagnostics.isEmpty = true)
    (fun diagnostics cycle => by simp [Diagnostics.recordDependencyCycle_isEmpty]) _ _

theorem rejectShadowing_isEmpty (scopes : List Scope) (draft : Draft) :
    (draft.rejectShadowing scopes).diagnostics.isEmpty = true ↔
      draft.diagnostics.isEmpty = true ∧ draft.registries.flatMap draft.shadowings = [] :=
  foldl_iff_nil (fun draft : Draft => draft.diagnostics.isEmpty = true)
    (fun draft error => by simp [recordDuplicate_isEmpty]) _ _

theorem Agrees.trans {first second third : Draft} (agrees : first.Agrees second)
    (onward : second.Agrees third) : first.Agrees third :=
  ⟨onward.entries.trans agrees.entries, onward.registries.trans agrees.registries,
    onward.exports.trans agrees.exports⟩

theorem agrees_foldl {α : Type} {step : Draft → α → Draft}
    (each : ∀ (draft : Draft) item, draft.Agrees (step draft item)) (items : List α)
    (draft : Draft) :
    draft.Agrees (items.foldl step draft) :=
  List.foldlRecOn items step (motive := draft.Agrees) ⟨rfl, rfl, rfl⟩
    fun middle agrees item _ => agrees.trans (each middle item)

theorem agrees_link (scopes : List Scope) (draft : Draft) : draft.Agrees (draft.link scopes) := by
  refine agrees_foldl (fun draft need => ?_) _ draft
  unfold settleNeed
  split <;> exact ⟨rfl, rfl, rfl⟩

theorem agrees_recordCycles (draft : Draft) (links : List (List EntryId)) :
    draft.Agrees (draft.recordCycles links) := ⟨rfl, rfl, rfl⟩

theorem agrees_rejectShadowing (scopes : List Scope) (draft : Draft) :
    draft.Agrees (draft.rejectShadowing scopes) :=
  agrees_foldl (fun draft error => (⟨rfl, rfl, rfl⟩ :
    draft.Agrees (draft.recordDuplicate scopes error))) _ draft

end Draft

namespace Assembly

variable {offered : Pool → Prop} {assembly : Assembly}

theorem orderedDraft_sound (assembly : Assembly) : assembly.orderedDraft.Sound assembly :=
  have sound := Draft.sound_start assembly
  ⟨sound.entries, sound.places, sound.held, sound.exported⟩

theorem orderedDraft_isEmpty (assembly : Assembly) :
    assembly.orderedDraft.diagnostics.isEmpty = true ↔ importCycles assembly.scopes = [] := by
  have recorded (diagnostics : Diagnostics) (cycle : List String) :
      ¬ (diagnostics.recordImportCycle cycle).isEmpty = true := by
    simp [Diagnostics.recordImportCycle_isEmpty]
  exact (foldl_iff_nil (fun diagnostics : Diagnostics => diagnostics.isEmpty = true) recorded
    (importCycles assembly.scopes) .empty).trans (and_iff_right rfl)

theorem populatedDraft_evolves (wellFormed : assembly.WellFormed offered) :
    Draft.Evolves assembly assembly.orderedDraft assembly.populatedDraft :=
  Draft.evolves_foldl _ _
    (fun scope _ draft => Draft.evolves_populate wellFormed scope draft) _

theorem exportedDraft_evolves (wellFormed : assembly.WellFormed offered) :
    Draft.Evolves assembly assembly.populatedDraft assembly.exportedDraft :=
  Draft.evolves_foldl _ _
    (fun scope _ draft => Draft.evolves_exportFrom wellFormed scope draft) _

/-- The draft from which the links are drawn is sound. -/
theorem exportedDraft_sound (wellFormed : assembly.WellFormed offered) :
    assembly.exportedDraft.Sound assembly := by
  have populated := (populatedDraft_evolves wellFormed (orderedDraft_sound assembly)).1
  exact (exportedDraft_evolves wellFormed populated).1

theorem linkedDraft_agrees (assembly : Assembly) :
    assembly.exportedDraft.Agrees assembly.linkedDraft :=
  (assembly.exportedDraft.agrees_link assembly.scopes).trans (Draft.agrees_recordCycles _ _)

/-- After the exports only problems and events are added. -/
theorem finalDraft_agrees (assembly : Assembly) :
    assembly.exportedDraft.Agrees assembly.finalDraft := by
  have linked := assembly.linkedDraft_agrees
  unfold finalDraft
  dsimp only
  split
  · exact linked
  · exact linked.trans (assembly.linkedDraft.agrees_rejectShadowing assembly.scopes)

theorem survey_entries (assembly : Assembly) :
    assembly.survey.entries = assembly.exportedDraft.entries := assembly.finalDraft_agrees.entries

theorem survey_registries (assembly : Assembly) :
    assembly.survey.registries = assembly.exportedDraft.registries :=
  assembly.finalDraft_agrees.registries

theorem survey_exports (assembly : Assembly) :
    assembly.survey.exports = assembly.exportedDraft.exports := assembly.finalDraft_agrees.exports

/-- The draft of the exports has the registries of the resolution. -/
theorem registry_exportedDraft {scope : ScopeId} {registry : Registry}
    (held : assembly.survey.registries[scope.index]? = some registry) :
    assembly.exportedDraft.registry scope = registry := by
  rw [Draft.registry, ← survey_registries, held, Option.getD_some]

/-- What an entry hides is told by the entries and the registries. -/
theorem Draft.Agrees.shadowings_eq {before after : Draft} (agrees : before.Agrees after) :
    after.registries.flatMap after.shadowings = before.registries.flatMap before.shadowings := by
  unfold Draft.shadowings Draft.nearest? Draft.registry
  rw [agrees.entries, agrees.registries]

/-- A resolution is accepted when the exports left no problem, every dependency of a factory has a
provider, no factories depend on each other in a circle, and nothing is hidden where that is
forbidden. -/
theorem survey_accepted_iff (assembly : Assembly) : assembly.survey.accepted = true ↔
    assembly.exportedDraft.diagnostics.isEmpty = true ∧
      (∀ need ∈ assembly.exportedDraft.needs.flatten, need.provider.isSome = true) ∧
      Draft.dependencyCycles assembly.exportedDraft.entries assembly.exportedDraft.links = [] ∧
      (assembly.config.allowShadowing = true ∨
        assembly.exportedDraft.registries.flatMap assembly.exportedDraft.shadowings = []) := by
  have linked := assembly.exportedDraft.agrees_link assembly.scopes
  have cycled := assembly.linkedDraft_agrees
  have clean : assembly.linkedDraft.diagnostics.isEmpty = true ↔
      assembly.exportedDraft.diagnostics.isEmpty = true ∧
        (∀ need ∈ assembly.exportedDraft.needs.flatten, need.provider.isSome = true) ∧
        Draft.dependencyCycles assembly.exportedDraft.entries
          assembly.exportedDraft.links = [] := by
    unfold linkedDraft
    rw [Draft.recordCycles_isEmpty, Draft.link_isEmpty, linked.entries, and_assoc]
  change assembly.finalDraft.diagnostics.isEmpty = true ↔ _
  unfold finalDraft
  dsimp only
  cases allowed : assembly.config.allowShadowing with
  | true => simp [clean]
  | false =>
    rw [if_neg (by simp), Draft.rejectShadowing_isEmpty, clean, Draft.Agrees.shadowings_eq cycled]
    simp [and_assoc]

theorem resolve_of_accepted (accepted : assembly.survey.accepted = true) :
    assembly.resolve = .ok assembly.survey := by
  simp only [resolve, accepted, if_true]

/-- A resolution that is given is the accepted survey. -/
theorem survey_of_resolve {resolution : Resolution}
    (resolved : assembly.resolve = .ok resolution) :
    assembly.survey.accepted = true ∧ assembly.survey = resolution := by
  unfold resolve at resolved
  dsimp only at resolved
  split at resolved
  · rename_i accepted
    exact ⟨accepted, Except.ok.inj resolved⟩
  · cases resolved

/-- A resolution that is given was accepted, and holds that with which the exports ended. -/
theorem of_resolve {resolution : Resolution} (resolved : assembly.resolve = .ok resolution) :
    assembly.survey.accepted = true ∧
      resolution.entries = assembly.exportedDraft.entries ∧
      resolution.registries = assembly.exportedDraft.registries ∧
      resolution.exports = assembly.exportedDraft.exports ∧
      resolution.links = assembly.exportedDraft.links := by
  obtain ⟨accepted, rfl⟩ := survey_of_resolve resolved
  exact ⟨accepted, assembly.survey_entries, assembly.survey_registries, assembly.survey_exports,
    rfl⟩

/-- An accepted resolution found no problem when the scopes were filled. -/
theorem populatedDraft_accepted (wellFormed : assembly.WellFormed offered)
    (accepted : assembly.survey.accepted = true) :
    assembly.populatedDraft.diagnostics.isEmpty = true := by
  have populated := (populatedDraft_evolves wellFormed (orderedDraft_sound assembly)).1
  exact (exportedDraft_evolves wellFormed populated).2.accepted
    (assembly.survey_accepted_iff.mp accepted).1

/-- Every declared entry is registered under its key in its own scope. -/
theorem get?_exportedDraft (wellFormed : assembly.WellFormed offered)
    (accepted : assembly.survey.accepted = true) {index : Nat} {entry : Entry}
    (found : assembly.entries[index]? = some entry) :
    (assembly.exportedDraft.registry entry.scope).get? entry.key = some ⟨index⟩ := by
  obtain ⟨scope, here, -⟩ := wellFormed.placed index entry found
  have populates (scope : ScopeId) (_ : scope ∈ importOrder assembly.scopes) (draft : Draft) :
      Draft.Evolves assembly draft (draft.populate assembly.scopes scope) :=
    Draft.evolves_populate wellFormed scope draft
  obtain ⟨middle, fine, -, taken⟩ := Draft.exists_step_of_foldl _ _ populates
    (orderedDraft_sound assembly) (mem_importOrder (List.getElem?_eq_some_iff.mp here).1)
  have populated := (populatedDraft_evolves wellFormed (orderedDraft_sound assembly)).1
  have exports := (exportedDraft_evolves wellFormed populated).2
  have clean := taken.accepted (populatedDraft_accepted wellFormed accepted)
  have registered := Draft.get?_populate wellFormed fine found clean
  exact exports.registered _ _ _ (taken.registered _ _ _ registered)

/-- The links of a factory are the providers that its scope sees, one for each dependency. -/
theorem links_exportedDraft (accepted : assembly.survey.accepted = true) {index : Nat}
    {entry : Entry} (found : assembly.exportedDraft.entries[index]? = some entry)
    (factory : entry.isFactory = true) :
    List.Forall₂ (fun key id => assembly.exportedDraft.nearest? entry.scope key = some id)
      entry.dependencies (assembly.exportedDraft.links.getD index []) := by
  have met := (assembly.survey_accepted_iff.mp accepted).2.1
  have here : assembly.exportedDraft.needs[index]? =
      some (assembly.exportedDraft.needsOf ⟨index⟩ entry) := by
    simp [Draft.needs, found]
  have provided : ∀ need ∈ assembly.exportedDraft.needsOf ⟨index⟩ entry,
      need.provider.isSome = true := by
    intro need member
    exact met need (List.mem_flatten.mpr ⟨_, List.mem_of_getElem? here, member⟩)
  have links : assembly.exportedDraft.links.getD index [] =
      (assembly.exportedDraft.needsOf ⟨index⟩ entry).filterMap Need.provider := by
    simp [Draft.links, List.getD_eq_getElem?_getD, here]
  rw [links]
  simp only [Draft.needsOf, if_pos factory] at provided ⊢
  generalize entry.dependencies = keys at provided ⊢
  induction keys with
  | nil => exact .nil
  | cons key rest ih =>
    simp only [List.map_cons, List.mem_cons, forall_eq_or_imp] at provided
    obtain ⟨id, known⟩ := Option.isSome_iff_exists.mp provided.1
    have others := ih provided.2
    simp only [List.map_cons, List.filterMap_cons, known]
    exact .cons known others

end Assembly

end Wiring
