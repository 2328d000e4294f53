import Wiring.Proofs.Exports

/-!
What is recorded under a key. Until all scopes are filled, whether or not they import from each
other in a circle, nothing is exported or claimed and no problem of an export is recorded; every
entry of which the records tell is there.
-/

namespace Wiring

namespace Grouped

variable {α : Type}

/-- A change under a key changes what is recorded under that key alone. -/
theorem get_update (change : List α → List α) (key other : Key) (groups : Grouped α) :
    (update change key groups).get other =
      if key = other then change (groups.get key) else groups.get other := by
  induction groups with
  | nil =>
    by_cases same : key = other <;> simp [update, get, same]
  | cons group rest ih =>
    unfold update
    by_cases here : group.1 = key
    · rw [if_pos here]
      by_cases same : key = other
      · simp [get, here, same]
      · have away : (group.1 == other) = false := by simpa [here] using same
        simp [get, same, away]
    · rw [if_neg here]
      by_cases found : group.1 = other
      · have different : key ≠ other := fun same => here (found.trans same.symm)
        simp [get, found, different]
      · have unfold_get (groups : Grouped α) :
            get (group :: groups) other = groups.get other := by simp [get, found]
        have unfold_key (groups : Grouped α) :
            get (group :: groups) key = groups.get key := by simp [get, here]
        rw [unfold_get, ih, unfold_key, unfold_get]

end Grouped

theorem mem_joinNew {α : Type} {known : α → α → Bool} {items : List α} {item other : α}
    (member : other ∈ joinNew known items item) : other ∈ items ∨ other = item := by
  unfold joinNew at member
  split at member
  · exact .inl member
  · exact (List.mem_append.mp member).imp_right List.mem_singleton.mp

theorem sublist_joinNew {α : Type} {known : α → α → Bool} {items : List α} {item : α} :
    items.Sublist (joinNew known items item) := by
  unfold joinNew
  split
  · exact .refl _
  · exact List.sublist_append_left _ _

section Joining

variable {α : Type} [BEq α] [LawfulBEq α] {items : List α} {item other : α}

theorem mem_joinNew_iff : other ∈ joinNew (fun old new => old == new) items item ↔
    other ∈ items ∨ other = item := by
  unfold joinNew
  split
  · rename_i known
    have member : item ∈ items := by simpa using known
    exact ⟨.inl, fun either => either.elim id fun same => same ▸ member⟩
  · simp

theorem nodup_joinNew (once : items.Nodup) :
    (joinNew (fun old new => old == new) items item).Nodup := by
  unfold joinNew
  split
  · exact once
  · rename_i unknown
    have absent : item ∉ items := by simpa using unknown
    exact List.nodup_append'.mpr ⟨once, List.nodup_singleton _, by simpa using absent⟩

theorem joinNew_of_notMem (absent : item ∉ items) :
    joinNew (fun old new => old == new) items item = items ++ [item] :=
  if_neg (by simpa using absent)

theorem mem_foldl_joinNew {more : List α} :
    other ∈ more.foldl (joinNew fun old new => old == new) items ↔
      other ∈ items ∨ other ∈ more := by
  induction more generalizing items with
  | nil => simp
  | cons first rest ih => rw [List.foldl_cons, ih, mem_joinNew_iff, List.mem_cons, or_assoc]

theorem nodup_foldl_joinNew {more : List α} (once : items.Nodup) :
    (more.foldl (joinNew fun old new => old == new) items).Nodup :=
  List.foldlRecOn more _ (motive := List.Nodup) once fun _ still _ _ => nodup_joinNew still

end Joining

namespace Draft

variable {offered : Pool → Prop} {assembly : Assembly} {draft : Draft}

@[simp] theorem describe_id (draft : Draft) (scopes : List Scope) (id : EntryId) :
    (draft.describe scopes id).id = id := by
  unfold describe
  cases draft.entries[id.index]? <;> rfl

/-- What is recorded when two entries compete for a key. -/
theorem get_recordDuplicate (draft : Draft) (scopes : List Scope) (error : DuplicateProvider)
    (key : Key) :
    (draft.recordDuplicate scopes error).diagnostics.duplicateProviders.get key =
      if error.key = key then
        [draft.describe scopes error.existing, draft.describe scopes error.rejected].foldl
          (joinNew fun old new => old.id == new.id)
          (draft.diagnostics.duplicateProviders.get error.key)
      else draft.diagnostics.duplicateProviders.get key :=
  Grouped.get_update _ _ _ _

/-- Every entry that is recorded was recorded before or takes part in the competition. -/
theorem mem_recordDuplicate {scopes : List Scope} {error : DuplicateProvider} {key : Key}
    {descriptor : EntryDescriptor}
    (member : descriptor ∈
      (draft.recordDuplicate scopes error).diagnostics.duplicateProviders.get key) :
    descriptor ∈ draft.diagnostics.duplicateProviders.get key ∨
      descriptor.id = error.existing ∨ descriptor.id = error.rejected := by
  rw [get_recordDuplicate] at member
  split at member
  · rename_i here
    rw [here, List.foldl_cons, List.foldl_cons, List.foldl_nil] at member
    rcases mem_joinNew member with first | rfl
    · rcases mem_joinNew first with old | rfl
      · exact .inl old
      · exact .inr (.inl (describe_id _ _ _))
    · exact .inr (.inr (describe_id _ _ _))
  · exact .inl member

/-- What holds of a draft before anything is exported. -/
structure Unsent (draft : Draft) : Prop where
  claimed : draft.claimed = []
  exports : draft.exports.registrations = []
  duplicateExports : draft.diagnostics.duplicateExports = []
  unresolvedExports : draft.diagnostics.unresolvedExports = []
  distinct : ∀ scope, (draft.registry scope).keys.Nodup
  recorded : ∀ key, ∀ descriptor ∈ draft.diagnostics.duplicateProviders.get key,
    descriptor.id.index < draft.entries.length

theorem Unsent.push (unsent : draft.Unsent) (entry : Entry) : (draft.push entry).2.Unsent :=
  { unsent with
    recorded := fun key descriptor member => by
      have inside := unsent.recorded key descriptor member
      simp only [Draft.push, List.length_append]
      omega }

theorem Unsent.report (unsent : draft.Unsent) (event : Event) : (draft.report event).Unsent :=
  { unsent with }

/-- An entry that is there is offered to a scope. -/
theorem Unsent.register (unsent : draft.Unsent) (sound : draft.Sound assembly)
    (scopes : List Scope) (scope : ScopeId) (key : Key) {id : EntryId}
    (inside : id.index < draft.entries.length) : (draft.register scopes scope key id).Unsent := by
  unfold Draft.register Registry.put
  cases free : (draft.registry scope).get? key with
  | some existing =>
    refine { unsent with recorded := fun other descriptor member => ?_ }
    rcases mem_recordDuplicate member with old | same | same
    · exact unsent.recorded other descriptor old
    · obtain ⟨entry, found, -⟩ := (sound.holds_registry scope).of_get? free
      rw [same]
      exact (List.getElem?_eq_some_iff.mp found).1
    · rw [same]
      exact inside
  | none =>
    refine { unsent with distinct := fun other => ?_ }
    rw [registry_set]
    split
    · have absent : key ∉ (draft.registry scope).keys := by
        rw [← Registry.contains_iff_mem_keys, Registry.contains, free]
        exact Bool.false_ne_true
      rw [Registry.keys_append]
      refine List.nodup_append.mpr ⟨unsent.distinct scope, List.nodup_singleton _, ?_⟩
      rintro known member _ single rfl
      exact absent (List.mem_singleton.mp single ▸ member)
    · exact unsent.distinct other

/-- Steps that keep a draft sound keep it without exports, when each of them does. -/
theorem Unsent.foldl {α : Type} {step : Draft → α → Draft} {items : List α}
    (unsent : draft.Unsent) (sound : draft.Sound assembly)
    (evolves : ∀ item ∈ items, ∀ middle, Evolves assembly middle (step middle item))
    (each : ∀ item ∈ items, ∀ middle : Draft, middle.Sound assembly → middle.Unsent →
      (step middle item).Unsent) : (items.foldl step draft).Unsent := by
  induction items generalizing draft with
  | nil => exact unsent
  | cons item rest ih =>
    exact ih (each item List.mem_cons_self draft sound unsent)
      (evolves item List.mem_cons_self draft sound).1
      (fun other member => evolves other (List.mem_cons_of_mem _ member))
      fun other member => each other (List.mem_cons_of_mem _ member)

theorem Unsent.enroll (unsent : draft.Unsent) (sound : draft.Sound assembly)
    (scopes : List Scope) (scope : ScopeId) (id : EntryId) :
    (draft.enroll scopes scope id).Unsent := by
  unfold Draft.enroll
  cases found : draft.entries[id.index]? with
  | none => exact unsent
  | some entry =>
    exact unsent.register sound scopes scope entry.key (List.getElem?_eq_some_iff.mp found).1

theorem Unsent.offer (unsent : draft.Unsent) (sound : draft.Sound assembly)
    (scopes : List Scope) (scope : ScopeId) {imported : Import}
    (checked : ImportSpec.checkAll imported.spec.ops = .ok ()) {candidate : Key × Delegate}
    (provides : candidate.2.Provides assembly candidate.1.type) :
    (draft.offer scopes scope imported candidate).Unsent := by
  unfold Draft.offer
  cases kept : imported.spec.apply candidate.1 with
  | none => exact unsent
  | some key =>
    have delegates : (Entry.ofDelegate key candidate.2 scope (imported.label scopes)).Delegates
        assembly := by
      refine ⟨rfl, rfl, candidate.2, rfl, ?_⟩
      have type : key.type = candidate.1.type := ImportSpec.applyAll_type checked kept
      change candidate.2.Provides assembly key.type
      rwa [type]
    have pushed := (evolves_push draft _ delegates sound).1
    refine (unsent.push _).register pushed scopes scope key ?_
    exact (List.getElem?_eq_some_iff.mp (getElem?_push draft _)).1

theorem Unsent.populate (unsent : draft.Unsent) (sound : draft.Sound assembly)
    (wellFormed : assembly.WellFormed offered) (scope : ScopeId) :
    (draft.populate assembly.scopes scope).Unsent := by
  unfold Draft.populate
  cases here : assembly.scopes[scope.index]? with
  | none => exact unsent
  | some data =>
    have enrolls (id : EntryId) (_ : id ∈ data.declared) (middle : Draft) :
        Evolves assembly middle (middle.enroll assembly.scopes scope id) :=
      evolves_enroll assembly.scopes scope middle id
    have enrolled := unsent.foldl sound enrolls fun id _ middle fine still =>
      still.enroll fine assembly.scopes scope id
    refine (enrolled.foldl (evolves_foldl _ _ enrolls draft sound).1
      (fun imported member middle => evolves_bringIn wellFormed here member middle)
      fun imported member middle fine still => ?_).report _
    have proper := (wellFormed.scopes scope.index data here).imports imported member
    have provides (candidate : Key × Delegate)
        (among : candidate ∈ middle.candidates imported.spec.source) :=
      fine.candidate_provides wellFormed (List.mem_of_getElem? here) member among
    exact still.foldl fine
      (fun candidate among later =>
        evolves_offer assembly.scopes scope proper.checked later (provides candidate among))
      fun candidate among later sure onward =>
        onward.offer sure assembly.scopes scope proper.checked (provides candidate among)

end Draft

namespace Assembly

variable {offered : Pool → Prop} {assembly : Assembly}

theorem unsent_orderedDraft (assembly : Assembly) : assembly.orderedDraft.Unsent := by
  have records (cycles : List (List String)) (diagnostics : Diagnostics) :
      (cycles.foldl Diagnostics.recordImportCycle diagnostics).duplicateProviders =
          diagnostics.duplicateProviders ∧
        (cycles.foldl Diagnostics.recordImportCycle diagnostics).duplicateExports =
          diagnostics.duplicateExports ∧
        (cycles.foldl Diagnostics.recordImportCycle diagnostics).unresolvedExports =
          diagnostics.unresolvedExports := by
    induction cycles generalizing diagnostics with
    | nil => exact ⟨rfl, rfl, rfl⟩
    | cons cycle rest ih => exact ih (diagnostics.recordImportCycle cycle)
  obtain ⟨providers, exports, unresolved⟩ := records (importCycles assembly.scopes) .empty
  refine ⟨rfl, rfl, exports, unresolved, fun scope => ?_, fun key descriptor member => ?_⟩
  · unfold Draft.registry
    cases found : assembly.orderedDraft.registries[scope.index]? with
    | none => exact List.nodup_nil
    | some registry =>
      obtain ⟨pair, -, rfl⟩ := List.mem_map.mp (List.mem_of_getElem? found)
      exact List.nodup_nil
  · change descriptor ∈ Grouped.get ((importCycles assembly.scopes).foldl
      Diagnostics.recordImportCycle .empty).duplicateProviders key at member
    rw [providers] at member
    cases member

/-- When all scopes are filled, nothing is exported yet. -/
theorem unsent_populatedDraft (wellFormed : assembly.WellFormed offered) :
    assembly.populatedDraft.Unsent :=
  assembly.unsent_orderedDraft.foldl (orderedDraft_sound assembly)
    (fun scope _ middle => Draft.evolves_populate wellFormed scope middle)
    fun scope _ _ fine still => still.populate fine wellFormed scope

/-- Before the exports nothing is public and nothing is claimed. -/
theorem populatedDraft_bare (wellFormed : assembly.WellFormed offered) :
    assembly.populatedDraft.publicRow = [] ∧ assembly.populatedDraft.Claims := by
  have unsent := unsent_populatedDraft wellFormed
  have bare : assembly.populatedDraft.publicRow = [] := by
    rw [Draft.publicRow, Registry.row, unsent.exports, List.map_nil]
  have unclaimed (claim : Claim) : assembly.populatedDraft.claimant? claim = none := by
    rw [Draft.claimant?, unsent.claimed]
    rfl
  refine ⟨bare, fun claim id about known => ?_, fun claim id about known => ?_,
    fun key member => ?_⟩
  · rw [unclaimed] at known
    cases known
  · rw [unclaimed] at known
    cases known
  · rw [bare] at member
    cases member

/-- Before the exports no row repeats a key. -/
theorem nodup_populatedDraft (wellFormed : assembly.WellFormed offered)
    (receiver : Option ScopeId) : (assembly.populatedDraft.rowOf receiver).keys.Nodup := by
  cases receiver with
  | none =>
    rw [Draft.rowOf, (populatedDraft_bare wellFormed).1]
    exact List.nodup_nil
  | some scope =>
    rw [Draft.rowOf, Draft.row, Registry.keys_row]
    exact (unsent_populatedDraft wellFormed).distinct scope

end Assembly

end Wiring
