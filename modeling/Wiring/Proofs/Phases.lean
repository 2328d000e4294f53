import Wiring.Proofs.Drafts

/-!
The phases of a resolution keep what holds of a draft. When no problem is left, every declared
entry is registered under its key in its own scope.
-/

namespace Wiring

/-- The steps of a checked import keep the type of a key. -/
theorem ImportSpec.applyAll_type {ops : List ImportOp} {key result : Key}
    (checked : checkAll ops = .ok ()) (applied : applyAll ops key = some result) :
    result.type = key.type := by
  induction ops generalizing key with
  | nil =>
    obtain rfl := Option.some.inj applied
    rfl
  | cons op ops ih =>
    unfold checkAll at checked
    cases right : op.check with
    | error misuse => simp [right] at checked
    | ok done =>
      simp only [right] at checked
      obtain ⟨middle, first, rest⟩ := Option.bind_eq_some_iff.mp applied
      rw [ih checked rest]
      cases op with
      | exclude excluded =>
        simp only [ImportOp.apply] at first
        split at first <;> simp_all
      | retain keys =>
        simp only [ImportOp.apply] at first
        split at first <;> simp_all
      | filter accepts =>
        simp only [ImportOp.apply] at first
        split at first <;> simp_all
      | rebind source target =>
        simp only [ImportOp.check] at right
        split at right
        · rename_i same
          simp only [ImportOp.apply] at first
          split at first
          · rename_i here
            obtain rfl := Option.some.inj first
            rw [here]
            exact (Key.sameType_iff.mp same).symm
          · obtain rfl := Option.some.inj first
            rfl
        · cases right

/-- An export without a target is a problem. -/
theorem Diagnostics.recordUnresolvedExport_isEmpty (diagnostics : Diagnostics)
    (descriptor : ExportDescriptor) :
    (diagnostics.recordUnresolvedExport descriptor).isEmpty = false := by
  have longer (groups : Grouped ExportDescriptor) :
      0 < ((Grouped.update (fun exports => exports ++ [descriptor]) descriptor.key groups).flatMap
        Prod.snd).length := by
    induction groups with
    | nil => simp [Grouped.update]
    | cons group rest ih =>
      unfold Grouped.update
      split
      · rw [List.flatMap_cons, List.length_append, List.length_append, List.length_singleton]
        omega
      · rw [List.flatMap_cons, List.length_append]
        omega
  have here := longer diagnostics.unresolvedExports
  simp only [recordUnresolvedExport, isEmpty, length, beq_eq_false_iff_ne]
  omega

/-- Two exports under one key are a problem. -/
theorem Diagnostics.recordDuplicateExport_isEmpty (diagnostics : Diagnostics) (key : Key)
    (existing rejected : ExportDescriptor) :
    (diagnostics.recordDuplicateExport key existing rejected).isEmpty = false := by
  have longer := Grouped.length_update_pos
    (fun exports => [existing, rejected].foldl (joinNew fun old new => old == new) exports) key
    diagnostics.duplicateExports
  simp only [recordDuplicateExport, isEmpty, length, beq_eq_false_iff_ne]
  omega

/-- A candidate for export keeps the type of its entry. -/
def Candidate.Fits (entries : List Entry) (candidate : Candidate) : Prop :=
  ∃ entry, entries[candidate.entry.index]? = some entry ∧
    entry.key.type = candidate.exportAs.type

theorem Candidate.Fits.mono {entries entries' : List Entry} {candidate : Candidate}
    (fits : candidate.Fits entries) (grows : entries <+: entries') : candidate.Fits entries' := by
  obtain ⟨entry, found, type⟩ := fits
  exact ⟨entry, getElem?_of_grown grows found, type⟩

namespace Draft

variable {offered : Pool → Prop} {assembly : Assembly} {draft : Draft}

/-- An entry of a draft is declared, or it delegates. -/
theorem Sound.entry_cases (sound : draft.Sound assembly) {index : Nat} {entry : Entry}
    (found : draft.entries[index]? = some entry) :
    assembly.entries[index]? = some entry ∨ entry.Delegates assembly := by
  obtain ⟨added, entries, delegates⟩ := sound.entries
  rw [entries] at found
  rcases Nat.lt_or_ge index assembly.entries.length with old | new
  · exact .inl ((List.getElem?_append_left old).symm.trans found)
  · rw [List.getElem?_append_right new] at found
    exact .inr (delegates entry (List.mem_of_getElem? found))

/-- Every factory among the entries is a declared one. -/
theorem Sound.declared_of_isFactory (sound : draft.Sound assembly) {index : Nat} {entry : Entry}
    (found : draft.entries[index]? = some entry) (factory : entry.isFactory = true) :
    assembly.entries[index]? = some entry := by
  rcases sound.entry_cases found with declared | ⟨-, -, target, origin, -⟩
  · exact declared
  · simp [Entry.isFactory, origin, Origin.kind] at factory

/-- A declared entry stays where it is. -/
theorem Sound.declared (sound : draft.Sound assembly) {index : Nat} {entry : Entry}
    (found : assembly.entries[index]? = some entry) : draft.entries[index]? = some entry := by
  obtain ⟨added, entries, -⟩ := sound.entries
  exact getElem?_of_grown (entries ▸ List.prefix_append _ _) found

/-- The producer behind an entry makes values of the type of its key. -/
theorem Sound.delegateTo_provides (sound : draft.Sound assembly)
    (wellFormed : assembly.WellFormed offered) {id : EntryId} {entry : Entry}
    (found : draft.entries[id.index]? = some entry) :
    (delegateTo draft.entries id).Provides assembly entry.key.type := by
  unfold delegateTo
  rw [found]
  rcases sound.entry_cases found with declared | ⟨-, -, target, origin, provides⟩
  · have proper := wellFormed.entries id.index entry declared
    unfold Entry.Proper at proper
    cases origin : entry.origin with
    | given handle => simpa [origin] using ⟨entry, declared, rfl⟩
    | made factory => simpa [origin] using ⟨entry, declared, rfl⟩
    | delegate target => simp [origin] at proper
  · simpa [origin] using provides

/-- A new entry is offered to a scope under its own key. -/
theorem evolves_push_register (scopes : List Scope) (scope : ScopeId) (draft : Draft)
    (entry : Entry) (delegates : entry.Delegates assembly) :
    Evolves assembly draft
      ((draft.push entry).2.register scopes scope entry.key (draft.push entry).1) := by
  refine (evolves_push draft entry delegates).trans (evolves_register scopes scope ?_)
  exact ⟨entry, getElem?_push draft entry, rfl⟩

theorem evolves_enroll (scopes : List Scope) (scope : ScopeId) (draft : Draft) (id : EntryId) :
    Evolves assembly draft (draft.enroll scopes scope id) := by
  unfold enroll
  split
  · exact .refl draft
  · rename_i entry found
    exact evolves_register scopes scope ⟨entry, found, rfl⟩

theorem evolves_offer (scopes : List Scope) (scope : ScopeId) {imported : Import}
    (checked : ImportSpec.checkAll imported.spec.ops = .ok ()) (draft : Draft)
    {candidate : Key × Delegate} (provides : candidate.2.Provides assembly candidate.1.type) :
    Evolves assembly draft (draft.offer scopes scope imported candidate) := by
  unfold offer
  split
  · exact .refl draft
  · rename_i key kept
    refine evolves_push_register scopes scope draft
      (.ofDelegate key candidate.2 scope (imported.label scopes)) ⟨rfl, rfl, candidate.2, rfl, ?_⟩
    have type : key.type = candidate.1.type := ImportSpec.applyAll_type checked kept
    change candidate.2.Provides assembly key.type
    rw [type]
    exact provides

/-- The candidates of an import make values of the types of their keys. -/
theorem Sound.candidate_provides (sound : draft.Sound assembly)
    (wellFormed : assembly.WellFormed offered) {data : Scope} (here : data ∈ assembly.scopes)
    {imported : Import} (member : imported ∈ data.imports) {candidate : Key × Delegate}
    (among : candidate ∈ draft.candidates imported.spec.source) :
    candidate.2.Provides assembly candidate.1.type := by
  unfold candidates at among
  split at among
  · obtain ⟨pair, held, rfl⟩ := List.mem_map.mp among
    obtain ⟨entry, found, key⟩ := sound.holds_registry _ pair held
    rw [← key]
    exact sound.delegateTo_provides wellFormed found
  · rename_i built source
    obtain ⟨entry, visible, rfl⟩ := List.mem_map.mp among
    exact ⟨⟨data, here, imported, member, built, source, visible⟩, rfl⟩

theorem evolves_bringIn (wellFormed : assembly.WellFormed offered) {scope : ScopeId} {data : Scope}
    (here : assembly.scopes[scope.index]? = some data) {imported : Import}
    (member : imported ∈ data.imports) (draft : Draft) :
    Evolves assembly draft (draft.bringIn assembly.scopes scope imported) := by
  intro sound
  have proper := (wellFormed.scopes scope.index data here).imports imported member
  exact evolves_foldl _ _ (fun candidate among draft =>
    evolves_offer assembly.scopes scope proper.checked draft
      (sound.candidate_provides wellFormed (List.mem_of_getElem? here) member among)) draft sound

theorem evolves_populate (wellFormed : assembly.WellFormed offered) (scope : ScopeId)
    (draft : Draft) : Evolves assembly draft (draft.populate assembly.scopes scope) := by
  unfold populate
  split
  · exact .refl draft
  · rename_i data here
    refine (evolves_foldl _ _ (fun id _ draft => evolves_enroll _ _ draft id) draft).trans
      ((evolves_foldl _ _ (fun imported member draft => ?_) _).trans (evolves_report _ _))
    exact evolves_bringIn wellFormed here member draft

/-- When a populated scope has no problems it holds each of its declared entries. -/
theorem get?_populate (wellFormed : assembly.WellFormed offered) (sound : draft.Sound assembly)
    {index : Nat} {entry : Entry} (found : assembly.entries[index]? = some entry)
    (accepted : (draft.populate assembly.scopes entry.scope).diagnostics.isEmpty = true) :
    ((draft.populate assembly.scopes entry.scope).registry entry.scope).get? entry.key =
      some ⟨index⟩ := by
  obtain ⟨data, here, listed⟩ := wellFormed.placed index entry found
  have enrolls (id : EntryId) (_ : id ∈ data.declared) (draft : Draft) :
      Evolves assembly draft (draft.enroll assembly.scopes entry.scope id) :=
    evolves_enroll assembly.scopes entry.scope draft id
  have enrolled := (evolves_foldl _ _ enrolls draft sound).1
  have filled := (evolves_foldl _ data.imports
    (fun imported member draft => evolves_bringIn wellFormed here member draft) _ enrolled).2
  obtain ⟨middle, fine, -, taken⟩ := exists_step_of_foldl _ _ enrolls sound listed
  unfold populate at accepted ⊢
  simp only [here] at accepted ⊢
  have onward := taken.trans filled
  apply onward.registered _ _ _
  have offered : middle.enroll assembly.scopes entry.scope ⟨index⟩ =
      middle.register assembly.scopes entry.scope entry.key ⟨index⟩ := by
    simp only [enroll, fine.declared found]
  have clean := onward.accepted accepted
  rw [offered] at clean ⊢
  refine get?_register ?_ clean
  rw [fine.length_registries]
  exact (List.getElem?_eq_some_iff.mp here).1

theorem evolves_select (data : Scope) (scope : ScopeId) (selection : List Candidate × Draft)
    (spec : ExportSpec) : Evolves assembly selection.2 (select data scope selection spec).2 := by
  unfold select
  cases spec with
  | keyed key exportAs =>
    cases found : (selection.2.registry scope).get? key with
    | some id => simpa [found] using .refl selection.2
    | none =>
      simp only [found]
      refine evolves_of_agrees ⟨rfl, rfl, rfl⟩ fun accepted => ?_
      rw [Diagnostics.recordUnresolvedExport_isEmpty] at accepted
      cases accepted
  | all => exact .refl selection.2

/-- The selected candidates keep the types of their entries. -/
theorem select_fits {data : Scope} {scope : ScopeId} {selection : List Candidate × Draft}
    {spec : ExportSpec} (sound : selection.2.Sound assembly) (proper : spec.Proper)
    (fits : ∀ candidate ∈ selection.1, candidate.Fits selection.2.entries) :
    ∀ candidate ∈ (select data scope selection spec).1,
      candidate.Fits (select data scope selection spec).2.entries := by
  unfold select
  have holds := sound.holds_registry scope
  cases spec with
  | keyed key exportAs =>
    cases found : (selection.2.registry scope).get? key with
    | none => simpa [found] using fits
    | some id =>
      simp only [found]
      intro candidate member
      rcases List.mem_append.mp member with old | new
      · exact fits candidate old
      · rw [List.mem_singleton.mp new]
        obtain ⟨entry, place, same⟩ := holds.of_get? found
        exact ⟨entry, place, by rw [same]; exact proper⟩
  | all =>
    intro candidate member
    rcases List.mem_append.mp member with old | new
    · exact fits candidate old
    · obtain ⟨pair, held, rfl⟩ := List.mem_map.mp new
      obtain ⟨entry, place, same⟩ := holds pair held
      exact ⟨entry, place, by rw [same]⟩

theorem evolves_deliver (wellFormed : assembly.WellFormed offered) (data : Scope) (scope : ScopeId)
    {candidate : Candidate} (fits : candidate.Fits draft.entries) :
    Evolves assembly draft (draft.deliver assembly.scopes data scope candidate) := by
  intro sound
  obtain ⟨entry, found, type⟩ := fits
  have provides := sound.delegateTo_provides wellFormed found
  rw [type] at provides
  have pushed (receiver : ScopeId) := evolves_push draft (.ofDelegate candidate.exportAs
    (delegateTo draft.entries candidate.entry) receiver
    ("export from `" ++ data.name ++ "`")) ⟨rfl, rfl, _, rfl, provides⟩
  unfold deliver
  cases data.parent with
  | none => exact ((pushed scope).trans (evolves_publish _ ⟨_, getElem?_push _ _, rfl⟩)) sound
  | some parent =>
      exact ((pushed parent).trans (evolves_register _ _ ⟨_, getElem?_push _ _, rfl⟩)) sound

theorem evolves_send (wellFormed : assembly.WellFormed offered) (data : Scope) (scope : ScopeId)
    {candidate : Candidate} (fits : candidate.Fits draft.entries) :
    Evolves assembly draft (draft.send assembly.scopes data scope candidate) := by
  unfold send
  split
  · split
    · exact .refl draft
    · refine evolves_of_agrees ⟨rfl, rfl, rfl⟩ fun accepted => ?_
      rw [Diagnostics.recordDuplicateExport_isEmpty] at accepted
      cases accepted
  · have claimed (claim : Claim) (descriptor : ExportDescriptor) :
        Evolves assembly draft (draft.claim claim candidate.entry descriptor) :=
      evolves_of_agrees ⟨rfl, rfl, rfl⟩ fun accepted => accepted
    dsimp only
    split
    · exact claimed _ _
    · refine (claimed _ _).trans (evolves_deliver wellFormed data scope ?_)
      exact fits

/-- The exports of a scope select candidates that keep the types of their entries. -/
theorem Sound.selectEach (sound : draft.Sound assembly) (data : Scope) (scope : ScopeId)
    {specs : List ExportSpec} (proper : ∀ spec ∈ specs, spec.Proper)
    {candidates : List Candidate} {after : Draft}
    (selected : specs.foldl (select data scope) ([], draft) = (candidates, after)) :
    after.Sound assembly ∧ draft.Grows after ∧
      ∀ candidate ∈ candidates, candidate.Fits after.entries := by
  have kept := List.foldlRecOn specs (select data scope) (b := ([], draft))
    (motive := fun selection => selection.2.Sound assembly ∧ draft.Grows selection.2 ∧
      ∀ candidate ∈ selection.1, candidate.Fits selection.2.entries)
    ⟨sound, .refl draft, fun _ member => nomatch member⟩ (by
      rintro selection ⟨fine, grows, fits⟩ spec member
      obtain ⟨next, onward⟩ := evolves_select data scope selection spec fine
      exact ⟨next, grows.trans onward, select_fits fine (proper spec member) fits⟩)
  rw [selected] at kept
  exact kept

/-- Candidates that were selected together leave one after the other. -/
theorem evolves_sendEach (wellFormed : assembly.WellFormed offered) (data : Scope)
    (scope : ScopeId) {candidates : List Candidate}
    (fits : ∀ candidate ∈ candidates, candidate.Fits draft.entries) :
    Evolves assembly draft (candidates.foldl (send assembly.scopes data scope) draft) := by
  induction candidates generalizing draft with
  | nil => exact .refl draft
  | cons candidate rest ih =>
    intro sound
    obtain ⟨next, grows⟩ :=
      evolves_send wellFormed data scope (fits candidate List.mem_cons_self) sound
    have later (other : Candidate) (member : other ∈ rest) :
        other.Fits (send assembly.scopes data scope draft candidate).entries :=
      (fits other (List.mem_cons_of_mem _ member)).mono grows.entries
    obtain ⟨last, onward⟩ := ih later next
    exact ⟨last, grows.trans onward⟩

theorem evolves_exportFrom (wellFormed : assembly.WellFormed offered) (scope : ScopeId)
    (draft : Draft) : Evolves assembly draft (draft.exportFrom assembly.scopes scope) := by
  intro sound
  unfold exportFrom
  split
  · exact ⟨sound, .refl draft⟩
  · rename_i data here
    rcases selected : data.exports.foldl (select data scope) ([], draft) with ⟨candidates, after⟩
    have proper := (wellFormed.scopes scope.index data here).exports
    obtain ⟨fine, grows, fits⟩ := sound.selectEach data scope proper selected
    obtain ⟨last, onward⟩ := evolves_sendEach wellFormed data scope fits fine
    exact ⟨last, grows.trans onward⟩

end Draft

end Wiring
