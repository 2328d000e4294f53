import Wiring.Proofs.Records
import Wiring.Proofs.Turns

/-!
Disputes over outward keys. The exports of a pass send candidates to their receivers. A duplicate is
recorded for a key exactly when two producers, among what was sent to one receiver under the key and
what the receiver held before, are not the same.
-/

namespace Wiring

namespace Row

/-- Two producers compete for the key. -/
def Disputes (row : Row) (key : Key) : Prop :=
  ∃ first second, (key, first) ∈ row ∧ (key, second) ∈ row ∧ ¬ first.Same second

variable {row : Row} {key : Key} {target known : Delegate}

theorem Disputes.append (disputes : row.Disputes key) (more : Row) :
    Disputes (row ++ more) key := by
  obtain ⟨first, second, member, member', different⟩ := disputes
  exact ⟨first, second, List.mem_append_left _ member, List.mem_append_left _ member', different⟩

/-- A pair with a producer that its key has already, or with a new key, starts no dispute. -/
theorem disputes_append_agreeing
    (agreeing : key ∉ row.keys ∨ ∃ known, (key, known) ∈ row ∧ known.Same target) (other : Key) :
    Disputes (row ++ [(key, target)]) other ↔ row.Disputes other := by
  refine ⟨?_, fun disputes => disputes.append _⟩
  rintro ⟨first, second, member, member', different⟩
  have cases_of {producer : Delegate} (member : (other, producer) ∈ row ++ [(key, target)]) :
      (other, producer) ∈ row ∨ other = key ∧ producer = target :=
    (List.mem_append.mp member).imp_right fun single =>
      Prod.mk.inj (List.mem_singleton.mp single)
  rcases cases_of member with old | ⟨rfl, rfl⟩
  · rcases cases_of member' with old' | ⟨rfl, rfl⟩
    · exact ⟨first, second, old, old', different⟩
    · rcases agreeing with absent | ⟨known, held, same⟩
      · exact absurd (List.mem_map_of_mem old) absent
      · exact ⟨first, known, old, held, fun alike => different (alike.trans same)⟩
  · rcases cases_of member' with old' | ⟨-, rfl⟩
    · rcases agreeing with absent | ⟨known, held, same⟩
      · exact absurd (List.mem_map_of_mem old') absent
      · exact ⟨known, second, held, old', fun alike => different (same.symm.trans alike)⟩
    · exact absurd (.refl _) different

/-- A pair concerns its own key alone. -/
theorem disputes_append_of_ne {other : Key} (different : other ≠ key) :
    Disputes (row ++ [(key, target)]) other ↔ row.Disputes other := by
  refine ⟨?_, fun disputes => disputes.append _⟩
  rintro ⟨first, second, member, member', apart⟩
  have old {producer : Delegate} (member : (other, producer) ∈ row ++ [(key, target)]) :
      (other, producer) ∈ row :=
    (List.mem_append.mp member).resolve_right fun single =>
      different (Prod.mk.inj (List.mem_singleton.mp single)).1
  exact ⟨first, second, old member, old member', apart⟩

theorem disputes_append_differing (held : (key, known) ∈ row) (different : ¬ known.Same target) :
    Disputes (row ++ [(key, target)]) key :=
  ⟨known, target, List.mem_append_left _ held, by simp, different⟩

end Row

namespace Draft

variable {offered : Pool → Prop} {assembly : Assembly} {draft : Draft}

/-- Between two drafts a duplicate export or a duplicate provider was recorded for the key. -/
def Records (before after : Draft) (key : Key) : Prop :=
  after.diagnostics.duplicateExports.get key ≠ before.diagnostics.duplicateExports.get key ∨
    after.diagnostics.duplicateProviders.get key ≠ before.diagnostics.duplicateProviders.get key

/-- No duplicate is recorded from one draft to the next. -/
structure Quiet (before after : Draft) : Prop where
  exports : after.diagnostics.duplicateExports = before.diagnostics.duplicateExports
  providers : after.diagnostics.duplicateProviders = before.diagnostics.duplicateProviders

/-- A duplicate is recorded for the key, and none for another one. -/
structure Reports (before after : Draft) (key : Key) : Prop where
  exports : ∀ other, key ≠ other →
    after.diagnostics.duplicateExports.get other = before.diagnostics.duplicateExports.get other
  providers : ∀ other, key ≠ other → after.diagnostics.duplicateProviders.get other =
    before.diagnostics.duplicateProviders.get other
  recorded : after.diagnostics.duplicateExports.get key ≠ [] ∨
    ∃ descriptor ∈ after.diagnostics.duplicateProviders.get key,
      before.entries.length ≤ descriptor.id.index

theorem Quiet.records_iff {before after : Draft} (quiet : before.Quiet after) (key : Key) :
    draft.Records after key ↔ draft.Records before key := by
  unfold Records
  rw [quiet.exports, quiet.providers]

/-- A report counts for its key, and for no other one. -/
theorem Reports.records_iff {before after : Draft} {key : Key} (reports : before.Reports after key)
    (unsent : draft.Unsent) (grows : draft.entries.length ≤ before.entries.length) (other : Key) :
    draft.Records after other ↔ key = other ∨ draft.Records before other := by
  unfold Records
  by_cases same : key = other
  · subst same
    simp only [true_or, iff_true]
    rcases reports.recorded with exports | ⟨descriptor, member, fresh⟩
    · left
      rw [unsent.duplicateExports]
      exact exports
    · right
      intro unchanged
      rw [unchanged] at member
      have old := unsent.recorded key descriptor member
      omega
  · rw [reports.exports other same, reports.providers other same]
    simp [same]

theorem exists_mem_joinNew {α : Type} (known : α → α → Bool) (items : List α) (item : α) :
    ∃ other ∈ joinNew known items item, known other item = true ∨ other = item := by
  unfold joinNew
  split
  · rename_i found
    obtain ⟨old, member, alike⟩ := List.any_eq_true.mp found
    exact ⟨old, member, .inl alike⟩
  · exact ⟨item, by simp, .inr rfl⟩

/-- A competition with a new entry is reported. -/
theorem reports_recordDuplicate (draft : Draft) (scopes : List Scope) (key : Key)
    (existing : EntryId) {middle : Draft} (same : middle.diagnostics = draft.diagnostics) :
    draft.Reports (middle.recordDuplicate scopes ⟨key, existing, ⟨draft.entries.length⟩⟩) key where
  exports other _ := by
    change middle.diagnostics.duplicateExports.get other = _
    rw [same]
  providers other different := by
    rw [get_recordDuplicate, if_neg different, same]
  recorded := by
    right
    rw [get_recordDuplicate, if_pos rfl, List.foldl_cons, List.foldl_cons, List.foldl_nil]
    obtain ⟨descriptor, member, alike⟩ := exists_mem_joinNew (fun old new => old.id == new.id)
      (joinNew (fun old new => old.id == new.id) (middle.diagnostics.duplicateProviders.get key)
        (middle.describe scopes existing))
      (middle.describe scopes ⟨draft.entries.length⟩)
    refine ⟨descriptor, member, ?_⟩
    have id : descriptor.id = ⟨draft.entries.length⟩ := by
      rcases alike with alike | rfl
      · simpa using alike
      · exact describe_id _ _ _
    rw [id]

/-- An entry that a scope has no key left for is reported, and any other is not. -/
theorem reports_register (draft middle : Draft) (scopes : List Scope) (scope : ScopeId) (key : Key)
    (same : middle.diagnostics = draft.diagnostics) :
    (key ∈ (middle.registry scope).keys →
        draft.Reports (middle.register scopes scope key ⟨draft.entries.length⟩) key) ∧
      (key ∉ (middle.registry scope).keys →
        draft.Quiet (middle.register scopes scope key ⟨draft.entries.length⟩)) := by
  rw [← Registry.contains_iff_mem_keys, Registry.contains]
  unfold register Registry.put
  cases (middle.registry scope).get? key with
  | some existing =>
    exact ⟨fun _ => reports_recordDuplicate draft scopes key existing same,
      fun absent => absurd rfl absent⟩
  | none =>
    exact ⟨fun held => absurd held Bool.false_ne_true, fun _ => ⟨by rw [same], by rw [same]⟩⟩

/-- An entry that the public has no key left for is reported, and any other is not. -/
theorem reports_publish (draft middle : Draft) (scopes : List Scope) (key : Key)
    (same : middle.diagnostics = draft.diagnostics) :
    (key ∈ middle.exports.keys →
        draft.Reports (middle.publish scopes key ⟨draft.entries.length⟩) key) ∧
      (key ∉ middle.exports.keys →
        draft.Quiet (middle.publish scopes key ⟨draft.entries.length⟩)) := by
  rw [← Registry.contains_iff_mem_keys, Registry.contains]
  unfold publish Registry.put
  cases middle.exports.get? key with
  | some existing =>
    exact ⟨fun _ => reports_recordDuplicate draft scopes key existing same,
      fun absent => absurd rfl absent⟩
  | none =>
    exact ⟨fun held => absurd held Bool.false_ne_true, fun _ => ⟨by rw [same], by rw [same]⟩⟩

/-- A delivery to a receiver that holds the key already is reported, and any other is not. -/
theorem deliver_reports (draft : Draft) (scopes : List Scope) (data : Scope) (scope : ScopeId)
    (candidate : Candidate) :
    (candidate.exportAs ∈ (draft.rowOf data.parent).keys →
        draft.Reports (draft.deliver scopes data scope candidate) candidate.exportAs) ∧
      (candidate.exportAs ∉ (draft.rowOf data.parent).keys →
        draft.Quiet (draft.deliver scopes data scope candidate)) := by
  unfold deliver
  cases data.parent with
  | none =>
    rw [rowOf, publicRow, Registry.keys_row]
    exact reports_publish draft (draft.push _).2 scopes candidate.exportAs rfl
  | some parent =>
    rw [rowOf, row, Registry.keys_row]
    exact reports_register draft (draft.push _).2 scopes parent candidate.exportAs rfl

/-- A competition between exports is reported. -/
theorem reports_recordDuplicateExport (draft : Draft) (key : Key)
    (existing rejected : ExportDescriptor) :
    draft.Reports { draft with
      diagnostics := draft.diagnostics.recordDuplicateExport key existing rejected } key where
  exports other different := by
    exact (Grouped.get_update _ _ _ _).trans (if_neg different)
  providers _ _ := rfl
  recorded := by
    left
    refine ((Grouped.get_update _ _ _ _).trans (if_pos rfl)).trans_ne ?_
    rw [List.foldl_cons, List.foldl_cons, List.foldl_nil]
    exact List.ne_nil_of_mem (exists_mem_joinNew _ _ rejected).choose_spec.1

theorem claimed_deliver (draft : Draft) (scopes : List Scope) (data : Scope) (scope : ScopeId)
    (candidate : Candidate) :
    (draft.deliver scopes data scope candidate).claimed = draft.claimed := by
  unfold deliver
  cases data.parent with
  | none =>
    unfold publish Registry.put
    dsimp only
    cases (draft.push _).2.exports.get? candidate.exportAs <;> rfl
  | some parent =>
    unfold register Registry.put
    dsimp only
    cases ((draft.push _).2.registry parent).get? candidate.exportAs <;> rfl

/-- The first candidate for an outward key of a receiver claims it. -/
theorem claimant?_send (draft : Draft) (scopes : List Scope) (data : Scope) (scope : ScopeId)
    (candidate : Candidate) : ∃ descriptor, ∀ claim,
      (draft.send scopes data scope candidate).claimant? claim = (draft.claimant? claim).or
        (if (data.parent, candidate.exportAs) = claim then some (candidate.entry, descriptor)
          else none) := by
  refine ⟨⟨candidate.key, candidate.exportAs, data.name,
    some (producer draft.entries candidate.entry)⟩, fun claim => ?_⟩
  unfold send
  cases claimant : draft.claimant? (data.parent, candidate.exportAs) with
  | some known =>
    have unchanged {after : Draft} (same : after.claimed = draft.claimed)
        {claimed : EntryId × ExportDescriptor} : after.claimant? claim = (draft.claimant? claim).or
          (if (data.parent, candidate.exportAs) = claim then some claimed else none) := by
      unfold claimant? at *
      rw [same]
      split
      · rename_i here
        rw [← here, claimant]
        rfl
      · rw [Option.or_none]
    dsimp only
    split <;> exact unchanged rfl
  | none =>
    rw [← claimant?_claim]
    dsimp only
    split
    · rfl
    · unfold claimant?
      rw [claimed_deliver]

end Draft

end Wiring
