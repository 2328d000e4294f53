import Wiring.Proofs.Resolving

/-!
What a resolution records of imports and of requirements. Circles of imports are recorded when the
scopes are ordered, and unmet requirements when dependencies are linked. All other phases abstain
from both, whatever problems they find.
-/

namespace Wiring

namespace Draft

/-- Between the two drafts nothing was recorded of imports and of requirements. -/
structure Abstains (before after : Draft) : Prop where
  imports : after.diagnostics.importCycles = before.diagnostics.importCycles
  requirements : after.diagnostics.unresolvedRequirements =
    before.diagnostics.unresolvedRequirements

variable {first second third : Draft}

theorem Abstains.refl (draft : Draft) : draft.Abstains draft := ⟨rfl, rfl⟩

theorem Abstains.trans (abstains : first.Abstains second) (onward : second.Abstains third) :
    first.Abstains third :=
  ⟨onward.imports.trans abstains.imports, onward.requirements.trans abstains.requirements⟩

theorem abstains_foldl {α : Type} (step : Draft → α → Draft) (items : List α)
    (each : ∀ (draft : Draft) (item : α), draft.Abstains (step draft item)) (draft : Draft) :
    draft.Abstains (items.foldl step draft) :=
  List.foldlRecOn items step (motive := draft.Abstains) (.refl draft) fun middle abstains item _ =>
    abstains.trans (each middle item)

theorem abstains_register (draft : Draft) (scopes : List Scope) (scope : ScopeId) (key : Key)
    (id : EntryId) : draft.Abstains (draft.register scopes scope key id) := by
  unfold register
  split <;> exact ⟨rfl, rfl⟩

theorem abstains_publish (draft : Draft) (scopes : List Scope) (key : Key) (id : EntryId) :
    draft.Abstains (draft.publish scopes key id) := by
  unfold publish
  split <;> exact ⟨rfl, rfl⟩

theorem abstains_push (draft : Draft) (entry : Entry) : draft.Abstains (draft.push entry).2 :=
  ⟨rfl, rfl⟩

theorem abstains_enroll (scopes : List Scope) (scope : ScopeId) (draft : Draft) (id : EntryId) :
    draft.Abstains (draft.enroll scopes scope id) := by
  unfold enroll
  cases draft.entries[id.index]? with
  | none => exact .refl draft
  | some entry => exact abstains_register draft scopes scope entry.key id

theorem abstains_offer (scopes : List Scope) (scope : ScopeId) (imported : Import)
    (draft : Draft) (candidate : Key × Delegate) :
    draft.Abstains (draft.offer scopes scope imported candidate) := by
  unfold offer
  cases imported.spec.apply candidate.1 with
  | none => exact .refl draft
  | some key => exact (abstains_push draft _).trans (abstains_register _ _ _ _ _)

theorem abstains_bringIn (scopes : List Scope) (scope : ScopeId) (draft : Draft)
    (imported : Import) : draft.Abstains (draft.bringIn scopes scope imported) :=
  abstains_foldl _ _ (abstains_offer scopes scope imported) draft

theorem abstains_populate (scopes : List Scope) (draft : Draft) (scope : ScopeId) :
    draft.Abstains (draft.populate scopes scope) := by
  unfold populate
  cases scopes[scope.index]? with
  | none => exact .refl draft
  | some data =>
    have enrolled := abstains_foldl _ data.declared (abstains_enroll scopes scope) draft
    have filled := abstains_foldl _ data.imports (abstains_bringIn scopes scope)
      (data.declared.foldl (enroll scopes scope) draft)
    exact (enrolled.trans filled).trans ⟨rfl, rfl⟩

theorem abstains_selectEach (data : Scope) (scope : ScopeId) (specs : List ExportSpec)
    (selection : List Candidate × Draft) :
    selection.2.Abstains (specs.foldl (select data scope) selection).2 := by
  refine List.foldlRecOn specs (select data scope)
    (motive := fun later => selection.2.Abstains later.2) (.refl _) fun middle abstains spec _ =>
      abstains.trans ?_
  unfold select
  cases spec with
  | all => exact .refl _
  | keyed key exportAs =>
    cases found : (middle.2.registry scope).get? key <;> simp only [found] <;> exact ⟨rfl, rfl⟩

theorem abstains_deliver (scopes : List Scope) (data : Scope) (scope : ScopeId)
    (candidate : Candidate) (draft : Draft) :
    draft.Abstains (deliver scopes data scope candidate draft) := by
  unfold deliver
  cases data.parent with
  | none => exact (abstains_push draft _).trans (abstains_publish _ _ _ _)
  | some parent => exact (abstains_push draft _).trans (abstains_register _ _ _ _ _)

theorem abstains_send (scopes : List Scope) (data : Scope) (scope : ScopeId) (draft : Draft)
    (candidate : Candidate) : draft.Abstains (draft.send scopes data scope candidate) := by
  unfold send
  split
  · split <;> exact ⟨rfl, rfl⟩
  · dsimp only
    split
    · exact ⟨rfl, rfl⟩
    · have claimed (claim : Claim) (entry : EntryId) (descriptor : ExportDescriptor) :
          draft.Abstains (draft.claim claim entry descriptor) := ⟨rfl, rfl⟩
      exact (claimed _ _ _).trans (abstains_deliver scopes data scope candidate _)

theorem abstains_exportFrom (scopes : List Scope) (draft : Draft) (scope : ScopeId) :
    draft.Abstains (draft.exportFrom scopes scope) := by
  unfold exportFrom
  cases scopes[scope.index]? with
  | none => exact .refl draft
  | some data =>
    exact (abstains_selectEach data scope data.exports ([], draft)).trans
      (abstains_foldl _ _ (abstains_send scopes data scope) _)

theorem abstains_recordCycles (draft : Draft) (links : List (List EntryId)) :
    draft.Abstains (draft.recordCycles links) := by
  have recorded (cycles : List (List Key)) (diagnostics : Diagnostics) :
      (cycles.foldl Diagnostics.recordDependencyCycle diagnostics).importCycles =
          diagnostics.importCycles ∧
        (cycles.foldl Diagnostics.recordDependencyCycle diagnostics).unresolvedRequirements =
          diagnostics.unresolvedRequirements :=
    List.foldlRecOn cycles _ (motive := fun later : Diagnostics =>
      later.importCycles = diagnostics.importCycles ∧
        later.unresolvedRequirements = diagnostics.unresolvedRequirements)
      ⟨rfl, rfl⟩ fun _ same _ _ => same
  exact ⟨(recorded _ _).1, (recorded _ _).2⟩

theorem abstains_rejectShadowing (scopes : List Scope) (draft : Draft) :
    draft.Abstains (draft.rejectShadowing scopes) :=
  abstains_foldl (fun draft error => draft.recordDuplicate scopes error)
    (draft.registries.flatMap draft.shadowings) (fun _ _ => ⟨rfl, rfl⟩) draft

/-- Linking records the needs without a provider, in order, and no circle of imports. -/
theorem diagnostics_link (scopes : List Scope) (draft : Draft) :
    (draft.link scopes).diagnostics.importCycles = draft.diagnostics.importCycles ∧
      (draft.link scopes).diagnostics.unresolvedRequirements =
        draft.diagnostics.unresolvedRequirements ++
          (draft.needs.flatten.filter fun need => need.provider.isNone).map fun need =>
            ⟨need.key, draft.describe scopes need.consumer⟩ := by
  have settled (needs : List Need) (middle : Draft) (same : middle.entries = draft.entries) :
      (needs.foldl (settleNeed scopes) middle).diagnostics.importCycles =
          middle.diagnostics.importCycles ∧
        (needs.foldl (settleNeed scopes) middle).diagnostics.unresolvedRequirements =
          middle.diagnostics.unresolvedRequirements ++
            (needs.filter fun need => need.provider.isNone).map fun need =>
              ⟨need.key, draft.describe scopes need.consumer⟩ := by
    induction needs generalizing middle with
    | nil => simp
    | cons need rest ih =>
      rw [List.foldl_cons, List.filter_cons]
      cases found : need.provider with
      | some provider =>
        have step : settleNeed scopes middle need =
            middle.report (.dependencyResolved need.entry.key need.key provider) := by
          unfold settleNeed
          rw [found]
        rw [step]
        exact ih (middle.report _) same
      | none =>
        have described : middle.describe scopes need.consumer =
            draft.describe scopes need.consumer := by
          unfold describe
          rw [same]
        let later : Draft :=
          { middle with
            diagnostics := middle.diagnostics.recordUnresolvedRequirement need.key
              (draft.describe scopes need.consumer) }
        have step : settleNeed scopes middle need = later := by
          unfold settleNeed
          rw [found, described]
        rw [step]
        obtain ⟨imports, requirements⟩ := ih later same
        refine ⟨imports, requirements.trans ?_⟩
        simp [later, Diagnostics.recordUnresolvedRequirement]
  exact settled _ draft rfl

end Draft

namespace Assembly

variable (assembly : Assembly)

/-- To fill the scopes and to export from them is to abstain. -/
theorem abstains_exportedDraft : assembly.orderedDraft.Abstains assembly.exportedDraft :=
  (Draft.abstains_foldl _ _ (Draft.abstains_populate assembly.scopes) _).trans
    (Draft.abstains_foldl _ _ (Draft.abstains_exportFrom assembly.scopes) _)

/-- What comes after the linking abstains. -/
theorem abstains_finalDraft :
    (assembly.exportedDraft.link assembly.scopes).Abstains assembly.finalDraft := by
  have cycled : (assembly.exportedDraft.link assembly.scopes).Abstains assembly.linkedDraft :=
    Draft.abstains_recordCycles _ _
  unfold finalDraft
  dsimp only
  split
  · exact cycled
  · exact cycled.trans (Draft.abstains_rejectShadowing _ _)

/-- The circles that are recorded are those of the imports, each from its least name on and once. -/
theorem survey_importCycles : assembly.survey.diagnostics.importCycles =
    ((importCycles assembly.scopes).map (rotateToLeast id)).foldl
      (joinNew fun old new => old == new) [] := by
  have recorded (cycles : List (List String)) (diagnostics : Diagnostics) :
      (cycles.foldl Diagnostics.recordImportCycle diagnostics).importCycles =
        (cycles.map (rotateToLeast id)).foldl (joinNew fun old new => old == new)
          diagnostics.importCycles := by
    induction cycles generalizing diagnostics with
    | nil => rfl
    | cons cycle rest ih => exact ih (diagnostics.recordImportCycle cycle)
  calc assembly.finalDraft.diagnostics.importCycles
      = (assembly.exportedDraft.link assembly.scopes).diagnostics.importCycles :=
        assembly.abstains_finalDraft.imports
    _ = assembly.exportedDraft.diagnostics.importCycles :=
        (Draft.diagnostics_link assembly.scopes _).1
    _ = assembly.orderedDraft.diagnostics.importCycles := assembly.abstains_exportedDraft.imports
    _ = _ := recorded _ _

/-- The requirements that are recorded are the needs of all entries that have no provider when
everything is exported. -/
theorem survey_unresolvedRequirements : assembly.survey.diagnostics.unresolvedRequirements =
    (assembly.exportedDraft.needs.flatten.filter fun need => need.provider.isNone).map fun need =>
      ⟨need.key, assembly.exportedDraft.describe assembly.scopes need.consumer⟩ := by
  have recorded (cycles : List (List String)) (diagnostics : Diagnostics) :
      (cycles.foldl Diagnostics.recordImportCycle diagnostics).unresolvedRequirements =
        diagnostics.unresolvedRequirements :=
    List.foldlRecOn cycles _ (motive := fun later : Diagnostics =>
      later.unresolvedRequirements = diagnostics.unresolvedRequirements) rfl fun _ same _ _ => same
  have before : assembly.exportedDraft.diagnostics.unresolvedRequirements = [] :=
    assembly.abstains_exportedDraft.requirements.trans (recorded _ _)
  calc assembly.finalDraft.diagnostics.unresolvedRequirements
      = (assembly.exportedDraft.link assembly.scopes).diagnostics.unresolvedRequirements :=
        assembly.abstains_finalDraft.requirements
    _ = _ := (Draft.diagnostics_link assembly.scopes _).2
    _ = _ := by rw [before, List.nil_append]

end Assembly

end Wiring
