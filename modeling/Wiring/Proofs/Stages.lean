import Wiring.Proofs.Offers
import Wiring.Proofs.Outward

/-!
The stages of a resolution: the drafts that it passes through, one after each single change. From
one stage to the next at most one entry is added, and no entry is ever changed, so at every stage
the entries are a prefix of those at the end.
-/

namespace Wiring

namespace Draft

/-- The second draft has the entries of the first one, and at most one more. -/
def Continues (before after : Draft) : Prop :=
  ∃ added, after.entries = before.entries ++ added ∧ added.length ≤ 1

/-- The stages lead from the first draft to the last one, each continuing the one before it. -/
inductive Through : Draft → List Draft → Draft → Prop
  | stay (draft : Draft) : Through draft [] draft
  | pass {first next last : Draft} {stages : List Draft} (continues : first.Continues next)
      (through : Through next stages last) : Through first (next :: stages) last

/-- The stages of steps for a list of items in turn, given those of a single step. -/
def along {σ α : Type} (step : σ → α → σ) (stages : σ → α → List Draft) : List α → σ → List Draft
  | [], _ => []
  | item :: rest, state => stages state item ++ along step stages rest (step state item)

variable {first middle last draft : Draft} {stages more : List Draft}

theorem continues_of_same {after : Draft} (same : after.entries = draft.entries) :
    draft.Continues after :=
  ⟨[], by simpa using same, by simp⟩

theorem continues_push (draft : Draft) (entry : Entry) : draft.Continues (draft.push entry).2 :=
  ⟨[entry], rfl, by simp⟩

theorem Through.single {after : Draft} (continues : draft.Continues after) :
    Through draft [after] after :=
  .pass continues (.stay after)

theorem Through.trans (through : Through first stages middle)
    (onward : Through middle more last) : Through first (stages ++ more) last := by
  induction through with
  | stay => exact onward
  | pass continues _ ih => exact .pass continues (ih onward)

theorem Through.grows (through : Through first stages last) : first.entries <+: last.entries := by
  induction through with
  | stay => exact List.prefix_rfl
  | pass continues _ ih =>
    obtain ⟨added, entries, -⟩ := continues
    exact (entries ▸ List.prefix_append _ _).trans ih

/-- What the first draft has a stage has as well, and what a stage has the last draft has. -/
theorem Through.between (through : Through first stages last) (member : draft ∈ first :: stages) :
    first.entries <+: draft.entries ∧ draft.entries <+: last.entries := by
  induction through with
  | stay =>
    obtain rfl := List.mem_singleton.mp member
    exact ⟨List.prefix_rfl, List.prefix_rfl⟩
  | pass continues onward ih =>
    rcases List.mem_cons.mp member with rfl | later
    · exact ⟨List.prefix_rfl, (Through.pass continues onward).grows⟩
    · obtain ⟨added, entries, -⟩ := continues
      obtain ⟨longer, grows⟩ := ih later
      exact ⟨(entries ▸ List.prefix_append _ _).trans longer, grows⟩

/-- Steps in turn, of which each leads through its stages to what it leaves. -/
theorem through_along {σ α : Type} (step : σ → α → σ) {stages : σ → α → List Draft}
    (read : σ → Draft)
    (each : ∀ state item, Through (read state) (stages state item) (read (step state item)))
    (items : List α) (state : σ) :
    Through (read state) (along step stages items state) (read (items.foldl step state)) := by
  induction items generalizing state with
  | nil => exact .stay (read state)
  | cons item rest ih => exact (each state item).trans (ih (step state item))

section Population

/-- An offer adds an entry, and then registers it. -/
def offerStages (scopes : List Scope) (scope : ScopeId) (imported : Import) (draft : Draft)
    (candidate : Key × Delegate) : List Draft :=
  match imported.spec.apply candidate.1 with
  | none => []
  | some key =>
    [(draft.push (.ofDelegate key candidate.2 scope (imported.label scopes))).2,
      draft.offer scopes scope imported candidate]

/-- The candidates of an import are offered in turn. -/
def bringInStages (scopes : List Scope) (scope : ScopeId) (draft : Draft) (imported : Import) :
    List Draft :=
  along (offer scopes scope imported) (offerStages scopes scope imported)
    (draft.candidates imported.spec.source) draft

/-- A scope receives its providers in turn, then its imports, and then this is reported. -/
def populateStages (scopes : List Scope) (draft : Draft) (scope : ScopeId) : List Draft :=
  match scopes[scope.index]? with
  | none => []
  | some data =>
    along (enroll scopes scope) (fun draft id => [draft.enroll scopes scope id]) data.declared
        draft ++
      along (bringIn scopes scope) (bringInStages scopes scope) data.imports
        (data.declared.foldl (enroll scopes scope) draft) ++
      [draft.populate scopes scope]

variable (scopes : List Scope) (scope : ScopeId)

theorem through_offer (imported : Import) (draft : Draft) (candidate : Key × Delegate) :
    Through draft (offerStages scopes scope imported draft candidate)
      (draft.offer scopes scope imported candidate) := by
  unfold offerStages offer
  cases imported.spec.apply candidate.1 with
  | none => exact .stay draft
  | some key =>
    exact .pass (continues_push draft _)
      (.single (continues_of_same (entries_register _ scopes scope key _)))

theorem through_bringIn (draft : Draft) (imported : Import) :
    Through draft (bringInStages scopes scope draft imported)
      (draft.bringIn scopes scope imported) :=
  through_along (offer scopes scope imported) id (through_offer scopes scope imported) _ draft

theorem continues_enroll (draft : Draft) (id : EntryId) :
    draft.Continues (draft.enroll scopes scope id) := by
  unfold enroll
  cases draft.entries[id.index]? with
  | none => exact continues_of_same rfl
  | some entry => exact continues_of_same (entries_register draft scopes scope entry.key id)

theorem through_populate (draft : Draft) (scope : ScopeId) :
    Through draft (populateStages scopes draft scope) (draft.populate scopes scope) := by
  unfold populateStages populate
  cases scopes[scope.index]? with
  | none => exact .stay draft
  | some data =>
    have enrolled := through_along (enroll scopes scope) id
      (fun draft id => .single (continues_enroll scopes scope draft id)) data.declared draft
    have filled := through_along (bringIn scopes scope) id (through_bringIn scopes scope)
      data.imports (data.declared.foldl (enroll scopes scope) draft)
    exact (enrolled.trans filled).trans (.single (continues_of_same rfl))

end Population

section Exporting

/-- A candidate that is recorded, or makes its claim; then its entry is added unless the receiver
holds the same, and registered. -/
def sendStages (scopes : List Scope) (data : Scope) (scope : ScopeId) (draft : Draft)
    (candidate : Candidate) : List Draft :=
  match draft.claimant? (data.parent, candidate.exportAs) with
  | some _ => [draft.send scopes data scope candidate]
  | none =>
    let claimed := draft.claim (data.parent, candidate.exportAs) candidate.entry
      { key := candidate.key
        exportAs := candidate.exportAs
        scope := data.name
        target := some (producer draft.entries candidate.entry) }
    if claimed.holdsSame data.parent candidate.exportAs candidate.entry then [claimed]
    else
      [claimed,
        (claimed.push (.ofDelegate candidate.exportAs
          (delegateTo claimed.entries candidate.entry) (data.parent.getD scope)
          ("export from `" ++ data.name ++ "`"))).2,
        draft.send scopes data scope candidate]

/-- The candidates of a scope are selected, one export after the other, and then sent in turn. -/
def exportStages (scopes : List Scope) (draft : Draft) (scope : ScopeId) : List Draft :=
  match scopes[scope.index]? with
  | none => []
  | some data =>
    let selection := data.exports.foldl (select data scope) ([], draft)
    along (select data scope) (fun selection spec => [(select data scope selection spec).2])
        data.exports ([], draft) ++
      along (send scopes data scope) (sendStages scopes data scope) selection.1 selection.2

variable (scopes : List Scope) (data : Scope) (scope : ScopeId)

theorem continues_select (selection : List Candidate × Draft) (spec : ExportSpec) :
    selection.2.Continues (select data scope selection spec).2 :=
  continues_of_same (leaves_select data scope selection spec).1.entries

theorem through_deliver (draft : Draft) (candidate : Candidate) :
    Through draft
      [(draft.push (.ofDelegate candidate.exportAs (delegateTo draft.entries candidate.entry)
          (data.parent.getD scope) ("export from `" ++ data.name ++ "`"))).2,
        draft.deliver scopes data scope candidate]
      (draft.deliver scopes data scope candidate) := by
  refine .pass (continues_push draft _) (.single (continues_of_same ?_))
  unfold deliver
  cases data.parent with
  | none => exact entries_publish _ scopes _ _
  | some parent => exact entries_register _ scopes parent _ _

theorem through_send (draft : Draft) (candidate : Candidate) :
    Through draft (sendStages scopes data scope draft candidate)
      (draft.send scopes data scope candidate) := by
  unfold sendStages
  cases known : draft.claimant? (data.parent, candidate.exportAs) with
  | some claim =>
    refine .single (continues_of_same ?_)
    simp only [send, known]
    split <;> rfl
  | none =>
    simp only [send, known]
    split
    · exact .single (continues_of_same rfl)
    · exact .pass (continues_of_same rfl) (through_deliver scopes data scope _ candidate)

theorem through_exportFrom (draft : Draft) (scope : ScopeId) :
    Through draft (exportStages scopes draft scope) (draft.exportFrom scopes scope) := by
  unfold exportStages exportFrom
  cases scopes[scope.index]? with
  | none => exact .stay draft
  | some data =>
    have selected := through_along (select data scope) Prod.snd
      (fun selection spec => .single (continues_select data scope selection spec))
      data.exports ([], draft)
    exact selected.trans
      (through_along (send scopes data scope) id (through_send scopes data scope) _ _)

end Exporting

section Diagnosis

/-- Changes of the diagnostics, one after the other. -/
def diagnosisStages {α : Type} (record : Diagnostics → α → Diagnostics) (items : List α)
    (draft : Draft) : List Draft :=
  along record (fun diagnostics item => [{ draft with diagnostics := record diagnostics item }])
    items draft.diagnostics

/-- The needs of all entries are settled in turn. -/
def linkStages (scopes : List Scope) (draft : Draft) : List Draft :=
  along (settleNeed scopes) (fun draft need => [settleNeed scopes draft need])
    draft.needs.flatten draft

/-- What hides another entry is recorded in turn. -/
def shadowingStages (scopes : List Scope) (draft : Draft) : List Draft :=
  along (fun draft error => draft.recordDuplicate scopes error)
    (fun draft error => [draft.recordDuplicate scopes error])
    (draft.registries.flatMap draft.shadowings) draft

theorem through_diagnosis {α : Type} (record : Diagnostics → α → Diagnostics) (items : List α)
    (draft : Draft) : Through draft (diagnosisStages record items draft)
      { draft with diagnostics := items.foldl record draft.diagnostics } :=
  through_along record (fun diagnostics => { draft with diagnostics := diagnostics })
    (fun _ _ => .single (continues_of_same rfl)) items draft.diagnostics

theorem through_link (scopes : List Scope) (draft : Draft) :
    Through draft (linkStages scopes draft) (draft.link scopes) := by
  refine through_along (settleNeed scopes) id
    (fun middle need => .single (continues_of_same ?_)) _ draft
  unfold settleNeed
  cases need.provider <;> rfl

theorem through_rejectShadowing (scopes : List Scope) (draft : Draft) :
    Through draft (shadowingStages scopes draft) (draft.rejectShadowing scopes) :=
  through_along (fun (draft : Draft) error => draft.recordDuplicate scopes error) id
    (fun _ _ => .single (continues_of_same rfl)) _ draft

end Diagnosis

end Draft

namespace Assembly

/-- The drafts that the resolution passes through after the first one: circles of imports are
recorded, scopes are filled and export, dependencies are linked, circles of factories are recorded,
and so is forbidden shadowing. -/
def stages (assembly : Assembly) : List Draft :=
  let scopes := assembly.scopes
  let exported := assembly.exportedDraft
  Draft.diagnosisStages Diagnostics.recordImportCycle (importCycles scopes)
      (.start scopes assembly.entries) ++
    Draft.along (Draft.populate scopes) (Draft.populateStages scopes) (importOrder scopes)
      assembly.orderedDraft ++
    Draft.along (Draft.exportFrom scopes) (Draft.exportStages scopes) assembly.turns
      assembly.populatedDraft ++
    Draft.linkStages scopes exported ++
    Draft.diagnosisStages Diagnostics.recordDependencyCycle
      (Draft.dependencyCycles (exported.link scopes).entries exported.links)
      (exported.link scopes) ++
    if assembly.config.allowShadowing then []
    else Draft.shadowingStages scopes assembly.linkedDraft

/-- The stages lead from the first draft of a resolution to its last one. -/
theorem through_stages (assembly : Assembly) :
    (Draft.start assembly.scopes assembly.entries).Through assembly.stages
      assembly.finalDraft := by
  have ordered := Draft.through_diagnosis Diagnostics.recordImportCycle
    (importCycles assembly.scopes) (.start assembly.scopes assembly.entries)
  have populated := Draft.through_along (Draft.populate assembly.scopes) id
    (Draft.through_populate assembly.scopes) (importOrder assembly.scopes) assembly.orderedDraft
  have exported := Draft.through_along (Draft.exportFrom assembly.scopes) id
    (Draft.through_exportFrom assembly.scopes) assembly.turns assembly.populatedDraft
  have linked := Draft.through_link assembly.scopes assembly.exportedDraft
  have cycled := Draft.through_diagnosis Diagnostics.recordDependencyCycle
    (Draft.dependencyCycles (assembly.exportedDraft.link assembly.scopes).entries
      assembly.exportedDraft.links) (assembly.exportedDraft.link assembly.scopes)
  have onward := (((ordered.trans populated).trans exported).trans linked).trans cycled
  refine onward.trans ?_
  unfold finalDraft
  dsimp only
  split
  · exact .stay assembly.linkedDraft
  · exact Draft.through_rejectShadowing assembly.scopes assembly.linkedDraft

end Assembly

end Wiring
