import Wiring.Proofs.Rows

/-!
Populations: what the scopes hold before anything is exported. Each row is made of what is offered
to its scope: the declared providers, and what every import keeps of its source. A source is filled
before the scopes that import from it, so the offers are told by the rows themselves.
-/

namespace Wiring

/-- What an import keeps of the row of its source, under the keys that it gives. -/
def ImportSpec.keeps (spec : ImportSpec) (row : Row) : Row :=
  row.filterMap fun pair => (spec.apply pair.1).map fun key => (key, pair.2)

/-- The row of a source, when the scopes have the given rows. -/
def ImportSource.row (rows : ScopeId → Row) : ImportSource → Row
  | .scope id => rows id
  | .pool built => built.visibleEntries.map fun entry => (entry.key, .foreign entry)

namespace Scope

/-- The declared providers of a scope under their keys. -/
def declaredRow (entries : List Entry) (scope : Scope) : Row :=
  scope.declared.filterMap fun id => entries[id.index]?.map fun entry => (entry.key, .entry id)

/-- What is offered to a scope in turn, when the scopes have the given rows. -/
def offers (entries : List Entry) (rows : ScopeId → Row) (scope : Scope) : Row :=
  scope.declaredRow entries ++
    scope.imports.flatMap fun imported => imported.spec.keeps (imported.spec.source.row rows)

theorem mem_scopeSources {scope : Scope} {imported : Import} {source : ScopeId}
    (member : imported ∈ scope.imports) (taken : imported.spec.source = .scope source) :
    source.index ∈ scope.scopeSources :=
  List.mem_filterMap.mpr ⟨imported, member, by rw [Import.scopeSource?, taken]⟩

/-- An import depends on the row of its source only. -/
theorem row_congr {rows rows' : ScopeId → Row} {scope : Scope}
    (same : ∀ source ∈ scope.scopeSources, rows ⟨source⟩ = rows' ⟨source⟩) {imported : Import}
    (member : imported ∈ scope.imports) :
    imported.spec.source.row rows = imported.spec.source.row rows' := by
  cases taken : imported.spec.source with
  | scope source => exact same source.index (mem_scopeSources member taken)
  | pool built => rfl

/-- The offers depend on the rows of the sources only. -/
theorem offers_congr {entries : List Entry} {rows rows' : ScopeId → Row} {scope : Scope}
    (same : ∀ source ∈ scope.scopeSources, rows ⟨source⟩ = rows' ⟨source⟩) :
    scope.offers entries rows = scope.offers entries rows' := by
  refine congrArg (scope.declaredRow entries ++ ·) (List.flatMap_congr fun imported member => ?_)
  rw [row_congr same member]

end Scope

namespace Draft

variable {offered : Pool → Prop} {assembly : Assembly} {draft : Draft}

/-- A declared provider leads to itself. -/
theorem Sound.delegateTo_declared (sound : draft.Sound assembly)
    (wellFormed : assembly.WellFormed offered) {id : EntryId} {entry : Entry}
    (found : assembly.entries[id.index]? = some entry) :
    delegateTo draft.entries id = .entry id := by
  have proper := wellFormed.entries id.index entry found
  unfold delegateTo Entry.Proper at *
  rw [sound.declared found]
  cases origin : entry.origin <;> simp_all

/-- What steps in turn offer to a scope. Each step meets the other scopes as they were. -/
theorem Sound.fills_foldl {α : Type} {step : Draft → α → Draft} {items : List α} {scope : ScopeId}
    {more : α → Row} (sound : draft.Sound assembly)
    (evolves : ∀ item ∈ items, ∀ middle, Evolves assembly middle (step middle item))
    (each : ∀ item ∈ items, ∀ middle : Draft, middle.Sound assembly →
      (∀ other, other ≠ scope → middle.row other = draft.row other) →
      middle.Fills (step middle item) scope (more item)) :
    draft.Fills (items.foldl step draft) scope (items.flatMap more) := by
  induction items generalizing draft with
  | nil => exact .refl draft scope
  | cons item rest ih =>
    have first := each item List.mem_cons_self draft sound fun _ _ => rfl
    refine first.trans (ih (evolves item List.mem_cons_self draft sound).1
      (fun other member => evolves other (List.mem_cons_of_mem _ member))
      fun other member middle fine same => ?_)
    refine each other (List.mem_cons_of_mem _ member) middle fine fun elsewhere different => ?_
    rw [same elsewhere different, first.others elsewhere different]

theorem Sound.fills_enroll (sound : draft.Sound assembly)
    (wellFormed : assembly.WellFormed offered) (scopes : List Scope) {scope : ScopeId}
    (inside : scope.index < assembly.scopes.length) {id : EntryId} {entry : Entry}
    (found : assembly.entries[id.index]? = some entry) :
    draft.Fills (draft.enroll scopes scope id) scope [(entry.key, .entry id)] := by
  unfold enroll
  rw [sound.declared found]
  rw [← sound.length_registries] at inside
  have registered := fills_register draft scopes entry.key id inside
  rwa [sound.delegateTo_declared wellFormed found] at registered

theorem Sound.fills_offer (sound : draft.Sound assembly) (scopes : List Scope) {scope : ScopeId}
    (inside : scope.index < assembly.scopes.length) (imported : Import)
    (candidate : Key × Delegate) :
    draft.Fills (draft.offer scopes scope imported candidate) scope
      (imported.spec.keeps [candidate]) := by
  unfold offer ImportSpec.keeps
  rw [List.filterMap_cons]
  cases kept : imported.spec.apply candidate.1 with
  | none => exact .refl draft scope
  | some key => exact sound.fills_push_register scopes inside key candidate.2 scope _

theorem candidates_eq (draft : Draft) (source : ImportSource) :
    draft.candidates source = source.row draft.row := by
  cases source <;> rfl

/-- An import from another scope, or from a built pool, brings what it keeps. -/
theorem Sound.fills_bringIn (sound : draft.Sound assembly)
    (wellFormed : assembly.WellFormed offered) {scope : ScopeId} {data : Scope}
    (here : assembly.scopes[scope.index]? = some data) {imported : Import}
    (member : imported ∈ data.imports) :
    draft.Fills (draft.bringIn assembly.scopes scope imported) scope
      (imported.spec.keeps (imported.spec.source.row draft.row)) := by
  have proper := (wellFormed.scopes scope.index data here).imports imported member
  have inside := (List.getElem?_eq_some_iff.mp here).1
  unfold bringIn
  rw [← candidates_eq]
  have kept : imported.spec.keeps (draft.candidates imported.spec.source) =
      (draft.candidates imported.spec.source).flatMap fun candidate =>
        imported.spec.keeps [candidate] := by
    unfold ImportSpec.keeps
    rw [List.filterMap_eq_flatMap_toList]
    refine List.flatMap_congr fun candidate _ => ?_
    rw [List.filterMap_eq_flatMap_toList, List.flatMap_singleton]
  rw [kept]
  refine sound.fills_foldl (fun candidate among middle => ?_) fun candidate _ middle fine _ =>
    fine.fills_offer assembly.scopes inside imported candidate
  exact evolves_offer assembly.scopes scope proper.checked middle
    (sound.candidate_provides wellFormed (List.mem_of_getElem? here) member among)

/-- A scope that does not import from itself is filled with what is offered to it. -/
theorem Sound.fills_populate (sound : draft.Sound assembly)
    (wellFormed : assembly.WellFormed offered) {scope : ScopeId} {data : Scope}
    (here : assembly.scopes[scope.index]? = some data)
    (apart : scope.index ∉ data.scopeSources) :
    draft.Fills (draft.populate assembly.scopes scope) scope
      (data.offers assembly.entries draft.row) := by
  have inside := (List.getElem?_eq_some_iff.mp here).1
  have enrolls (id : EntryId) (_ : id ∈ data.declared) (middle : Draft) :
      Evolves assembly middle (middle.enroll assembly.scopes scope id) :=
    evolves_enroll assembly.scopes scope middle id
  have declared : draft.Fills (data.declared.foldl (enroll assembly.scopes scope) draft) scope
      (data.declaredRow assembly.entries) := by
    unfold Scope.declaredRow
    rw [List.filterMap_eq_flatMap_toList]
    refine sound.fills_foldl enrolls fun id member middle fine _ => ?_
    obtain ⟨entry, found, -⟩ := wellFormed.listed scope.index data here id member
    rw [found]
    exact fine.fills_enroll wellFormed assembly.scopes inside found
  have enrolled := (evolves_foldl _ _ enrolls draft sound).1
  have imported := enrolled.fills_foldl
    (fun imported member middle => evolves_bringIn wellFormed here member middle)
    fun imported member middle fine same => by
      have brought := fine.fills_bringIn wellFormed here member
      have untouched : imported.spec.source.row middle.row =
          imported.spec.source.row draft.row := by
        refine Scope.row_congr (fun source taken => ?_) member
        have different : (⟨source⟩ : ScopeId) ≠ scope := by
          rintro rfl
          exact apart taken
        rw [same _ different, declared.others _ different]
      rw [untouched] at brought
      exact brought
  unfold populate
  rw [here]
  exact (declared.trans imported).report _

/-- What holds of a draft when the scopes at the given positions are filled, all sources of a scope
among them. -/
structure Populated (assembly : Assembly) (done : List Nat) (draft : Draft) : Prop where
  sound : draft.Sound assembly
  sources : ∀ index ∈ done, ∀ source ∈ sourcesAt assembly.scopes index, source ∈ done
  rows : ∀ index ∈ done, ∀ data, assembly.scopes[index]? = some data →
    draft.row ⟨index⟩ = Row.receiveAll [] (data.offers assembly.entries draft.row)
  bare : ∀ index, index ∉ done → draft.row ⟨index⟩ = []
  publicRow : draft.publicRow = []
  claimed : draft.claimed = []
  accepted : draft.diagnostics.isEmpty = true ↔ importCycles assembly.scopes = [] ∧
    ∀ index ∈ done, ∀ data, assembly.scopes[index]? = some data →
      (data.offers assembly.entries draft.row).keys.Nodup

theorem populated_nil (assembly : Assembly) : Populated assembly [] assembly.orderedDraft where
  sound := assembly.orderedDraft_sound
  sources _ member := nomatch member
  rows _ member := nomatch member
  bare index _ := by
    unfold row registry
    cases found : assembly.orderedDraft.registries[index]? with
    | none => rfl
    | some registry =>
      obtain ⟨pair, -, rfl⟩ := List.mem_map.mp (List.mem_of_getElem? found)
      rfl
  publicRow := rfl
  claimed := rfl
  accepted := by simp [assembly.orderedDraft_isEmpty]

/-- A scope whose sources are filled is filled next. -/
theorem Populated.populate {done : List Nat} (populated : Populated assembly done draft)
    (wellFormed : assembly.WellFormed offered) {index : Nat} (fresh : index ∉ done)
    (ready : ∀ source ∈ sourcesAt assembly.scopes index, source ∈ done)
    (inside : index < assembly.scopes.length) :
    Populated assembly (done ++ [index]) (draft.populate assembly.scopes ⟨index⟩) := by
  have here := List.getElem?_eq_getElem inside
  generalize assembly.scopes[index] = data at here
  have listed := sourcesAt_of_getElem? here
  rw [listed] at ready
  have fills := populated.sound.fills_populate wellFormed here fun self => fresh (ready index self)
  have kept (other : Nat) (known : other ∈ done) :
      (draft.populate assembly.scopes ⟨index⟩).row ⟨other⟩ = draft.row ⟨other⟩ := by
    refine fills.others ⟨other⟩ fun same => fresh ?_
    rwa [← ScopeId.mk.inj same]
  have offers (other : Nat) (scope : Scope) (place : assembly.scopes[other]? = some scope)
      (among : ∀ source ∈ sourcesAt assembly.scopes other, source ∈ done) :
      scope.offers assembly.entries (draft.populate assembly.scopes ⟨index⟩).row =
        scope.offers assembly.entries draft.row := by
    refine Scope.offers_congr fun source member => kept source (among source ?_)
    rwa [sourcesAt_of_getElem? place]
  have own := offers index data here (by rw [listed]; exact ready)
  refine ⟨(evolves_populate wellFormed ⟨index⟩ draft populated.sound).1, fun other member => ?_,
    fun other member scope place => ?_, fun other absent => ?_,
    fills.publicRow.trans populated.publicRow, fills.claimed.trans populated.claimed, ?_⟩
  · intro source taken
    refine List.mem_append_left _ ?_
    rcases List.mem_append.mp member with old | new
    · exact populated.sources other old source taken
    · rw [List.mem_singleton.mp new, listed] at taken
      exact ready source taken
  · rcases List.mem_append.mp member with old | new
    · rw [kept other old, offers other scope place (populated.sources other old)]
      exact populated.rows other old scope place
    · obtain rfl := List.mem_singleton.mp new
      obtain rfl := Option.some.inj (here.symm.trans place)
      rw [fills.row, populated.bare other fresh, own]
  · rw [List.mem_append, List.mem_singleton, not_or] at absent
    rw [fills.others ⟨other⟩ fun same => absent.2 (ScopeId.mk.inj same),
      populated.bare other absent.1]
  · rw [fills.accepted, populated.bare index fresh, Row.fresh_nil, populated.accepted, and_assoc]
    refine and_congr_right fun _ => ?_
    constructor
    · rintro ⟨before, last⟩ other member scope place
      rcases List.mem_append.mp member with old | new
      · rw [offers other scope place (populated.sources other old)]
        exact before other old scope place
      · obtain rfl := List.mem_singleton.mp new
        obtain rfl := Option.some.inj (here.symm.trans place)
        rwa [own]
    · intro all
      refine ⟨fun other old scope place => ?_, ?_⟩
      · rw [← offers other scope place (populated.sources other old)]
        exact all other (List.mem_append_left _ old) scope place
      · rw [← own]
        exact all index (by simp) data here

/-- Scopes are filled one after the other, sources first. -/
theorem Populated.foldl (wellFormed : assembly.WellFormed offered) {order done : List Nat}
    (populated : Populated assembly done draft)
    (first : SourcesFirst assembly.scopes done order)
    (inside : ∀ index ∈ order, index < assembly.scopes.length) :
    Populated assembly (done ++ order)
      ((order.map ScopeId.mk).foldl (Draft.populate assembly.scopes) draft) := by
  induction order generalizing done draft with
  | nil => rwa [List.append_nil]
  | cons index rest ih =>
    obtain ⟨fresh, ready, onward⟩ := first
    have next := populated.populate wellFormed fresh ready (inside index List.mem_cons_self)
    rw [← List.singleton_append, ← List.append_assoc]
    exact ih next onward fun other later => inside other (List.mem_cons_of_mem _ later)

end Draft

namespace Assembly

variable {offered : Pool → Prop} {assembly : Assembly}

theorem WellFormed.contained (wellFormed : assembly.WellFormed offered) :
    Contained assembly.scopes.length (sourcesAt assembly.scopes) := by
  intro index inside source member
  rw [sourcesAt_of_getElem? (List.getElem?_eq_getElem inside)] at member
  exact wellFormed.sources index _ (List.getElem?_eq_getElem inside) source member

theorem populatedDraft_populated (wellFormed : assembly.WellFormed offered)
    (acyclic : importCycles assembly.scopes = []) :
    ∃ done, (∀ index, index ∈ done ↔ index < assembly.scopes.length) ∧
      Draft.Populated assembly done assembly.populatedDraft := by
  obtain ⟨order, orders, first, all⟩ := sourcesFirst_importOrder wellFormed.contained acyclic
  have populated := (Draft.populated_nil assembly).foldl wellFormed first
    fun index member => (all index).mp member
  rw [← orders] at populated
  exact ⟨order, all, populated⟩

/-- Without circles of imports every scope is filled with what is offered to it, as the rows in the
end tell it. -/
theorem row_populatedDraft (wellFormed : assembly.WellFormed offered)
    (acyclic : importCycles assembly.scopes = []) {index : Nat} {data : Scope}
    (here : assembly.scopes[index]? = some data) :
    assembly.populatedDraft.row ⟨index⟩ =
      Row.receiveAll [] (data.offers assembly.entries assembly.populatedDraft.row) := by
  obtain ⟨done, all, populated⟩ := populatedDraft_populated wellFormed acyclic
  exact populated.rows index ((all index).mpr (List.getElem?_eq_some_iff.mp here).1) data here

/-- The scopes are filled without a problem when there are no circles of imports and no key is
offered to a scope twice. -/
theorem populatedDraft_isEmpty (wellFormed : assembly.WellFormed offered) :
    assembly.populatedDraft.diagnostics.isEmpty = true ↔ importCycles assembly.scopes = [] ∧
      ∀ (index : Nat) (data : Scope), assembly.scopes[index]? = some data →
        (data.offers assembly.entries assembly.populatedDraft.row).keys.Nodup := by
  constructor
  · intro clean
    have acyclic := assembly.orderedDraft_isEmpty.mp
      ((populatedDraft_evolves wellFormed (orderedDraft_sound assembly)).2.accepted clean)
    obtain ⟨done, all, populated⟩ := populatedDraft_populated wellFormed acyclic
    refine ⟨acyclic, fun index data here => ?_⟩
    have inside := (List.getElem?_eq_some_iff.mp here).1
    exact (populated.accepted.mp clean).2 index ((all index).mpr inside) data here
  · rintro ⟨acyclic, distinct⟩
    obtain ⟨done, all, populated⟩ := populatedDraft_populated wellFormed acyclic
    exact populated.accepted.mpr ⟨acyclic, fun index _ => distinct index⟩

end Assembly

end Wiring
