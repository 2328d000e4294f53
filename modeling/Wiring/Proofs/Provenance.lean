import Wiring.Proofs.ExportOrder
import Wiring.Proofs.Hosts

/-!
Where the producers come from that a scope holds, told by the declarations alone: a producer is
declared in the scope, an import brings it from another scope or from a built pool, or a scope below
exports it, under any keys on the way. An accepted resolution registers just these producers.
-/

namespace Wiring

/-- The key under which an export shows what its scope holds under a key. -/
def ExportSpec.shows (key : Key) : ExportSpec → Option Key
  | .keyed own exportAs => if own = key then some exportAs else none
  | .all => some key

namespace Assembly

/-- A producer comes to a scope under a key before anything is exported. -/
inductive Supplies (assembly : Assembly) : ScopeId → Key → Delegate → Prop
  /-- It is declared there. -/
  | declared {id : EntryId} {entry : Entry} (found : assembly.entries[id.index]? = some entry) :
    Supplies assembly entry.scope entry.key (.entry id)
  /-- An import brings it from another scope, under the key that the steps of the import give. -/
  | imported {scope source : ScopeId} {data : Scope} {imported : Import} {key renamed : Key}
    {target : Delegate} (here : assembly.scopes[scope.index]? = some data)
    (member : imported ∈ data.imports) (taken : imported.spec.source = .scope source)
    (supplies : Supplies assembly source key target)
    (kept : imported.spec.apply key = some renamed) : Supplies assembly scope renamed target
  /-- An import brings it from a built pool. -/
  | pooled {scope : ScopeId} {data : Scope} {imported : Import} {pool : Pool} {key renamed : Key}
    {entry : RuntimeEntry} (here : assembly.scopes[scope.index]? = some data)
    (member : imported ∈ data.imports) (taken : imported.spec.source = .pool pool)
    (visible : pool.find? key = some entry) (kept : imported.spec.apply key = some renamed) :
    Supplies assembly scope renamed (.foreign entry)

/-- A producer comes to a scope, or to the public, under a key. -/
inductive Exposes (assembly : Assembly) : Option ScopeId → Key → Delegate → Prop
  /-- It comes to the scope before anything is exported. -/
  | supplied {scope : ScopeId} {key : Key} {target : Delegate}
    (supplies : assembly.Supplies scope key target) : Exposes assembly (some scope) key target
  /-- A scope exports it, to its parent or from the root to the public. -/
  | exported {scope : ScopeId} {data : Scope} {spec : ExportSpec} {key renamed : Key}
    {target : Delegate} (here : assembly.scopes[scope.index]? = some data)
    (member : spec ∈ data.exports) (exposes : Exposes assembly (some scope) key target)
    (shown : spec.shows key = some renamed) : Exposes assembly data.parent renamed target

end Assembly

namespace Row

variable {row : Row} {key : Key} {target : Delegate}

theorem get?_eq_some (distinct : row.keys.Nodup) :
    row.get? key = some target ↔ (key, target) ∈ row :=
  ⟨mem_of_get?, get?_of_mem distinct⟩

/-- What goes out of a row is what an export shows of it. -/
theorem mem_outward (distinct : row.keys.Nodup) {scope : Scope} {renamed : Key} :
    (renamed, target) ∈ scope.outward row ↔ ∃ spec ∈ scope.exports, ∃ key,
      row.get? key = some target ∧ spec.shows key = some renamed := by
  rw [Scope.outward, List.mem_flatMap]
  refine exists_congr fun spec => and_congr_right fun _ => ?_
  cases spec with
  | all =>
    have shows (key : Key) : ExportSpec.all.shows key = some renamed ↔ key = renamed := by
      simp [ExportSpec.shows]
    simp only [ExportSpec.sends, shows, exists_eq_right, get?_eq_some distinct]
  | keyed own exportAs =>
    have shows (key : Key) : (ExportSpec.keyed own exportAs).shows key = some renamed ↔
        key = own ∧ exportAs = renamed := by
      simp [ExportSpec.shows, eq_comm]
    simp [ExportSpec.sends, shows, and_comm]

theorem mem_keeps {spec : ImportSpec} {renamed : Key} :
    (renamed, target) ∈ spec.keeps row ↔
      ∃ key, (key, target) ∈ row ∧ spec.apply key = some renamed := by
  unfold ImportSpec.keeps
  rw [List.mem_filterMap]
  constructor
  · rintro ⟨⟨key, found⟩, member, kept⟩
    obtain ⟨name, applied, same⟩ := Option.map_eq_some_iff.mp kept
    obtain ⟨rfl, rfl⟩ := Prod.mk.inj same
    exact ⟨key, member, applied⟩
  · rintro ⟨key, member, applied⟩
    exact ⟨(key, target), member, by rw [applied]; rfl⟩

end Row

namespace Assembly

variable {offered : Pool → Prop} {assembly : Assembly} {scope : ScopeId} {key : Key}
  {target : Delegate}

theorem Supplies.exists_scope (supplies : assembly.Supplies scope key target)
    (wellFormed : assembly.WellFormed offered) :
    ∃ data, assembly.scopes[scope.index]? = some data := by
  cases supplies with
  | declared found =>
    obtain ⟨data, here, -⟩ := wellFormed.placed _ _ found
    exact ⟨data, here⟩
  | imported here => exact ⟨_, here⟩
  | pooled here => exact ⟨_, here⟩

/-- What comes to a scope is declared there, or it was imported. -/
theorem Supplies.provides (supplies : assembly.Supplies scope key target)
    (wellFormed : assembly.WellFormed offered) (typed : ∀ pool, offered pool → pool.Typed) :
    ∃ type, target.Provides assembly type := by
  induction supplies with
  | declared found => exact ⟨_, _, found, rfl⟩
  | imported _ _ _ _ _ ih => exact ih
  | @pooled scope data imported pool key _ entry here member taken visible _ =>
    have proper := (wellFormed.scopes scope.index data here).imports
    have fits := typed pool ((proper imported member).source pool taken)
    obtain rfl := (fits.of_find? visible).1
    exact ⟨_, ⟨data, List.mem_of_getElem? here, imported, member, pool, taken,
      fits.mem_visibleEntries.mpr visible⟩, rfl⟩

theorem Exposes.provides {receiver : Option ScopeId}
    (exposes : assembly.Exposes receiver key target) (wellFormed : assembly.WellFormed offered)
    (typed : ∀ pool, offered pool → pool.Typed) :
    ∃ type, target.Provides assembly type := by
  induction exposes with
  | supplied supplies => exact supplies.provides wellFormed typed
  | exported _ _ _ _ ih => exact ih

/-- What is offered to a scope comes there by one declaration, when what its sources hold has come
to them. -/
theorem supplies_of_mem_offers (wellFormed : assembly.WellFormed offered)
    (typed : ∀ pool, offered pool → pool.Typed) {data : Scope}
    (here : assembly.scopes[scope.index]? = some data) {rows : ScopeId → Row}
    (sources : ∀ source ∈ data.scopeSources, ∀ key target,
      (key, target) ∈ rows ⟨source⟩ → assembly.Supplies ⟨source⟩ key target)
    (offers : (key, target) ∈ data.offers assembly.entries rows) :
    assembly.Supplies scope key target := by
  have proper := (wellFormed.scopes scope.index data here).imports
  rw [Scope.offers, List.mem_append, Scope.declaredRow, List.mem_filterMap,
    List.mem_flatMap] at offers
  rcases offers with ⟨id, listed, found⟩ | ⟨imported, member, brought⟩
  · obtain ⟨entry, place, same⟩ := Option.map_eq_some_iff.mp found
    obtain ⟨rfl, rfl⟩ := Prod.mk.inj same
    obtain ⟨other, known, home⟩ := wellFormed.listed scope.index data here id listed
    obtain rfl := Option.some.inj (place.symm.trans known)
    have supplies : assembly.Supplies entry.scope entry.key (.entry id) := .declared place
    rwa [home] at supplies
  · obtain ⟨inner, held, kept⟩ := Row.mem_keeps.mp brought
    cases taken : imported.spec.source with
    | scope source =>
      rw [taken] at held
      exact .imported here member taken
        (sources source.index (Scope.mem_scopeSources member taken) inner target held) kept
    | pool pool =>
      rw [taken] at held
      obtain ⟨entry, visible, same⟩ := List.mem_map.mp held
      obtain ⟨rfl, rfl⟩ := Prod.mk.inj same
      have fits := typed pool ((proper imported member).source pool taken)
      exact .pooled here member taken (fits.mem_visibleEntries.mp visible) kept

/-- What is offered to a scope comes there by one declaration, when that holds of its sources. -/
theorem mem_offers (wellFormed : assembly.WellFormed offered)
    (typed : ∀ pool, offered pool → pool.Typed) {data : Scope}
    (here : assembly.scopes[scope.index]? = some data) {rows : ScopeId → Row}
    (sources : ∀ source ∈ data.scopeSources, ∀ key target,
      (key, target) ∈ rows ⟨source⟩ ↔ assembly.Supplies ⟨source⟩ key target) :
    (key, target) ∈ data.offers assembly.entries rows ↔ assembly.Supplies scope key target := by
  have proper := (wellFormed.scopes scope.index data here).imports
  constructor
  · exact supplies_of_mem_offers wellFormed typed here
      fun source member key target => (sources source member key target).mp
  · intro supplies
    rw [Scope.offers, List.mem_append, Scope.declaredRow, List.mem_filterMap, List.mem_flatMap]
    cases supplies with
    | declared found =>
      obtain ⟨other, place, listed⟩ := wellFormed.placed _ _ found
      obtain rfl := Option.some.inj (here.symm.trans place)
      exact .inl ⟨_, listed, by rw [found]; rfl⟩
    | @imported _ source other imported inner _ _ place member taken supplies kept =>
      obtain rfl := Option.some.inj (here.symm.trans place)
      refine .inr ⟨imported, member, Row.mem_keeps.mpr ⟨inner, ?_, kept⟩⟩
      rw [taken]
      exact (sources source.index (Scope.mem_scopeSources member taken) inner target).mpr supplies
    | @pooled _ other imported pool inner _ entry place member taken visible kept =>
      obtain rfl := Option.some.inj (here.symm.trans place)
      have fits := typed pool ((proper imported member).source pool taken)
      obtain rfl := (fits.of_find? visible).1
      refine .inr ⟨imported, member, Row.mem_keeps.mpr ⟨entry.key, ?_, kept⟩⟩
      rw [taken]
      exact List.mem_map.mpr ⟨entry, fits.mem_visibleEntries.mpr visible, rfl⟩

/-- Scopes that are filled without a problem hold just what comes to them. -/
theorem get?_populatedDraft (wellFormed : assembly.WellFormed offered)
    (typed : ∀ pool, offered pool → pool.Typed)
    (clean : assembly.populatedDraft.diagnostics.isEmpty = true) :
    (assembly.populatedDraft.row scope).get? key = some target ↔
      assembly.Supplies scope key target := by
  obtain ⟨acyclic, distinct⟩ := (populatedDraft_isEmpty wellFormed).mp clean
  have single : (assembly.populatedDraft.row scope).keys.Nodup :=
    nodup_populatedDraft wellFormed (some scope)
  rw [Row.get?_eq_some single]
  clear single
  obtain ⟨index⟩ := scope
  induction (importCycles_eq_nil wellFormed.contained).mp acyclic index generalizing key target with
  | intro index _ ih =>
    cases here : assembly.scopes[index]? with
    | none =>
      have sound := (populatedDraft_evolves wellFormed (orderedDraft_sound assembly)).1
      rw [sound.row_eq_nil here]
      refine ⟨nofun, fun supplies => ?_⟩
      obtain ⟨data, place⟩ := supplies.exists_scope wellFormed
      rw [here] at place
      cases place
    | some data =>
      rw [row_populatedDraft wellFormed acyclic here,
        (Row.fresh_nil.mpr (distinct index data here)).receiveAll_eq]
      refine mem_offers wellFormed typed here fun source member key target => ih source ?_
      rwa [sourcesAt_of_getElem? here]

/-- What holds of a draft while the scopes export: no row repeats a key, and what is held has come
there. -/
structure Traced (assembly : Assembly) (draft : Draft) : Prop where
  exporting : Draft.Exporting assembly draft
  distinct : ∀ receiver, (draft.rowOf receiver).keys.Nodup
  exposes : ∀ receiver key target, (draft.rowOf receiver).get? key = some target →
    assembly.Exposes receiver key target

theorem Traced.exportFrom {draft : Draft} (traced : Traced assembly draft)
    (wellFormed : assembly.WellFormed offered) (scope : ScopeId) :
    Traced assembly (draft.exportFrom assembly.scopes scope) := by
  cases here : assembly.scopes[scope.index]? with
  | none =>
    have unchanged : draft.exportFrom assembly.scopes scope = draft := by
      simp only [Draft.exportFrom, here]
    rwa [unchanged]
  | some data =>
    obtain ⟨exports, -⟩ := traced.exporting.claims.exportFrom traced.exporting.sound wellFormed here
    refine ⟨(traced.exporting.exportFrom wellFormed scope).exporting,
      exports.distinct traced.distinct, fun receiver key target held => ?_⟩
    by_cases receives : receiver = data.parent
    · rw [receives, exports.row, Row.get?_receiveAll] at held
      rw [receives]
      cases before : (draft.rowOf data.parent).get? key with
      | some known =>
        obtain rfl : known = target := by simpa [before] using held
        exact traced.exposes _ _ _ before
      | none =>
        rw [before, Option.none_or] at held
        obtain ⟨spec, member, own, known, shown⟩ :=
          (Row.mem_outward (traced.distinct (some scope))).mp (Row.mem_of_get? held)
        exact .exported here member (traced.exposes (some scope) own target known) shown
    · rw [exports.others receiver receives] at held
      exact traced.exposes _ _ _ held

theorem Traced.exportEach {draft : Draft} (traced : Traced assembly draft)
    (wellFormed : assembly.WellFormed offered) (order : List ScopeId) :
    Traced assembly (assembly.exportEach draft order) := by
  induction order generalizing draft with
  | nil => exact traced
  | cons scope rest ih => exact ih (traced.exportFrom wellFormed scope)

/-- What a scope or the public holds in the end has come there. -/
theorem traced_exportedDraft (wellFormed : assembly.WellFormed offered)
    (typed : ∀ pool, offered pool → pool.Typed)
    (clean : assembly.populatedDraft.diagnostics.isEmpty = true) :
    Traced assembly assembly.exportedDraft := by
  have populated : Traced assembly assembly.populatedDraft := by
    refine ⟨exporting_populatedDraft wellFormed, nodup_populatedDraft wellFormed,
      fun receiver key target held => ?_⟩
    cases receiver with
    | some scope => exact .supplied ((get?_populatedDraft wellFormed typed clean).mp held)
    | none =>
      rw [Draft.rowOf, (populatedDraft_bare wellFormed).1] at held
      cases held
  exact populated.exportEach wellFormed _

/-- What comes to a scope or the public is held there in the end, or the same producer is. -/
theorem Exposes.exists_held {receiver : Option ScopeId}
    (exposes : assembly.Exposes receiver key target) (wellFormed : assembly.WellFormed offered)
    (typed : ∀ pool, offered pool → pool.Typed)
    (clean : assembly.exportedDraft.diagnostics.isEmpty = true) :
    ∃ held, (assembly.exportedDraft.rowOf receiver).get? key = some held ∧ held.Same target := by
  have sound := (populatedDraft_evolves wellFormed (orderedDraft_sound assembly)).1
  have filled := (exportedDraft_evolves wellFormed sound).2.accepted clean
  have passes := (exporting_populatedDraft wellFormed).exportEach wellFormed
    (exportOrder assembly.scopes assembly.scopes.length .root)
  have traced := traced_exportedDraft wellFormed typed filled
  induction exposes with
  | @supplied scope key target supplies =>
    have held := (get?_populatedDraft wellFormed typed filled).mpr supplies
    exact ⟨target, passes.kept (some scope) key target held, .refl target⟩
  | @exported scope data spec key renamed target here member exposes shown ih =>
    obtain ⟨held, known, same⟩ := ih
    have outward : (renamed, held) ∈ data.outward (assembly.exportedDraft.row scope) :=
      (Row.mem_outward (traced.distinct (some scope))).mpr ⟨spec, member, key, known, shown⟩
    obtain ⟨last, found, alike⟩ := delivered_exportedDraft wellFormed clean here data here _ outward
    exact ⟨last, found, alike.trans same⟩

end Assembly

end Wiring
