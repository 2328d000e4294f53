import Wiring.Proofs.Blueprints
import Wiring.Proofs.Correspondence

/-!
What the last checks of a resolution ask. Whether all dependencies are met, whether factories depend
on each other in a circle and what hides what is told by the rows and by lookups; the numbers of the
added entries do not matter.
-/

namespace Wiring

namespace Draft

variable {offered : Pool → Prop} {assembly : Assembly} {draft : Draft}

/-- All needs are met when every dependency of a declared factory is found. -/
theorem Sound.needs_met_iff (sound : draft.Sound assembly) :
    (∀ need ∈ draft.needs.flatten, need.provider.isSome = true) ↔
      ∀ (index : Nat) (entry : Entry), assembly.entries[index]? = some entry →
        entry.isFactory = true → ∀ key ∈ entry.dependencies,
          (draft.nearest? entry.scope key).isSome = true := by
  constructor
  · intro met index entry found factory key member
    have needed : (⟨⟨index⟩, entry, key, draft.nearest? entry.scope key⟩ : Need) ∈
        draft.needsOf ⟨index⟩ entry := by
      rw [needsOf, if_pos factory]
      exact List.mem_map.mpr ⟨key, member, rfl⟩
    have here : (entry, index) ∈ draft.entries.zipIdx :=
      List.mem_zipIdx_iff_getElem?.mpr (sound.declared found)
    exact met _ (List.mem_flatten.mpr ⟨_, List.mem_map.mpr ⟨_, here, rfl⟩, needed⟩)
  · intro found need member
    obtain ⟨needs, among, needed⟩ := List.mem_flatten.mp member
    obtain ⟨⟨entry, index⟩, here, rfl⟩ := List.mem_map.mp among
    have place := List.mem_zipIdx_iff_getElem?.mp here
    unfold needsOf at needed
    split at needed
    · rename_i factory
      obtain ⟨key, depends, rfl⟩ := List.mem_map.mp needed
      exact found index entry (sound.declared_of_isFactory place factory) factory key depends
    · cases needed

/-- What is linked to an entry is what its scope finds under a dependency of a factory. -/
theorem Sound.mem_links (sound : draft.Sound assembly) {index : Nat} {id : EntryId} :
    id ∈ draft.links.getD index [] ↔
      ∃ entry key, assembly.entries[index]? = some entry ∧ entry.isFactory = true ∧
        key ∈ entry.dependencies ∧ draft.nearest? entry.scope key = some id := by
  cases place : draft.entries[index]? with
  | none =>
    have missing : draft.links[index]? = none := by simp [links, needs, place]
    rw [List.getD_eq_getElem?_getD, missing]
    refine ⟨fun member => (List.not_mem_nil member).elim, ?_⟩
    rintro ⟨entry, key, found, -⟩
    rw [sound.declared found] at place
    cases place
  | some entry =>
    rw [getD_links draft place]
    constructor
    · intro member
      split at member
      · rename_i factory
        obtain ⟨key, depends, nearest⟩ := List.mem_filterMap.mp member
        exact ⟨entry, key, sound.declared_of_isFactory place factory, factory, depends, nearest⟩
      · cases member
    · rintro ⟨other, key, found, factory, depends, nearest⟩
      obtain rfl := Option.some.inj (place.symm.trans (sound.declared found))
      rw [if_pos factory]
      exact List.mem_filterMap.mpr ⟨key, depends, nearest⟩

/-- The producer behind an entry is a factory when the entry leads to a declared one. -/
theorem Sound.isFactory_producer (sound : draft.Sound assembly)
    (wellFormed : assembly.WellFormed offered) {id : EntryId} {entry : Entry}
    (found : draft.entries[id.index]? = some entry) {next : Nat} :
    (if (draft.entries[(producer draft.entries id).index]?.map Entry.isFactory).getD false then
        some (producer draft.entries id).index else none) = some next ↔
      delegateTo draft.entries id = .entry ⟨next⟩ ∧
        ∃ provider, assembly.entries[next]? = some provider ∧ provider.isFactory = true := by
  rcases sound.delegateTo_cases wellFormed found with
    ⟨target, leads, behind, -, provider, declared⟩ | ⟨imported, leads, behind, foreign⟩
  · rw [behind, leads, sound.declared declared, Delegate.entry.injEq, EntryId.mk.injEq]
    constructor
    · intro taken
      split at taken
      · obtain rfl := Option.some.inj taken
        exact ⟨rfl, provider, declared, ‹_›⟩
      · cases taken
    · rintro ⟨rfl, other, known, factory⟩
      obtain rfl := Option.some.inj (declared.symm.trans known)
      exact if_pos factory
  · have direct : entry.isFactory = false := by
      unfold foreignEntry? at foreign
      cases origin : entry.origin <;> simp_all [Entry.isFactory, Origin.kind]
    rw [behind, leads, found, Option.map_some, Option.getD_some, direct]
    simp

/-- A factory depends directly on the factories to which its dependencies lead. -/
theorem Sound.mem_factoriesBehind (sound : draft.Sound assembly)
    (wellFormed : assembly.WellFormed offered) {index next : Nat} :
    next ∈ factoriesBehind draft.entries draft.links index ↔
      ∃ entry provider key id, assembly.entries[index]? = some entry ∧ entry.isFactory = true ∧
        assembly.entries[next]? = some provider ∧ provider.isFactory = true ∧
        key ∈ entry.dependencies ∧ draft.nearest? entry.scope key = some id ∧
        delegateTo draft.entries id = .entry ⟨next⟩ := by
  unfold factoriesBehind
  rw [List.mem_filterMap]
  simp only [List.mem_map]
  constructor
  · rintro ⟨-, ⟨id, member, rfl⟩, taken⟩
    obtain ⟨entry, key, found, factory, depends, nearest⟩ := sound.mem_links.mp member
    obtain ⟨known, place, -⟩ := sound.of_nearest? nearest
    obtain ⟨leads, provider, declared, makes⟩ :=
      (sound.isFactory_producer wellFormed place).mp taken
    exact ⟨entry, provider, key, id, found, factory, declared, makes, depends, nearest, leads⟩
  · rintro ⟨entry, provider, key, id, found, factory, declared, makes, depends, nearest, leads⟩
    obtain ⟨known, place, -⟩ := sound.of_nearest? nearest
    exact ⟨_, ⟨id, sound.mem_links.mpr ⟨entry, key, found, factory, depends, nearest⟩, rfl⟩,
      (sound.isFactory_producer wellFormed place).mpr ⟨leads, provider, declared, makes⟩⟩

/-- No circle of factories is found when no factory depends on others for ever. -/
theorem Sound.dependencyCycles_eq_nil (sound : draft.Sound assembly)
    (wellFormed : assembly.WellFormed offered) :
    dependencyCycles draft.entries draft.links = [] ↔ ∀ index, Acc
      (fun next index => next ∈ factoriesBehind draft.entries draft.links index) index := by
  unfold dependencyCycles
  rw [List.map_eq_nil_iff]
  refine findCycles_eq_nil (fun index _ next member => ?_) fun index beyond => ?_
  · obtain ⟨-, provider, -, -, -, -, declared, -⟩ :=
      (sound.mem_factoriesBehind wellFormed).mp member
    exact (List.getElem?_eq_some_iff.mp (sound.declared declared)).1
  · refine List.eq_nil_iff_forall_not_mem.mpr fun next member => ?_
    obtain ⟨entry, -, -, -, found, -⟩ := (sound.mem_factoriesBehind wellFormed).mp member
    have inside := (List.getElem?_eq_some_iff.mp (sound.declared found)).1
    omega

/-- Nothing is hidden when what a scope holds has the producer that its parent sees. -/
theorem Sound.shadowings_eq_nil (sound : draft.Sound assembly)
    (wellFormed : assembly.WellFormed offered)
    (distinct : ∀ scope, (draft.row scope).keys.Nodup) :
    draft.registries.flatMap draft.shadowings = [] ↔
      ∀ (scope : ScopeId) (data : Scope) (parent : ScopeId) (key : Key) (target : Delegate)
        (hidden : EntryId), assembly.scopes[scope.index]? = some data →
        data.parent = some parent → (draft.row scope).get? key = some target →
        draft.nearest? parent key = some hidden →
        (delegateTo draft.entries hidden).Same target := by
  have pairs (scope : ScopeId) (pair : Key × EntryId)
      (member : pair ∈ (draft.registry scope).registrations) :
      (draft.row scope).get? pair.1 = some (delegateTo draft.entries pair.2) :=
    Row.get?_of_mem (distinct scope) (List.mem_map.mpr ⟨pair, member, rfl⟩)
  rw [List.flatMap_eq_nil_iff]
  constructor
  · intro none_hidden scope data parent key target hidden here above held nearest
    have place := sound.getElem?_registries scope
    rw [here, Option.map_some] at place
    have open_ := none_hidden _ (List.mem_of_getElem? place)
    have upper : (draft.registry scope).parent = some parent := by
      rw [sound.registry_parent, here, Option.bind_some, above]
    simp only [shadowings, upper, List.filterMap_eq_nil_iff] at open_
    obtain ⟨pair, member, rfl, rfl⟩ : ∃ pair ∈ (draft.registry scope).registrations,
        pair.1 = key ∧ delegateTo draft.entries pair.2 = target := by
      obtain ⟨pair, member, same⟩ := List.mem_map.mp (Row.mem_of_get? held)
      exact ⟨pair, member, Prod.mk.inj same⟩
    have fine := open_ pair member
    rw [nearest] at fine
    dsimp only at fine
    split at fine
    · obtain ⟨first, there, -⟩ := sound.of_nearest? nearest
      obtain ⟨second, there', -⟩ := sound.holds_registry scope pair member
      exact (sound.sameProducer_iff wellFormed there there').mp ‹_›
    · cases fine
  · intro same registry member
    obtain ⟨index, place⟩ := List.mem_iff_getElem?.mp member
    have held := sound.getElem?_registries ⟨index⟩
    rw [place] at held
    obtain ⟨data, here, own⟩ := Option.map_eq_some_iff.mp held.symm
    subst own
    unfold shadowings
    have upper := sound.registry_parent ⟨index⟩
    rw [here, Option.bind_some] at upper
    rw [upper]
    cases above : data.parent with
    | none => rfl
    | some parent =>
      refine List.filterMap_eq_nil_iff.mpr fun pair among => ?_
      cases nearest : draft.nearest? parent pair.1 with
      | none => rfl
      | some hidden =>
        obtain ⟨first, there, -⟩ := sound.of_nearest? nearest
        obtain ⟨second, there', -⟩ := sound.holds_registry ⟨index⟩ pair among
        have equal := same ⟨index⟩ data parent pair.1 _ hidden here above
          (pairs ⟨index⟩ pair among) nearest
        exact if_pos ((sound.sameProducer_iff wellFormed there there').mpr equal)

end Draft

end Wiring
