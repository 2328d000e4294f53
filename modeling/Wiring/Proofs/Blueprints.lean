import Wiring.Building
import Wiring.Proofs.Resolving

/-!
What a compilation may rely on: the blueprint of an accepted resolution names a provider of the
right type behind every delegate and every dependency, and nothing needs itself.
-/

namespace Wiring

namespace Entry

/-- An entry is a factory when a factory makes its value. -/
theorem isFactory_iff (entry : Entry) :
    entry.isFactory = true ↔ ∃ factory, entry.origin = .made factory := by
  cases origin : entry.origin <;> simp [isFactory, origin, Origin.kind]

/-- An entry is a delegate when it names what it leads to. -/
theorem isDelegate_iff (entry : Entry) :
    entry.isDelegate = true ↔ ∃ target, entry.origin = .delegate target := by
  cases origin : entry.origin <;> simp [isDelegate, origin, Origin.kind]

end Entry

/-- A declared entry is no delegate. -/
theorem Entry.Proper.isDelegate {entry : Entry} (proper : entry.Proper) :
    entry.isDelegate = false := by
  rw [Bool.eq_false_iff]
  intro delegates
  obtain ⟨target, origin⟩ := entry.isDelegate_iff.mp delegates
  exact proper.ne_delegate target origin

namespace Registry

/-- The registries of a lineage are the first one and others of the list. -/
theorem mem_lineage {registries : List Registry} {length : Nat} {registry other : Registry}
    (member : other ∈ lineage registries length registry) :
    other = registry ∨ other ∈ registries := by
  induction length generalizing registry with
  | zero => exact .inl (List.mem_singleton.mp member)
  | succ length ih =>
    rcases List.mem_cons.mp member with here | above
    · exact .inl here
    · split at above
      · cases above
      · rename_i parent found
        obtain ⟨scope, -, place⟩ := Option.bind_eq_some_iff.mp found
        rcases ih above with here | among
        · exact .inr (here ▸ List.mem_of_getElem? place)
        · exact .inr among

end Registry

/-- The nearest entry under a key has that key. -/
theorem Draft.Sound.of_nearest? {assembly : Assembly} {draft : Draft}
    (sound : draft.Sound assembly) {scope : ScopeId} {key : Key} {id : EntryId}
    (found : draft.nearest? scope key = some id) :
    ∃ entry, draft.entries[id.index]? = some entry ∧ entry.key = key := by
  obtain ⟨registry, member, held⟩ := List.exists_of_findSome?_eq_some found
  rcases Registry.mem_lineage member with rfl | among
  · exact (sound.holds_registry scope).of_get? held
  · exact (sound.held registry among).of_get? held

namespace Blueprint

/-- What an entry needs compiled before it: the target of a delegate, or the providers of the
dependencies of a factory. -/
inductive Needs (blueprint : Blueprint) (index : Nat) : Nat → Prop
  | target {entry : Entry} {target : EntryId} (found : blueprint.entries[index]? = some entry)
      (origin : entry.origin = .delegate (.entry target)) : Needs blueprint index target.index
  | link {entry : Entry} {factory : Factory} {link : Key × EntryId}
      (found : blueprint.entries[index]? = some entry) (origin : entry.origin = .made factory)
      (member : link ∈ blueprint.linked ⟨index⟩ entry) : Needs blueprint index link.2.index

/-- What a compilation may rely on. -/
structure Sound (assembly : Assembly) (blueprint : Blueprint) : Prop where
  given : ∀ {index : Nat} {entry : Entry} {handle : Instance},
    blueprint.entries[index]? = some entry → entry.origin = .given handle →
      handle.type = entry.key.type
  delegated : ∀ {index : Nat} {entry : Entry} {target : EntryId},
    blueprint.entries[index]? = some entry → entry.origin = .delegate (.entry target) →
      ∃ provider, blueprint.entries[target.index]? = some provider ∧
        provider.key.type = entry.key.type ∧ provider.isDelegate = false
  foreign : ∀ {index : Nat} {entry : Entry} {imported : RuntimeEntry},
    blueprint.entries[index]? = some entry → entry.origin = .delegate (.foreign imported) →
      assembly.Imports imported ∧ imported.key.type = entry.key.type
  keys : ∀ {index : Nat} {entry : Entry} {factory : Factory},
    blueprint.entries[index]? = some entry → entry.origin = .made factory →
      (blueprint.linked ⟨index⟩ entry).map Prod.fst = entry.dependencies
  linked : ∀ {index : Nat} {entry : Entry} {factory : Factory},
    blueprint.entries[index]? = some entry → entry.origin = .made factory →
      ∀ link ∈ blueprint.linked ⟨index⟩ entry, ∃ provider,
        blueprint.entries[link.2.index]? = some provider ∧ provider.key = link.1

/-- Every need goes down in rank, and the ranks are below the number of entries. -/
structure Ranked (blueprint : Blueprint) (rank : Nat → Nat) : Prop where
  bounded : ∀ index < blueprint.entries.length, rank index < blueprint.entries.length
  needs : ∀ index next, blueprint.Needs index next →
    next < blueprint.entries.length ∧ rank next < rank index

variable {assembly : Assembly} {blueprint : Blueprint}

/-- The needs of a sound blueprint are among its entries. -/
theorem Sound.needs_inside (sound : blueprint.Sound assembly) {index next : Nat}
    (needs : blueprint.Needs index next) : next < blueprint.entries.length := by
  cases needs with
  | target found origin =>
    obtain ⟨provider, place, -, -⟩ := sound.delegated found origin
    exact (List.getElem?_eq_some_iff.mp place).1
  | link found origin member =>
    obtain ⟨provider, place, -⟩ := sound.linked found origin _ member
    exact (List.getElem?_eq_some_iff.mp place).1

/-- An entry needs nothing for ever when that holds of the factory behind it, if there is one. -/
theorem Sound.acc_of_producer (sound : blueprint.Sound assembly) (id : EntryId) {entry : Entry}
    (found : blueprint.entries[id.index]? = some entry)
    (behind : ∀ provider,
      blueprint.entries[(producer blueprint.entries id).index]? = some provider →
      provider.isFactory = true →
      Acc (fun next node => blueprint.Needs node next) (producer blueprint.entries id).index) :
    Acc (fun next node => blueprint.Needs node next) id.index := by
  -- An entry without a need of its own needs nothing for ever.
  have plain {index : Nat} {entry : Entry} (found : blueprint.entries[index]? = some entry)
      (factory : entry.isFactory = false)
      (target : ∀ target, entry.origin ≠ .delegate (.entry target)) :
      Acc (fun next node => blueprint.Needs node next) index := by
    refine .intro index fun next needs => ?_
    cases needs with
    | target known origin =>
      obtain rfl := Option.some.inj (found.symm.trans known)
      exact absurd origin (target _)
    | link known origin _ =>
      obtain rfl := Option.some.inj (found.symm.trans known)
      simp [Entry.isFactory, origin, Origin.kind] at factory
  cases origin : entry.origin with
  | given handle =>
    exact plain found (by simp [Entry.isFactory, origin, Origin.kind]) (by simp [origin])
  | made factory =>
    have self : producer blueprint.entries id = id := by simp [producer, found, origin]
    rw [self] at behind
    exact behind entry found (entry.isFactory_iff.mpr ⟨factory, origin⟩)
  | delegate target =>
    cases target with
    | foreign imported =>
      exact plain found (by simp [Entry.isFactory, origin, Origin.kind]) (by simp [origin])
    | entry target =>
      have through : producer blueprint.entries id = target := by simp [producer, found, origin]
      rw [through] at behind
      refine .intro id.index fun next needs => ?_
      cases needs with
      | link known made _ =>
        obtain rfl := Option.some.inj (found.symm.trans known)
        simp [origin] at made
      | target known other =>
        obtain rfl := Option.some.inj (found.symm.trans known)
        obtain ⟨rfl⟩ : target = _ := by simpa [origin] using other
        obtain ⟨provider, place, -, direct⟩ := sound.delegated found origin
        cases makes : provider.isFactory with
        | true => exact behind provider place makes
        | false =>
          apply plain place makes
          intro target delegate
          rw [provider.isDelegate_iff.mpr ⟨_, delegate⟩] at direct
          cases direct

/-- When no circle of factories is found, everything that is needed can be ranked. -/
theorem Sound.exists_rank (sound : blueprint.Sound assembly)
    (acyclic : findCycles blueprint.entries.length
      (Draft.factoriesBehind blueprint.entries blueprint.links) = []) :
    ∃ rank, blueprint.Ranked rank := by
  have contained : Contained blueprint.entries.length
      (Draft.factoriesBehind blueprint.entries blueprint.links) := by
    intro node _ next member
    obtain ⟨id, -, chosen⟩ := List.mem_filterMap.mp member
    split at chosen
    · rename_i factory
      obtain rfl := Option.some.inj chosen
      cases place : blueprint.entries[id.index]? with
      | none => simp [place] at factory
      | some provider => exact (List.getElem?_eq_some_iff.mp place).1
    · cases chosen
  have factories : ∀ index, ∀ entry, blueprint.entries[index]? = some entry →
      entry.isFactory = true → Acc (fun next node => blueprint.Needs node next) index := by
    intro index entry found makes
    have ends := acc_of_findCycles contained acyclic (List.getElem?_eq_some_iff.mp found).1
    induction ends generalizing entry with
    | intro index _ ih =>
      refine .intro index fun next needs => ?_
      cases needs with
      | target known origin =>
        obtain rfl := Option.some.inj (found.symm.trans known)
        obtain ⟨factory, made⟩ := entry.isFactory_iff.mp makes
        rw [origin] at made
        cases made
      | link known origin member =>
        rename_i maker factory link
        obtain ⟨provider, place, -⟩ := sound.linked known origin _ member
        apply sound.acc_of_producer link.2 place
        intro behind here makes
        refine ih _ ?_ behind here makes
        refine List.mem_filterMap.mpr ⟨producer blueprint.entries link.2, ?_, ?_⟩
        · exact List.mem_map.mpr ⟨link.2, (List.of_mem_zip member).2, rfl⟩
        · simp [here, makes]
  have ends : ∀ node < blueprint.entries.length,
      Acc (fun next node => blueprint.Needs node next) node := by
    intro node inside
    exact sound.acc_of_producer ⟨node⟩ (List.getElem?_eq_getElem inside)
      fun behind here makes => factories _ behind here makes
  obtain ⟨rank, ranks⟩ :=
    Wiring.exists_rank (fun node _ next needs => sound.needs_inside needs) ends
  refine ⟨rank, fun index inside => (ranks index inside).1, fun index next needs => ?_⟩
  have inside : index < blueprint.entries.length := by
    cases needs with
    | target found _ => exact (List.getElem?_eq_some_iff.mp found).1
    | link found _ _ => exact (List.getElem?_eq_some_iff.mp found).1
  exact ⟨sound.needs_inside needs, (ranks index inside).2 next needs⟩

end Blueprint

namespace Assembly

variable {offered : Pool → Prop} {assembly : Assembly}

theorem blueprint_entries (assembly : Assembly) :
    (assembly.blueprint assembly.survey).entries = assembly.exportedDraft.entries :=
  assembly.survey_entries

/-- A declared entry stands in the blueprint of its assembly. -/
theorem blueprint_found (wellFormed : assembly.WellFormed offered) {index : Nat} {entry : Entry}
    (declared : assembly.entries[index]? = some entry) :
    (assembly.blueprint assembly.survey).entries[index]? = some entry := by
  rw [blueprint_entries]
  exact (exportedDraft_sound wellFormed).declared declared

/-- A factory of a resolution is one that was declared. -/
theorem declared_of_made (wellFormed : assembly.WellFormed offered) {id : EntryId} {entry : Entry}
    {factory : Factory}
    (found : (assembly.blueprint assembly.survey).entries[id.index]? = some entry)
    (origin : entry.origin = .made factory) : assembly.entries[id.index]? = some entry := by
  rw [blueprint_entries] at found
  exact (exportedDraft_sound wellFormed).declared_of_isFactory found
    (entry.isFactory_iff.mpr ⟨factory, origin⟩)

/-- The entries of an accepted resolution rest on declared and imported providers. -/
theorem blueprint_sound (wellFormed : assembly.WellFormed offered)
    (accepted : assembly.survey.accepted = true) :
    (assembly.blueprint assembly.survey).Sound assembly := by
  have sound := exportedDraft_sound wellFormed
  have entries := assembly.blueprint_entries
  have linked {index : Nat} {entry : Entry} {factory : Factory}
      (found : assembly.exportedDraft.entries[index]? = some entry)
      (origin : entry.origin = .made factory) :
      List.Forall₂ (fun key id => assembly.exportedDraft.nearest? entry.scope key = some id)
        entry.dependencies (assembly.exportedDraft.links.getD index []) :=
    links_exportedDraft accepted found (entry.isFactory_iff.mpr ⟨factory, origin⟩)
  refine ⟨?_, ?_, ?_, ?_, ?_⟩
  · intro index entry handle found origin
    rw [entries] at found
    rcases sound.entry_cases found with declared | ⟨-, -, target, delegate, -⟩
    · have proper := wellFormed.entries index entry declared
      rw [Entry.Proper, origin] at proper
      exact proper.1
    · simp [origin] at delegate
  · intro index entry target found origin
    rw [entries] at found ⊢
    rcases sound.entry_cases found with declared | ⟨-, -, other, delegate, provides⟩
    · exact absurd origin ((wellFormed.entries index entry declared).ne_delegate _)
    · obtain rfl : Delegate.entry target = other := by simpa [origin] using delegate
      obtain ⟨provider, declared, type⟩ := provides
      exact ⟨provider, sound.declared declared, type, (wellFormed.entries _ _ declared).isDelegate⟩
  · intro index entry imported found origin
    rw [entries] at found
    rcases sound.entry_cases found with declared | ⟨-, -, other, delegate, provides⟩
    · exact absurd origin ((wellFormed.entries index entry declared).ne_delegate _)
    · obtain rfl : Delegate.foreign imported = other := by simpa [origin] using delegate
      exact provides
  · intro index entry factory found origin
    rw [entries] at found
    exact List.map_fst_zip (linked found origin).length_eq.le
  · intro index entry factory found origin link member
    rw [entries] at found ⊢
    obtain ⟨-, nearest⟩ := List.forall₂_iff_zip.mp (linked found origin)
    exact sound.of_nearest? (nearest member)

/-- The entries of an accepted resolution can be ranked. -/
theorem blueprint_ranked (wellFormed : assembly.WellFormed offered)
    (accepted : assembly.survey.accepted = true) :
    ∃ rank, (assembly.blueprint assembly.survey).Ranked rank := by
  apply (blueprint_sound wellFormed accepted).exists_rank
  have acyclic := (assembly.survey_accepted_iff.mp accepted).2.2.1
  unfold Draft.dependencyCycles at acyclic
  rw [blueprint_entries]
  exact List.map_eq_nil_iff.mp acyclic

end Assembly

end Wiring
