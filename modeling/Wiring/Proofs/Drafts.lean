import Wiring.Proofs.ImportOrder
import Wiring.Proofs.WellFormed
import Wiring.Resolution

/-!
What holds of a draft while an assembly is resolved. Declared entries stay where they are, every
added entry delegates to a provider of its type, and every registration names an entry with its
key. A problem that was recorded stays, so a draft without problems has refused nothing.
-/

namespace Wiring

/-- The entry is visible in a built pool from which a scope imports. -/
def Assembly.Imports (assembly : Assembly) (entry : RuntimeEntry) : Prop :=
  ∃ scope ∈ assembly.scopes, ∃ imported ∈ scope.imports, ∃ pool,
    imported.spec.source = .pool pool ∧ entry ∈ pool.visibleEntries

/-- The delegate leads to a provider of the type: a declared entry, or an imported one. -/
def Delegate.Provides (assembly : Assembly) (type : ServiceType) : Delegate → Prop
  | .entry target =>
    ∃ provider, assembly.entries[target.index]? = some provider ∧ provider.key.type = type
  | .foreign imported => assembly.Imports imported ∧ imported.key.type = type

/-- The entry delegates to a provider of its type, without a description or dependencies of its
own. -/
def Entry.Delegates (assembly : Assembly) (entry : Entry) : Prop :=
  entry.description = none ∧ entry.dependencies = [] ∧
    ∃ target, entry.origin = .delegate target ∧ target.Provides assembly entry.key.type

/-- Every registration names an entry with its key. -/
def Registry.Holds (entries : List Entry) (registry : Registry) : Prop :=
  ∀ pair ∈ registry.registrations, ∃ entry, entries[pair.2.index]? = some entry ∧
    entry.key = pair.1

theorem Registry.Holds.mono {entries entries' : List Entry} {registry : Registry}
    (holds : registry.Holds entries) (grows : entries <+: entries') : registry.Holds entries' := by
  intro pair member
  obtain ⟨entry, found, key⟩ := holds pair member
  exact ⟨entry, getElem?_of_grown grows found, key⟩

theorem Registry.mem_of_get? {registry : Registry} {key : Key} {id : EntryId}
    (found : registry.get? key = some id) : (key, id) ∈ registry.registrations :=
  mem_of_find?_keyed found

theorem Registry.Holds.of_get? {entries : List Entry} {registry : Registry}
    (holds : registry.Holds entries) {key : Key} {id : EntryId}
    (found : registry.get? key = some id) :
    ∃ entry, entries[id.index]? = some entry ∧ entry.key = key :=
  holds _ (Registry.mem_of_get? found)

theorem Registry.Holds.append {entries : List Entry} {registry : Registry} {key : Key}
    {id : EntryId} (holds : registry.Holds entries)
    (named : ∃ entry, entries[id.index]? = some entry ∧ entry.key = key) :
    (registry.append key id).Holds entries := by
  intro pair member
  rcases List.mem_append.mp member with old | new
  · exact holds pair old
  · rw [List.mem_singleton.mp new]
    exact named

/-- A key to which something was added is there. -/
theorem Grouped.length_update_pos {α : Type} (change : List α → List α) (key : Key)
    (groups : Grouped α) : 0 < (Grouped.update change key groups).length := by
  cases groups with
  | nil => simp [Grouped.update]
  | cons group rest =>
    unfold Grouped.update
    split <;> simp

namespace Draft

/-- What holds of every draft of the assembly. -/
structure Sound (assembly : Assembly) (draft : Draft) : Prop where
  entries : ∃ added, draft.entries = assembly.entries ++ added ∧
    ∀ entry ∈ added, entry.Delegates assembly
  places : ∀ index : Nat, (draft.registries[index]?.map fun registry =>
      (registry.scope, registry.parent)) =
    assembly.scopes[index]?.map fun scope => (⟨index⟩, scope.parent)
  held : ∀ registry ∈ draft.registries, registry.Holds draft.entries
  exported : draft.exports.Holds draft.entries

/-- The draft went on from another one: entries and registrations stay, and so do problems. -/
structure Grows (before after : Draft) : Prop where
  accepted : after.diagnostics.isEmpty = true → before.diagnostics.isEmpty = true
  entries : before.entries <+: after.entries
  registered : ∀ scope key id, (before.registry scope).get? key = some id →
    (after.registry scope).get? key = some id

/-- Two drafts agree in all but claims, problems and events. -/
structure Agrees (before after : Draft) : Prop where
  entries : after.entries = before.entries
  registries : after.registries = before.registries
  exports : after.exports = before.exports

/-- A step in the resolution of the assembly. -/
def Evolves (assembly : Assembly) (before after : Draft) : Prop :=
  before.Sound assembly → after.Sound assembly ∧ before.Grows after

variable {assembly : Assembly} {draft : Draft}

theorem Grows.refl (draft : Draft) : draft.Grows draft :=
  ⟨id, List.prefix_rfl, fun _ _ _ => id⟩

theorem Grows.trans {first second third : Draft} (grows : first.Grows second)
    (onward : second.Grows third) : first.Grows third :=
  ⟨fun accepted => grows.accepted (onward.accepted accepted), grows.entries.trans onward.entries,
    fun scope key id known => onward.registered scope key id (grows.registered scope key id known)⟩

theorem Evolves.refl (draft : Draft) : Evolves assembly draft draft :=
  fun sound => ⟨sound, .refl draft⟩

theorem Evolves.trans {first second third : Draft} (evolves : Evolves assembly first second)
    (onward : Evolves assembly second third) : Evolves assembly first third := by
  intro sound
  obtain ⟨middle, grows⟩ := evolves sound
  obtain ⟨last, further⟩ := onward middle
  exact ⟨last, grows.trans further⟩

/-- Steps for a list of items in turn. -/
theorem evolves_foldl {α : Type} (step : Draft → α → Draft) (items : List α)
    (each : ∀ item ∈ items, ∀ draft, Evolves assembly draft (step draft item)) (draft : Draft) :
    Evolves assembly draft (items.foldl step draft) := by
  induction items generalizing draft with
  | nil => exact .refl draft
  | cons item rest ih =>
    exact (each item List.mem_cons_self draft).trans
      (ih (fun other member => each other (List.mem_cons_of_mem _ member)) (step draft item))

/-- Among steps for a list of items, the one for a given item was taken. -/
theorem exists_step_of_foldl {α : Type} (step : Draft → α → Draft) (items : List α)
    (each : ∀ item ∈ items, ∀ draft, Evolves assembly draft (step draft item))
    (sound : draft.Sound assembly) {item : α} (member : item ∈ items) :
    ∃ middle : Draft, middle.Sound assembly ∧ draft.Grows middle ∧
      (step middle item).Grows (items.foldl step draft) := by
  induction items generalizing draft with
  | nil => cases member
  | cons first rest ih =>
    have others := fun other member => each other (List.mem_cons_of_mem first member)
    obtain ⟨next, grows⟩ := each first List.mem_cons_self draft sound
    rcases List.mem_cons.mp member with rfl | member
    · exact ⟨draft, sound, .refl draft, (evolves_foldl step rest others _ next).2⟩
    · obtain ⟨middle, fine, onward, taken⟩ := ih others next member
      exact ⟨middle, fine, grows.trans onward, taken⟩

/-- A step that leaves entries and registries alone. -/
theorem evolves_of_agrees {after : Draft} (agrees : draft.Agrees after)
    (accepted : after.diagnostics.isEmpty = true → draft.diagnostics.isEmpty = true) :
    Evolves assembly draft after := by
  obtain ⟨entries, registries, exports⟩ := agrees
  intro sound
  refine ⟨⟨?_, ?_, ?_, ?_⟩, accepted, ?_, ?_⟩
  · rw [entries]; exact sound.entries
  · rw [registries]; exact sound.places
  · rw [registries, entries]; exact sound.held
  · rw [exports, entries]; exact sound.exported
  · rw [entries]
  · intro scope key id known
    rw [registry, registries]
    exact known

theorem evolves_report (draft : Draft) (event : Event) :
    Evolves assembly draft (draft.report event) :=
  evolves_of_agrees ⟨rfl, rfl, rfl⟩ id

theorem Sound.holds_registry (sound : draft.Sound assembly) (scope : ScopeId) :
    (draft.registry scope).Holds draft.entries := by
  unfold registry
  cases found : draft.registries[scope.index]? with
  | none =>
    intro pair member
    cases member
  | some registry => exact sound.held registry (List.mem_of_getElem? found)

/-- A draft holds a registry for each scope. -/
theorem Sound.length_registries (sound : draft.Sound assembly) :
    draft.registries.length = assembly.scopes.length := by
  have exists_iff (index : Nat) :
      index < draft.registries.length ↔ index < assembly.scopes.length := by
    have same := congrArg Option.isSome (sound.places index)
    rw [Option.isSome_map, Option.isSome_map, Bool.eq_iff_iff] at same
    simpa only [isSome_getElem?, decide_eq_true_eq] using same
  have shorter := exists_iff assembly.scopes.length
  have longer := exists_iff draft.registries.length
  omega

theorem getElem?_push (draft : Draft) (entry : Entry) :
    (draft.push entry).2.entries[(draft.push entry).1.index]? = some entry := by
  simp [push]

/-- A new entry delegates to a provider. -/
theorem evolves_push (draft : Draft) (entry : Entry) (delegates : entry.Delegates assembly) :
    Evolves assembly draft (draft.push entry).2 := by
  intro sound
  have longer : draft.entries <+: draft.entries ++ [entry] := List.prefix_append _ _
  obtain ⟨added, entries, provides⟩ := sound.entries
  refine ⟨⟨⟨added ++ [entry], ?_, ?_⟩, sound.places, ?_, sound.exported.mono longer⟩,
    id, longer, fun _ _ _ => id⟩
  · simp [push, entries]
  · intro other member
    rcases List.mem_append.mp member with old | new
    · exact provides other old
    · rw [List.mem_singleton.mp new]
      exact delegates
  · intro registry member
    exact (sound.held registry member).mono longer

/-- A competition for a key is a problem. -/
theorem recordDuplicate_isEmpty (draft : Draft) (scopes : List Scope) (error : DuplicateProvider) :
    (draft.recordDuplicate scopes error).diagnostics.isEmpty = false := by
  have some_recorded := Grouped.length_update_pos
    (fun entries =>
      [draft.describe scopes error.existing, draft.describe scopes error.rejected].foldl
      (joinNew fun old new => old.id == new.id) entries) error.key
    draft.diagnostics.duplicateProviders
  simp only [recordDuplicate, Diagnostics.recordDuplicateProvider, Diagnostics.isEmpty,
    Diagnostics.length, beq_eq_false_iff_ne]
  omega

theorem evolves_recordDuplicate (draft : Draft) (scopes : List Scope) (error : DuplicateProvider) :
    Evolves assembly draft (draft.recordDuplicate scopes error) :=
  evolves_of_agrees ⟨rfl, rfl, rfl⟩ fun accepted => by
    rw [recordDuplicate_isEmpty] at accepted
    cases accepted

theorem registry_set (draft : Draft) (scope other : ScopeId) (registry : Registry) :
    ({ draft with registries := draft.registries.set scope.index registry }).registry other =
      if scope.index = other.index ∧ scope.index < draft.registries.length then registry
      else draft.registry other := by
  unfold Draft.registry
  rw [List.getElem?_set]
  by_cases same : scope.index = other.index
  · by_cases inside : scope.index < draft.registries.length
    · simp [same, same ▸ inside]
    · simp [same, same ▸ inside]
  · simp [same]

/-- An entry is offered to a scope under its own key. -/
theorem evolves_register (scopes : List Scope) (scope : ScopeId) {key : Key} {id : EntryId}
    (named : ∃ entry, draft.entries[id.index]? = some entry ∧ entry.key = key) :
    Evolves assembly draft (draft.register scopes scope key id) := by
  unfold register Registry.put
  cases free : (draft.registry scope).get? key with
  | some existing => exact evolves_recordDuplicate draft scopes _
  | none =>
    intro sound
    refine ⟨⟨sound.entries, ?_, ?_, sound.exported⟩, fun accepted => accepted,
      List.prefix_rfl, ?_⟩
    · intro index
      rw [List.getElem?_set, ← sound.places index]
      split
      · rename_i same
        subst same
        split
        · rename_i inside
          simp [Draft.registry, Registry.append, inside]
        · rename_i outside
          rw [List.getElem?_eq_none (Nat.le_of_not_lt outside)]
      · rfl
    · intro registry member
      rcases List.mem_or_eq_of_mem_set member with old | rfl
      · exact sound.held registry old
      · exact (sound.holds_registry scope).append named
    · intro other taken known found
      rw [registry_set]
      split
      · rename_i same
        have here : other = scope := by
          cases other
          cases scope
          exact congrArg ScopeId.mk same.1.symm
        rw [Registry.get?_append, ← here, found]
        rfl
      · exact found

/-- A registration that leaves no problem succeeded. -/
theorem get?_register {scopes : List Scope} {scope : ScopeId} {key : Key} {id : EntryId}
    (inside : scope.index < draft.registries.length)
    (accepted : (draft.register scopes scope key id).diagnostics.isEmpty = true) :
    ((draft.register scopes scope key id).registry scope).get? key = some id := by
  unfold register Registry.put at accepted ⊢
  cases free : (draft.registry scope).get? key with
  | some existing =>
    simp only [free, recordDuplicate_isEmpty] at accepted
    cases accepted
  | none =>
    simp only
    rw [registry_set, if_pos ⟨rfl, inside⟩, Registry.get?_append, free]
    simp

/-- An entry is offered to the public under its own key. -/
theorem evolves_publish (scopes : List Scope) {key : Key} {id : EntryId}
    (named : ∃ entry, draft.entries[id.index]? = some entry ∧ entry.key = key) :
    Evolves assembly draft (draft.publish scopes key id) := by
  unfold publish Registry.put
  cases free : draft.exports.get? key with
  | some existing => exact evolves_recordDuplicate draft scopes _
  | none =>
    intro sound
    exact ⟨⟨sound.entries, sound.places, sound.held, sound.exported.append named⟩,
      fun accepted => accepted, List.prefix_rfl, fun _ _ _ known => known⟩

end Draft

end Wiring
