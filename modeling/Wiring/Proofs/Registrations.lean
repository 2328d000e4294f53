import Wiring.Proofs.Filings
import Wiring.Proofs.Identity
import Wiring.Proofs.Outward
import Wiring.Stock

/-!
Nothing is lost in a resolution, and nothing is registered twice. Each entry of an accepted
resolution is registered once, under its own key: in the registry of its scope, or in public when
the root scope exported it. So every declared provider is compiled and is found under its key.
-/

namespace Wiring

namespace Draft

variable {offered : Pool → Prop} {assembly : Assembly} {receiver : ScopeId → Option ScopeId}
  {draft before after : Draft} {enrolled : List (EntryId × Entry)} {made : List Entry}

/-- From the first draft to the second one the entries were made. Unless a problem was recorded,
they and the declared entries that were offered are registered, each once and where it belongs. -/
structure Settles (assembly : Assembly) (receiver : ScopeId → Option ScopeId) (before : Draft)
    (enrolled : List (EntryId × Entry)) (made : List Entry) (after : Draft) : Prop where
  entries : after.entries = before.entries ++ made
  outside : ∀ entry ∈ made, receiver entry.scope = none → entry.scope = .root
  accepted : after.diagnostics.isEmpty = true → before.diagnostics.isEmpty = true
  filings : after.diagnostics.isEmpty = true → after.filings.Perm (before.filings ++
    (enrolled.map (filed some) ++ (numbered made before.entries.length).map (filed receiver)))

/-- Claims, problems and events leave the registrations. -/
theorem settles_of_agrees (agrees : before.Agrees after)
    (accepted : after.diagnostics.isEmpty = true → before.diagnostics.isEmpty = true) :
    Settles assembly receiver before [] [] after where
  entries := by rw [agrees.entries, List.append_nil]
  outside _ member := absurd member List.not_mem_nil
  accepted := accepted
  filings _ := by
    unfold Draft.filings
    rw [agrees.registries, agrees.exports]
    simp [numbered]

theorem Settles.trans {last : Draft} {more : List (EntryId × Entry)} {rest : List Entry}
    (settles : Settles assembly receiver before enrolled made after)
    (onward : Settles assembly receiver after more rest last) :
    Settles assembly receiver before (enrolled ++ more) (made ++ rest) last where
  entries := by rw [onward.entries, settles.entries, List.append_assoc]
  outside entry member :=
    (List.mem_append.mp member).elim (settles.outside entry) (onward.outside entry)
  accepted clean := settles.accepted (onward.accepted clean)
  filings clean := by
    have first := settles.filings (onward.accepted clean)
    have second := onward.filings clean
    rw [settles.entries, List.length_append] at second
    rw [numbered_append, List.map_append, List.map_append]
    refine second.trans ((first.append_right _).trans ?_)
    -- What was made first and what was offered afterwards change places.
    simp only [List.append_assoc]
    refine .append_left _ (.append_left _ ?_)
    rw [← List.append_assoc, ← List.append_assoc]
    exact List.perm_append_comm.append_right _

/-- A registration that leaves no problem is one registration more. -/
theorem Sound.filings_register (sound : draft.Sound assembly) {scope : ScopeId}
    (inside : scope.index < assembly.scopes.length) (key : Key) (id : EntryId)
    (clean : (draft.register assembly.scopes scope key id).diagnostics.isEmpty = true) :
    (draft.register assembly.scopes scope key id).filings.Perm
      (draft.filings ++ [(some scope, key, id)]) := by
  unfold register Registry.put at clean ⊢
  cases free : (draft.registry scope).get? key with
  | some existing =>
    simp only [free, recordDuplicate_isEmpty] at clean
    cases clean
  | none =>
    obtain ⟨registry, here⟩ : ∃ registry, draft.registries[scope.index]? = some registry :=
      ⟨_, List.getElem?_eq_getElem (by rwa [sound.length_registries])⟩
    have place := sound.places scope.index
    rw [here, List.getElem?_eq_getElem inside, Option.map_some, Option.map_some] at place
    have own : registry.scope = scope := (Prod.mk.inj (Option.some.inj place)).1
    have held : draft.registry scope = registry := by rw [Draft.registry, here, Option.getD_some]
    rw [held]
    have longer : (registry.append key id).filings (some (registry.append key id).scope) =
        registry.filings (some registry.scope) ++ [(some scope, key, id)] := by
      have same : (registry.append key id).scope = scope := own
      rw [Registry.filings_append, same, own]
    have grown := perm_flatMap_set
      (fun registry : Registry => registry.filings (some registry.scope)) here longer
    refine (grown.append_right _).trans ?_
    unfold Draft.filings Wiring.filings
    rw [List.append_assoc, List.append_assoc]
    exact List.perm_append_comm.append_left _

theorem filings_publish (scopes : List Scope) (key : Key) (id : EntryId)
    (clean : (draft.publish scopes key id).diagnostics.isEmpty = true) :
    (draft.publish scopes key id).filings = draft.filings ++ [(none, key, id)] := by
  unfold publish Registry.put at clean ⊢
  cases free : draft.exports.get? key with
  | some existing =>
    simp only [free, recordDuplicate_isEmpty] at clean
    cases clean
  | none =>
    unfold Draft.filings Wiring.filings
    rw [Registry.filings_append, List.append_assoc]

theorem entries_register (draft : Draft) (scopes : List Scope) (scope : ScopeId) (key : Key)
    (id : EntryId) : (draft.register scopes scope key id).entries = draft.entries := by
  unfold register
  split <;> rfl

theorem entries_publish (draft : Draft) (scopes : List Scope) (key : Key) (id : EntryId) :
    (draft.publish scopes key id).entries = draft.entries := by
  unfold publish
  split <;> rfl

theorem Changes.settles (changes : Changes assembly receiver before enrolled after)
    (wellFormed : assembly.WellFormed offered) (sound : before.Sound assembly) :
    ∃ made, Settles assembly receiver before enrolled made after := by
  have accepted := (changes.evolves sound).2.accepted
  cases changes with
  | @enroll item declared =>
    obtain ⟨scope, here, -⟩ := wellFormed.placed _ _ declared
    refine ⟨[], ?_, fun _ member => absurd member List.not_mem_nil, accepted, fun clean => ?_⟩
    · rw [entries_register, List.append_nil]
    · exact sound.filings_register (List.getElem?_eq_some_iff.mp here).1 item.2.key item.1 clean
  | @add entry home inside delegates =>
    refine ⟨[entry], entries_register _ _ _ _ _, fun other member outside => ?_, accepted,
      fun clean => ?_⟩
    · rw [List.mem_singleton.mp member, home] at outside
      cases outside
    · have pushed := (evolves_push before entry delegates sound).1
      have files := pushed.filings_register inside entry.key (before.push entry).1 clean
      rw [← home] at files
      exact files
  | @publish entry outside root delegates =>
    refine ⟨[entry], entries_publish _ _ _ _, fun other member _ => ?_, accepted, fun clean => ?_⟩
    · rw [List.mem_singleton.mp member, root]
    · have files := filings_publish assembly.scopes entry.key (before.push entry).1 clean
      rw [files, ← outside]
      exact .refl _
  | claim claim descriptor inside => exact ⟨[], settles_of_agrees ⟨rfl, rfl, rfl⟩ id⟩
  | record events kept => exact ⟨[], settles_of_agrees ⟨rfl, rfl, rfl⟩ kept⟩

theorem Runs.settles (runs : Runs assembly receiver before enrolled after)
    (wellFormed : assembly.WellFormed offered) (sound : before.Sound assembly) :
    ∃ made, Settles assembly receiver before enrolled made after := by
  induction runs with
  | refl => exact ⟨[], settles_of_agrees ⟨rfl, rfl, rfl⟩ id⟩
  | tail runs changes ih =>
    obtain ⟨made, settles⟩ := ih
    obtain ⟨more, onward⟩ := changes.settles wellFormed (runs.evolves sound).1
    exact ⟨made ++ more, settles.trans onward⟩

end Draft

theorem exists_exportOrder (scopes : List Scope) (depth : Nat) (scope : ScopeId) :
    ∃ before, exportOrder scopes depth scope = before ++ [scope] := by
  cases depth with
  | zero => exact ⟨[], rfl⟩
  | succ depth => exact ⟨_, rfl⟩

theorem nodup_numbered (entries : List Entry) (first : Nat) :
    ((numbered entries first).map Prod.fst).Nodup := by
  have positions : (numbered entries first).map Prod.fst =
      (List.range' first entries.length).map EntryId.mk := by
    unfold numbered
    rw [List.map_map, ← List.zipIdx_map_snd first entries, List.map_map]
    rfl
  rw [positions]
  exact List.Nodup.map (fun _ _ => EntryId.mk.inj) List.nodup_range'

namespace Assembly

variable {offered : Pool → Prop} {assembly : Assembly}

/-- The draft when all scopes but the root have exported. -/
def innerDraft (assembly : Assembly) : Draft :=
  assembly.exportEach assembly.populatedDraft assembly.turns.dropLast

/-- Where an entry of the resolution belongs: to its scope, or to the public when the root scope
exported it, which it does after all others. -/
def receiverOf (assembly : Assembly) (item : EntryId × Entry) : Option ScopeId :=
  if item.1.index < assembly.innerDraft.entries.length then some item.2.scope else none

/-- The root exports last. -/
theorem exportedDraft_eq (assembly : Assembly) :
    assembly.exportedDraft = assembly.innerDraft.exportFrom assembly.scopes .root := by
  obtain ⟨before, order⟩ :=
    exists_exportOrder assembly.scopes assembly.scopes.length .root
  unfold innerDraft exportedDraft turns
  rw [order, List.dropLast_concat, List.foldl_append]
  rfl

/-- Together the scopes declare every entry once. -/
theorem perm_providers (wellFormed : assembly.WellFormed offered) {order : List Nat}
    (once : order.Nodup) (all : ∀ index, index ∈ order ↔ index < assembly.scopes.length) :
    (order.flatMap fun index => assembly.providers ⟨index⟩).Perm (numbered assembly.entries 0) := by
  have distinct : (numbered assembly.entries 0).Nodup := (nodup_numbered _ _).of_map _
  refine (List.perm_ext_iff_of_nodup ?_ distinct).mpr fun item => ?_
  · refine List.nodup_flatMap.mpr ⟨fun index _ => distinct.filter _, once.imp ?_⟩
    intro first second different item member other
    have home := (mem_providers.mp member).2
    rw [(mem_providers.mp other).2] at home
    exact different (ScopeId.mk.inj home).symm
  · rw [List.mem_flatMap, mem_numbered]
    constructor
    · rintro ⟨index, -, member⟩
      exact (mem_providers.mp member).1
    · intro found
      obtain ⟨scope, here, -⟩ := wellFormed.placed _ _ found
      exact ⟨item.2.scope.index, (all _).mpr (List.getElem?_eq_some_iff.mp here).1,
        mem_providers.mpr ⟨found, rfl⟩⟩

theorem orderedDraft_filings (assembly : Assembly) : assembly.orderedDraft.filings = [] := by
  refine List.append_eq_nil_iff.mpr ⟨List.flatMap_eq_nil_iff.mpr fun registry member => ?_, rfl⟩
  obtain ⟨pair, -, rfl⟩ := List.mem_map.mp member
  rfl

/-- A scope that exports before the root has a parent. -/
theorem Ordered.exists_parent (ordered : assembly.Ordered)
    (wellFormed : assembly.WellFormed offered) {scope : ScopeId}
    (member : scope ∈ assembly.turns.dropLast) :
    ∃ data parent, assembly.scopes[scope.index]? = some data ∧ data.parent = some parent := by
  obtain ⟨before, order⟩ := exists_exportOrder assembly.scopes assembly.scopes.length .root
  have once := ordered.nodup_turns wellFormed
  have turn := List.mem_of_mem_dropLast member
  have inside := (ordered.mem_exportOrder wellFormed).mp turn
  obtain ⟨data, here⟩ : ∃ data, assembly.scopes[scope.index]? = some data :=
    ⟨_, List.getElem?_eq_getElem inside⟩
  cases above : data.parent with
  | some parent => exact ⟨data, parent, here, above⟩
  | none =>
    have root : scope = .root := congrArg ScopeId.mk (wellFormed.tree.root _ _ here above)
    rw [turns, order] at once member
    rw [List.dropLast_concat, root] at member
    exact absurd (List.mem_singleton.mpr rfl) (List.disjoint_of_nodup_append once member)

theorem Ordered.exists_root (ordered : assembly.Ordered)
    (wellFormed : assembly.WellFormed offered) :
    ∃ root, assembly.scopes[ScopeId.root.index]? = some root ∧ root.parent = none := by
  obtain ⟨root, here⟩ : ∃ root, assembly.scopes[ScopeId.root.index]? = some root :=
    ⟨_, List.getElem?_eq_getElem ordered.root⟩
  refine ⟨root, here, ?_⟩
  cases above : root.parent with
  | none => rfl
  | some parent => exact absurd (wellFormed.parents 0 _ here parent above) (Nat.not_lt_zero _)

/-- When all scopes but the root have exported, every entry is registered once in its scope. -/
theorem Ordered.filings_innerDraft (ordered : assembly.Ordered)
    (wellFormed : assembly.WellFormed offered) (acyclic : importCycles assembly.scopes = [])
    (clean : assembly.innerDraft.diagnostics.isEmpty = true) :
    assembly.innerDraft.filings.Perm
      ((numbered assembly.innerDraft.entries 0).map (filed some)) := by
  obtain ⟨order, orders, first, all⟩ := sourcesFirst_importOrder wellFormed.contained acyclic
  have fills : Draft.Runs assembly some assembly.orderedDraft
      ((importOrder assembly.scopes).flatMap assembly.providers) assembly.populatedDraft := by
    refine (orderedDraft_sound assembly).runs_foldl fun scope member middle fine _ => ?_
    rw [orders] at member
    obtain ⟨index, listed, rfl⟩ := List.mem_map.mp member
    exact fine.runs_populate wellFormed ordered rfl ((all index).mp listed)
  have populated := (populatedDraft_evolves wellFormed (orderedDraft_sound assembly)).1
  have exports : Draft.Runs assembly some assembly.populatedDraft [] assembly.innerDraft := by
    refine populated.runs_foldl_nil fun scope member middle fine _ => ?_
    obtain ⟨data, parent, here, above⟩ := ordered.exists_parent wellFormed member
    exact fine.runs_exportFrom wellFormed here (by rw [above]; rfl)
  obtain ⟨made, settles⟩ := (fills.trans exports).settles wellFormed (orderedDraft_sound assembly)
  have entries : assembly.innerDraft.entries = assembly.entries ++ made := settles.entries
  have files := settles.filings clean
  have declared : assembly.orderedDraft.entries = assembly.entries := rfl
  have enrolled : ((importOrder assembly.scopes).flatMap assembly.providers ++ []).Perm
      (numbered assembly.entries 0) := by
    rw [orders, List.append_nil, List.flatMap_map]
    exact perm_providers wellFormed first.nodup.1 all
  rw [orderedDraft_filings, List.nil_append, declared] at files
  rw [entries, numbered_append, List.map_append, Nat.zero_add]
  exact files.trans ((enrolled.map _).append_right _)

/-- The exports of the root are public, each once. -/
theorem Ordered.filings_exportedDraft (ordered : assembly.Ordered)
    (wellFormed : assembly.WellFormed offered) (acyclic : importCycles assembly.scopes = [])
    (clean : assembly.exportedDraft.diagnostics.isEmpty = true) :
    ∃ shown, assembly.exportedDraft.entries = assembly.innerDraft.entries ++ shown ∧
      (∀ entry ∈ shown, entry.scope = .root) ∧
      assembly.exportedDraft.filings.Perm
        ((numbered assembly.innerDraft.entries 0).map (filed some) ++
          (numbered shown assembly.innerDraft.entries.length).map (filed fun _ => none)) := by
  have populated := (populatedDraft_evolves wellFormed (orderedDraft_sound assembly)).1
  have sound : assembly.innerDraft.Sound assembly :=
    (Draft.sound_exportEach populated wellFormed _).1
  obtain ⟨root, here, above⟩ := ordered.exists_root wellFormed
  have runs : Draft.Runs assembly (fun _ => none) assembly.innerDraft [] _ :=
    sound.runs_exportFrom wellFormed here above.symm
  obtain ⟨shown, settles⟩ := runs.settles wellFormed sound
  rw [← exportedDraft_eq] at settles
  refine ⟨shown, settles.entries, fun entry member => settles.outside entry member rfl, ?_⟩
  have inner := ordered.filings_innerDraft wellFormed acyclic (settles.accepted clean)
  exact (settles.filings clean).trans (inner.append_right _)

/-- All registrations together are the entries, each once and where it belongs. -/
theorem Ordered.perm_filings (ordered : assembly.Ordered)
    (wellFormed : assembly.WellFormed offered) (acyclic : importCycles assembly.scopes = [])
    (clean : assembly.exportedDraft.diagnostics.isEmpty = true) :
    assembly.exportedDraft.filings.Perm
      ((numbered assembly.exportedDraft.entries 0).map fun item =>
        (assembly.receiverOf item, item.2.key, item.1)) := by
  obtain ⟨shown, entries, -, files⟩ := ordered.filings_exportedDraft wellFormed acyclic clean
  rw [entries, numbered_append, List.map_append, Nat.zero_add]
  refine files.trans (.of_eq (congrArg₂ _ ?_ ?_))
  · refine List.map_congr_left fun item member => ?_
    have inside := (List.getElem?_eq_some_iff.mp (mem_numbered.mp member)).1
    rw [receiverOf, if_pos inside]
    rfl
  · refine List.map_congr_left fun item member => ?_
    obtain ⟨pair, listed, rfl⟩ := List.mem_map.mp member
    rw [receiverOf, if_neg (Nat.not_lt_of_le (List.le_snd_of_mem_zipIdx listed))]
    rfl

end Assembly

/-- Of the numbered entries one has a given number. -/
theorem filter_numbered {entries : List Entry} {id : EntryId} {entry : Entry}
    (found : entries[id.index]? = some entry) :
    (numbered entries 0).filter (fun item => item.1 = id) = [(id, entry)] := by
  have distinct : (numbered entries 0).Nodup := (nodup_numbered entries 0).of_map _
  refine List.perm_singleton.mp ((List.perm_ext_iff_of_nodup (distinct.filter _)
    (List.nodup_singleton _)).mpr fun item => ?_)
  rw [List.mem_filter, mem_numbered, List.mem_singleton, decide_eq_true_eq]
  constructor
  · rintro ⟨here, rfl⟩
    exact Prod.ext rfl (Option.some.inj (here.symm.trans found))
  · rintro rfl
    exact ⟨found, rfl⟩

/-- All registrations of a resolution. -/
def Resolution.filings (resolution : Resolution) : List Filing :=
  Wiring.filings resolution.registries resolution.exports

namespace Assembly

variable {offered : Pool → Prop} {assembly : Assembly}

/-- Declared entries keep their numbers, and they are not public. -/
theorem receiverOf_declared (wellFormed : assembly.WellFormed offered) {id : EntryId}
    {entry : Entry} (declared : assembly.entries[id.index]? = some entry) :
    assembly.receiverOf (id, entry) = some entry.scope := by
  have populated := (populatedDraft_evolves wellFormed (orderedDraft_sound assembly)).1
  have sound : assembly.innerDraft.Sound assembly :=
    (Draft.sound_exportEach populated wellFormed _).1
  exact if_pos (List.getElem?_eq_some_iff.mp (sound.declared declared)).1

/-- A public entry is a delegate of the root scope. -/
theorem Ordered.of_receiverOf (ordered : assembly.Ordered)
    (wellFormed : assembly.WellFormed offered) (acyclic : importCycles assembly.scopes = [])
    (clean : assembly.exportedDraft.diagnostics.isEmpty = true) {id : EntryId} {entry : Entry}
    (found : assembly.exportedDraft.entries[id.index]? = some entry)
    (shown : assembly.receiverOf (id, entry) = none) :
    entry.scope = .root ∧ entry.isDelegate = true := by
  have late : ¬ id.index < assembly.innerDraft.entries.length := by
    intro early
    rw [receiverOf, if_pos early] at shown
    cases shown
  constructor
  · obtain ⟨more, entries, root, -⟩ := ordered.filings_exportedDraft wellFormed acyclic clean
    rw [entries, List.getElem?_append_right (Nat.le_of_not_lt late)] at found
    exact root entry (List.mem_of_getElem? found)
  · rcases (exportedDraft_sound wellFormed).entry_cases found with
      declared | ⟨-, -, target, origin, -⟩
    · rw [receiverOf_declared wellFormed declared] at shown
      cases shown
    · exact entry.isDelegate_iff.mpr ⟨target, origin⟩

/-- A declared entry is compiled, and the pool of its scope finds it under its key. -/
theorem Compiles.finds_declared {applications : List Application} {memory : Memory}
    {application : Application} {state : Memory × Compiled}
    (compiles : assembly.Compiles applications memory application state)
    (describes : assembly.Describes application) (wellFormed : assembly.WellFormed offered)
    {id : EntryId} {entry : Entry} (declared : assembly.entries[id.index]? = some entry) :
    ∃ pool own, application.poolFor? (some entry.scope) = some pool ∧
      pool.layer.find? entry.key = some own ∧ pool.find? entry.key = some own ∧
      application.Traces assembly own (.entry id) := by
  obtain ⟨pool, other, place, -, -⟩ := compiles.exists_own wellFormed declared
  have home : application.poolFor? (some entry.scope) = some pool := place
  obtain ⟨registry, held, renders⟩ := compiles.renders describes home
  have registered := get?_exportedDraft wellFormed compiles.accepted declared
  rw [registry_exportedDraft held] at registered
  obtain ⟨own, listed, known, described⟩ := renders.exists_find? registered
  have traces := compiles.traces_delegateTo wellFormed held (Registry.mem_of_get? registered) known
    described
  rw [survey_entries, (exportedDraft_sound wellFormed).delegateTo_declared wellFormed declared]
    at traces
  refine ⟨pool, own, place, listed, ?_, traces⟩
  rw [Pool.find?, Pool.layers, List.findSome?_cons, listed]

end Assembly

namespace Host

variable {host : Host} {assembly : Assembly}

/-- Entries are registered once. Each entry of a resolution that was given, whether it was declared,
imported or exported, occurs once among all registrations, under its own key: in the registry of its
scope, or in public when it is an entry that the root scope exported, after all others had exported.
No registration names anything else. So in an application that was built every declared provider is
found in the pool of its scope under the key for which it was declared. -/
theorem Reachable.registers_once (reachable : host.Reachable)
    (current : host.assembly = some assembly) {resolution : Resolution}
    (resolved : assembly.resolve = .ok resolution) :
    (∀ (index : Nat) (registry : Registry), resolution.registries[index]? = some registry →
        registry.scope = ⟨index⟩) ∧
      (∀ (id : EntryId) (entry : Entry), resolution.entries[id.index]? = some entry →
        resolution.filings.filter (fun filing => filing.2.2 = id) =
          [(assembly.receiverOf (id, entry), entry.key, id)]) ∧
      (∀ filing ∈ resolution.filings, filing.2.2.index < resolution.entries.length) ∧
      (∀ (id : EntryId) (entry : Entry), assembly.entries[id.index]? = some entry →
        resolution.entries[id.index]? = some entry ∧
          assembly.receiverOf (id, entry) = some entry.scope) ∧
      (resolution.entries = (assembly.innerDraft.exportFrom assembly.scopes .root).entries ∧
        ∀ (id : EntryId) (entry : Entry), resolution.entries[id.index]? = some entry →
          assembly.receiverOf (id, entry) = none →
          entry.scope = .root ∧ entry.isDelegate = true) ∧
      ∀ (number : Nat) (application : Application),
        host.build.1 = some (.application number application) →
        ∀ (id : EntryId) (entry : Entry), assembly.entries[id.index]? = some entry →
          ∃ pool own, application.poolFor? (some entry.scope) = some pool ∧
            pool.layer.find? entry.key = some own ∧ pool.find? entry.key = some own ∧
            application.Traces assembly own (.entry id) := by
  have wellFormed := reachable.sound.wellFormed assembly current
  have ordered := reachable.ordered current
  obtain ⟨accepted, entries, registries, exports, -⟩ := Assembly.of_resolve resolved
  have clean := (assembly.survey_accepted_iff.mp accepted).1
  have acyclic := ((Assembly.populatedDraft_isEmpty wellFormed).mp
    (Assembly.populatedDraft_accepted wellFormed accepted)).1
  have sound := Assembly.exportedDraft_sound wellFormed
  have files : resolution.filings.Perm ((numbered resolution.entries 0).map fun item =>
      (assembly.receiverOf item, item.2.key, item.1)) := by
    rw [Resolution.filings, registries, exports, entries]
    exact ordered.perm_filings wellFormed acyclic clean
  refine ⟨fun index registry held => ?_, fun id entry found => ?_, fun filing member => ?_,
    fun id entry declared => ⟨?_, Assembly.receiverOf_declared wellFormed declared⟩,
    ⟨by rw [entries, ← Assembly.exportedDraft_eq], fun id entry found shown => ?_⟩,
    fun number application built id entry declared => ?_⟩
  · have place := sound.places index
    rw [← registries, held, Option.map_some] at place
    obtain ⟨scope, -, same⟩ := Option.map_eq_some_iff.mp place.symm
    exact (Prod.mk.inj same).1.symm
  · have only := files.filter fun filing => filing.2.2 = id
    rw [List.filter_map] at only
    have named : (fun filing : Filing => decide (filing.2.2 = id)) ∘
        (fun item : EntryId × Entry => (assembly.receiverOf item, item.2.key, item.1)) =
          fun item => decide (item.1 = id) := rfl
    rw [named, filter_numbered found] at only
    exact List.perm_singleton.mp only
  · obtain ⟨item, among, rfl⟩ := List.mem_map.mp (files.mem_iff.mp member)
    exact (List.getElem?_eq_some_iff.mp (mem_numbered.mp among)).1
  · rw [entries]
    exact sound.declared declared
  · rw [entries] at found
    exact ordered.of_receiverOf wellFormed acyclic clean found shown
  · obtain ⟨state, compiles, describes⟩ := reachable.sound.exists_described current built
    exact compiles.finds_declared describes wellFormed declared

/-- A sum that one scope declares, a second one imports and exports and the root exports has four
entries, the last of which is public. -/
theorem registers_once_sample : ∃ resolution, Assembly.relayed.resolve = .ok resolution ∧
    resolution.filings.filter (fun filing => filing.2.2 = ⟨3⟩) =
      [(some .root, .qualified .u16 "second", ⟨3⟩)] ∧
    resolution.filings.filter (fun filing => filing.2.2 = ⟨4⟩) =
      [(none, .qualified .u16 "second", ⟨4⟩)] := by
  have current : relayed.assembly = some Assembly.relayed := rfl
  have resolved := Assembly.resolve_of_accepted
    (show Assembly.relayed.survey.accepted = true by decide +kernel)
  obtain ⟨-, once, -⟩ := reachable_relayed.registers_once current resolved
  have inner : Assembly.relayed.innerDraft.entries.length = 4 := by decide +kernel
  obtain ⟨third, found, facts⟩ : ∃ entry, Assembly.relayed.survey.entries[3]? = some entry ∧
      (entry.scope, entry.key) = (.root, .qualified .u16 "second") :=
    Option.map_eq_some_iff.mp (by decide +kernel)
  obtain ⟨fourth, found', key⟩ : ∃ entry, Assembly.relayed.survey.entries[4]? = some entry ∧
      entry.key = .qualified .u16 "second" := Option.map_eq_some_iff.mp (by decide +kernel)
  obtain ⟨home, key'⟩ := Prod.mk.inj facts
  refine ⟨_, resolved, ?_, ?_⟩
  · rw [once ⟨3⟩ third found, Assembly.receiverOf, inner, home, key']
    rfl
  · rw [once ⟨4⟩ fourth found', Assembly.receiverOf, inner, key]
    rfl

end Host

end Wiring
