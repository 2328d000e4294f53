import Wiring.Proofs.Filings
import Wiring.Proofs.Identity
import Wiring.Proofs.Linkages
import Wiring.Proofs.Lookup
import Wiring.Proofs.Outward
import Wiring.Stock

/-!
Assemblies are consistent: however they are declared, also by calls that are refused, the four lists
of an assembly refer to each other in the right way. So everything that the resolution, the
compilation and the build take by its position is there, and in a built application the name of a
scope leads to the pool of that scope.
-/

namespace Wiring

open Relation

namespace Assembly

variable {offered : Pool → Prop} {assembly after : Assembly}

/-- No two scopes have one name, and bundles were installed in scopes that exist. -/
structure Named (assembly : Assembly) : Prop where
  names : (assembly.scopes.map Scope.name).Nodup
  installed : ∀ installation ∈ assembly.installations,
    installation.scope.index < assembly.scopes.length

theorem named_new (number : Nat) (config : Config) : (new number config).Named where
  names := List.nodup_singleton config.name
  installed := nofun

theorem map_name_changeScope (assembly : Assembly) (id : ScopeId) {change : Scope → Scope}
    (kept : ∀ scope, (change scope).name = scope.name) :
    (assembly.changeScope id change).scopes.map Scope.name = assembly.scopes.map Scope.name := by
  refine List.ext_getElem? fun index => ?_
  rw [List.getElem?_map, getElem?_changeScope, List.getElem?_map, Option.map_map]
  congr 1
  funext scope
  rw [Function.comp_apply]
  split
  · exact kept scope
  · rfl

/-- A change of a scope that keeps its name. -/
theorem Named.changeScope (named : assembly.Named) (id : ScopeId) {change : Scope → Scope}
    (kept : ∀ scope, (change scope).name = scope.name) :
    (assembly.changeScope id change).Named where
  names := by
    rw [map_name_changeScope assembly id kept]
    exact named.names
  installed installation member := by
    simpa [Assembly.changeScope] using named.installed installation member

/-- The name of a scope that is added is new. -/
theorem Named.addScope (named : assembly.Named) {name : String} {parent id : ScopeId}
    (added : assembly.addScope name parent = .ok (id, after)) : after.Named := by
  unfold Assembly.addScope at added
  cases found : assembly.scope parent with
  | error misuse => simp [found] at added
  | ok above =>
    simp only [found] at added
    split at added
    · cases added
    · rename_i fresh
      simp only [Except.ok.injEq, Prod.mk.injEq] at added
      obtain ⟨-, rfl⟩ := added
      have grown : (assembly.appendScope (childName above name) parent).Named := by
        refine ⟨?_, fun installation member => ?_⟩
        · rw [appendScope, List.map_append]
          refine List.nodup_append.mpr
            ⟨named.names, List.nodup_singleton _, fun first member last single same => ?_⟩
          obtain rfl := List.mem_singleton.mp single
          obtain ⟨scope, among, rfl⟩ := List.mem_map.mp member
          exact fresh (List.any_eq_true.mpr ⟨scope, among, beq_iff_eq.mpr same⟩)
        · rw [appendScope, List.length_append]
          exact Nat.lt_add_right _ (named.installed installation member)
      exact grown.changeScope parent fun _ => rfl

theorem Named.changes (named : assembly.Named) (changes : assembly.Changes after) :
    after.Named := by
  cases changes with
  | declare entry =>
    have names : (assembly.declare entry).2.scopes.map Scope.name =
        assembly.scopes.map Scope.name := map_name_changeScope _ entry.scope fun _ => rfl
    refine ⟨names ▸ named.names, fun installation member => ?_⟩
    simpa [Assembly.declare, Assembly.changeScope] using named.installed installation member
  | adjust entries length => exact ⟨named.names, named.installed⟩
  | addImport scope spec => exact named.changeScope scope fun _ => rfl
  | addExport scope spec => exact named.changeScope scope fun _ => rfl
  | addScope added => exact named.addScope added
  | enter bundle inside =>
    refine ⟨named.names, fun installation member => ?_⟩
    rcases List.mem_append.mp member with old | new
    · exact named.installed installation old
    · rw [List.mem_singleton.mp new]
      exact inside
  | leave source => exact ⟨named.names, named.installed⟩

/-- What every call on an assembly keeps. -/
structure Regular (offered : Pool → Prop) (assembly : Assembly) : Prop where
  wellFormed : assembly.WellFormed offered
  ordered : assembly.Ordered
  named : assembly.Named

/-- A call on an assembly by the caller or by a bundle, whatever comes of it: what was done before a
refusal stays, and the caller goes on. A bundle begins in a scope that exists, and it may end at any
time. -/
inductive Undergoes (offered : Pool → Prop) : Assembly → Assembly → Prop
  | addScope (assembly : Assembly) (name : String) (parent : ScopeId) :
      Undergoes offered assembly (Declaring.addScope name parent (assembly, [])).2.1
  | declare (assembly : Assembly) (scope : ScopeId) (declaration : Declaration)
      (draws : declaration.Draws offered) :
      Undergoes offered assembly (declareIn scope declaration (assembly, [])).2.1
  | enter (assembly : Assembly) {scope : ScopeId} (bundle : Bundle)
      (inside : scope.index < assembly.scopes.length) :
      Undergoes offered assembly (assembly.enter scope bundle)
  | leave (assembly : Assembly) (source : Option String) :
      Undergoes offered assembly { assembly with source := source }

/-- Declaring that keeps an assembly well formed and changes it step by step keeps it regular. -/
theorem Regular.declaring {α : Type} (regular : assembly.Regular offered) {declaring : Declaring α}
    {given : α → Assembly → Prop} (keeps : declaring.Keeps offered (assembly, []) given)
    (stepwise : declaring.Stepwise) : (declaring (assembly, [])).2.1.Regular offered := by
  have changes := stepwise (assembly, [])
  have stays : (declaring (assembly, [])).2.1.WellFormed offered := by
    unfold Declaring.Keeps Attempt.Yields at keeps
    generalize declaring (assembly, []) = result at keeps
    obtain ⟨ending, after⟩ := result
    cases ending with
    | value value => exact keeps.1.wellFormed
    | error misuse => exact keeps.wellFormed
    | panic message => exact keeps.wellFormed
    | exhausted => exact keeps.wellFormed
  generalize (declaring (assembly, [])).2.1 = after at changes stays
  have kept : after.Ordered ∧ after.Named := by
    clear stays
    induction changes with
    | refl => exact ⟨regular.ordered, regular.named⟩
    | tail _ change ih => exact ⟨ih.1.changes change, ih.2.changes change⟩
  exact ⟨stays, kept.1, kept.2⟩

theorem Regular.undergoes (regular : assembly.Regular offered)
    (undergoes : assembly.Undergoes offered after) : after.Regular offered := by
  cases undergoes with
  | addScope name parent =>
    exact regular.declaring (Declaring.keeps_addScope regular.wellFormed name parent)
      (Declaring.stepwise_addScope name parent)
  | declare scope declaration draws =>
    exact regular.declaring (keeps_declareIn regular.wellFormed draws scope)
      (stepwise_declareIn scope declaration)
  | enter bundle inside =>
    have framed := regular.wellFormed
    have changes := Changes.enter assembly bundle inside
    exact ⟨⟨⟨framed.toFramed, framed.entries, framed.placed, framed.listed⟩, framed.tree⟩,
      regular.ordered.changes changes, regular.named.changes changes⟩
  | leave source =>
    have framed := regular.wellFormed
    have changes := Changes.leave assembly source
    exact ⟨⟨⟨framed.toFramed, framed.entries, framed.placed, framed.listed⟩, framed.tree⟩,
      regular.ordered.changes changes, regular.named.changes changes⟩

theorem Regular.undergoes_all (regular : assembly.Regular offered)
    (undergoes : ReflTransGen (Undergoes offered) assembly after) : after.Regular offered := by
  induction undergoes with
  | refl => exact regular
  | tail _ next ih => exact ih.undergoes next

/-- The scopes below a scope, in the order of their creation. -/
def childrenOf (assembly : Assembly) (parent : ScopeId) : List ScopeId :=
  ((List.range assembly.scopes.length).filter fun index =>
    (assembly.scopes[index]?.bind Scope.parent) = some parent).map ScopeId.mk

theorem mem_childrenOf {parent child : ScopeId} :
    child ∈ assembly.childrenOf parent ↔
      ∃ data, assembly.scopes[child.index]? = some data ∧ data.parent = some parent := by
  unfold childrenOf
  simp only [List.mem_map, List.mem_filter, List.mem_range, decide_eq_true_eq,
    Option.bind_eq_some_iff]
  constructor
  · rintro ⟨index, ⟨-, found⟩, rfl⟩
    exact found
  · rintro ⟨data, here, above⟩
    exact ⟨child.index, ⟨(List.getElem?_eq_some_iff.mp here).1, data, here, above⟩, rfl⟩

/-- A scope lists the scopes below it, each once and in the order of their creation. -/
theorem Regular.children_eq (regular : assembly.Regular offered) {index : Nat} {scope : Scope}
    (here : assembly.scopes[index]? = some scope) :
    scope.children = assembly.childrenOf ⟨index⟩ := by
  have sorted : (assembly.childrenOf ⟨index⟩).Pairwise
      fun earlier later => earlier.index < later.index :=
    List.pairwise_map.mpr (List.pairwise_lt_range.filter _)
  refine eq_of_pairwise_index (regular.ordered.children scope (List.mem_of_getElem? here)).1 sorted
    fun child => ?_
  rw [mem_childrenOf]
  constructor
  · exact regular.wellFormed.tree.children index scope here child
  · rintro ⟨data, place, above⟩
    obtain ⟨parent, found, listed⟩ :=
      regular.wellFormed.tree.parents child.index data place _ above
    obtain rfl := Option.some.inj (here.symm.trans found)
    exact listed

/-- The lists of an assembly refer to each other in the right way. -/
structure Consistent (assembly : Assembly) : Prop where
  /-- The first scope is the root, and it has no parent. -/
  root : ∃ root, assembly.scopes[0]? = some root ∧ root.parent = none
  /-- Every other scope comes after its parent. -/
  parents : ∀ (index : Nat) (scope : Scope), assembly.scopes[index]? = some scope → index ≠ 0 →
    ∃ parent, scope.parent = some parent ∧ parent.index < index
  /-- The children of a scope are the scopes of which it is the parent. -/
  children : ∀ (index : Nat) (scope : Scope), assembly.scopes[index]? = some scope →
    scope.children = assembly.childrenOf ⟨index⟩
  /-- No two scopes have one name. -/
  names : (assembly.scopes.map Scope.name).Nodup
  /-- Every entry stands in the list of its scope and in no other one. -/
  declared : ∀ (index : Nat) (scope : Scope), assembly.scopes[index]? = some scope →
    scope.declared = (assembly.providers ⟨index⟩).map Prod.fst
  homes : ∀ entry ∈ assembly.entries, entry.scope.index < assembly.scopes.length
  /-- Imports take from scopes that exist. -/
  sources : ∀ scope ∈ assembly.scopes, ∀ imported ∈ scope.imports, ∀ source,
    imported.spec.source = .scope source → source.index < assembly.scopes.length
  /-- Bundles are installed in scopes that exist. -/
  installed : ∀ installation ∈ assembly.installations,
    installation.scope.index < assembly.scopes.length
  /-- An instance is constant, and its value has the type of its key. -/
  given : ∀ entry ∈ assembly.entries, ∀ handle, entry.origin = .given handle →
    entry.mode = some .constant ∧ handle.type = entry.key.type

theorem Regular.consistent (regular : assembly.Regular offered) : assembly.Consistent where
  root := by
    obtain ⟨root, here⟩ : ∃ root, assembly.scopes[0]? = some root :=
      ⟨_, List.getElem?_eq_getElem regular.ordered.root⟩
    refine ⟨root, here, ?_⟩
    cases above : root.parent with
    | none => rfl
    | some parent =>
      exact absurd (regular.wellFormed.parents 0 root here parent above) (Nat.not_lt_zero _)
  parents index scope here other := by
    cases above : scope.parent with
    | none => exact absurd (regular.wellFormed.tree.root index scope here above) other
    | some parent => exact ⟨parent, rfl, regular.wellFormed.parents index scope here parent above⟩
  children _ _ here := regular.children_eq here
  names := regular.named.names
  declared _ _ here := regular.ordered.declared_eq regular.wellFormed here
  homes entry member := by
    obtain ⟨index, found⟩ := List.getElem?_of_mem member
    obtain ⟨scope, place, -⟩ := regular.wellFormed.placed index entry found
    exact (List.getElem?_eq_some_iff.mp place).1
  sources scope member imported among source taken := by
    obtain ⟨index, here⟩ := List.getElem?_of_mem member
    refine regular.wellFormed.sources index scope here source.index ?_
    exact List.mem_filterMap.mpr ⟨imported, among, by simp [Import.scopeSource?, taken]⟩
  installed := regular.named.installed
  given entry member handle origin := by
    obtain ⟨index, found⟩ := List.getElem?_of_mem member
    have proper := regular.wellFormed.entries index entry found
    rw [Entry.Proper, origin] at proper
    exact ⟨proper.2.1, proper.1⟩

end Assembly

namespace Draft

variable {offered : Pool → Prop} {assembly : Assembly} {draft before after : Draft}
  {receiver : ScopeId → Option ScopeId} {enrolled : List (EntryId × Entry)}

/-- Entries stand in scopes that exist, and claims name entries that are there. -/
structure Housed (assembly : Assembly) (draft : Draft) : Prop where
  homes : ∀ entry ∈ draft.entries, entry.scope.index < assembly.scopes.length
  claimed : ∀ claim ∈ draft.claimed, claim.2.1.index < draft.entries.length

/-- What a draft takes by its position is there. -/
structure Indexed (assembly : Assembly) (draft : Draft) : Prop where
  registries : draft.registries.length = assembly.scopes.length
  parents : ∀ registry ∈ draft.registries, ∀ parent, registry.parent = some parent →
    parent.index < draft.registries.length
  homes : ∀ entry ∈ draft.entries, entry.scope.index < draft.registries.length
  targets : ∀ entry ∈ draft.entries, ∀ target, entry.origin = .delegate (.entry target) →
    target.index < draft.entries.length
  filed : ∀ filing ∈ draft.filings, filing.2.2.index < draft.entries.length
  claimed : ∀ claim ∈ draft.claimed, claim.2.1.index < draft.entries.length

theorem housed_of_unclaimed (entries : draft.entries = assembly.entries)
    (unclaimed : draft.claimed = [])
    (homes : ∀ entry ∈ assembly.entries, entry.scope.index < assembly.scopes.length) :
    draft.Housed assembly where
  homes := by rwa [entries]
  claimed := by simp [unclaimed]

theorem Housed.push (housed : draft.Housed assembly) {entry : Entry}
    (inside : entry.scope.index < assembly.scopes.length) :
    (draft.push entry).2.Housed assembly where
  homes other member := by
    rcases List.mem_append.mp member with old | new
    · exact housed.homes other old
    · rw [List.mem_singleton.mp new]
      exact inside
  claimed claim member := by
    change claim.2.1.index < (draft.entries ++ [entry]).length
    rw [List.length_append]
    exact Nat.lt_add_right _ (housed.claimed claim member)

theorem Housed.register (housed : draft.Housed assembly) (scopes : List Scope) (scope : ScopeId)
    (key : Key) (id : EntryId) : (draft.register scopes scope key id).Housed assembly := by
  unfold Draft.register
  split <;> exact ⟨housed.homes, housed.claimed⟩

theorem Housed.publish (housed : draft.Housed assembly) (scopes : List Scope) (key : Key)
    (id : EntryId) : (draft.publish scopes key id).Housed assembly := by
  unfold Draft.publish
  split <;> exact ⟨housed.homes, housed.claimed⟩

theorem Changes.housed (changes : Changes assembly receiver before enrolled after)
    (ordered : assembly.Ordered) (housed : before.Housed assembly) : after.Housed assembly := by
  cases changes with
  | enroll declared => exact housed.register _ _ _ _
  | add _ inside _ => exact (housed.push inside).register _ _ _ _
  | publish _ root _ => exact (housed.push (root ▸ ordered.root)).publish _ _ _
  | claim claim descriptor inside =>
    refine ⟨housed.homes, fun other member => ?_⟩
    rcases List.mem_append.mp member with old | new
    · exact housed.claimed other old
    · rw [List.mem_singleton.mp new]
      exact inside
  | record events kept => exact ⟨housed.homes, housed.claimed⟩

theorem Runs.housed (runs : Runs assembly receiver before enrolled after)
    (ordered : assembly.Ordered) (housed : before.Housed assembly) : after.Housed assembly := by
  induction runs with
  | refl => exact housed
  | tail _ changes ih => exact changes.housed ordered ih

theorem Sound.indexed (sound : draft.Sound assembly) (wellFormed : assembly.WellFormed offered)
    (housed : draft.Housed assembly) : draft.Indexed assembly where
  registries := sound.length_registries
  parents registry member parent above := by
    obtain ⟨index, found⟩ := List.getElem?_of_mem member
    have place := sound.places index
    rw [found, Option.map_some] at place
    obtain ⟨scope, here, same⟩ := Option.map_eq_some_iff.mp place.symm
    rw [← (Prod.mk.inj same).2] at above
    exact (wellFormed.parents index scope here parent above).trans
      (List.getElem?_eq_some_iff.mp found).1
  homes entry member := by
    rw [sound.length_registries]
    exact housed.homes entry member
  targets entry member target origin := by
    obtain ⟨index, found⟩ := List.getElem?_of_mem member
    rcases sound.entry_cases found with declared | ⟨-, -, other, leads, provides⟩
    · exact absurd origin ((wellFormed.entries index entry declared).ne_delegate _)
    · obtain rfl := Origin.delegate.inj (leads.symm.trans origin)
      obtain ⟨provider, declared, -⟩ := provides
      exact (List.getElem?_eq_some_iff.mp (sound.declared declared)).1
  filed filing member := by
    rcases List.mem_append.mp member with inner | outer
    · obtain ⟨registry, among, held⟩ := List.mem_flatMap.mp inner
      obtain ⟨pair, listed, rfl⟩ := List.mem_map.mp held
      obtain ⟨entry, found, -⟩ := sound.held registry among pair listed
      exact (List.getElem?_eq_some_iff.mp found).1
    · obtain ⟨pair, listed, rfl⟩ := List.mem_map.mp outer
      obtain ⟨entry, found, -⟩ := sound.exported pair listed
      exact (List.getElem?_eq_some_iff.mp found).1
  claimed := housed.claimed

end Draft

namespace Assembly

variable {offered : Pool → Prop} {assembly : Assembly}

/-- Whatever the build takes by its position is there. -/
structure Bounded (assembly : Assembly) : Prop where
  /-- The sources of imports, along which circles are looked for. -/
  sources : Contained assembly.scopes.length (sourcesAt assembly.scopes)
  /-- The scopes that are filled, and those that export. -/
  importers : ∀ scope ∈ importOrder assembly.scopes, scope.index < assembly.scopes.length
  exporters : ∀ scope ∈ assembly.turns, scope.index < assembly.scopes.length
  /-- The registries, entries and claims while scopes are filled and while they export. -/
  filling : ∀ before after, importOrder assembly.scopes = before ++ after →
    (before.foldl (Draft.populate assembly.scopes) assembly.orderedDraft).Indexed assembly
  exporting : ∀ before after, assembly.turns = before ++ after →
    (assembly.exportEach assembly.populatedDraft before).Indexed assembly
  /-- The providers of dependencies, and the factories along which circles are looked for. -/
  links : assembly.exportedDraft.links.length = assembly.exportedDraft.entries.length
  linked : ∀ providers ∈ assembly.exportedDraft.links, ∀ id ∈ providers,
    id.index < assembly.exportedDraft.entries.length
  factories : Contained assembly.exportedDraft.entries.length
    (Draft.factoriesBehind assembly.exportedDraft.entries assembly.exportedDraft.links)
  /-- What is registered, and what it needs compiled before it. -/
  compiled : ∀ registry,
    registry ∈ assembly.survey.registries ∨ registry = assembly.survey.exports →
    registry.Inside (assembly.blueprint assembly.survey)
  needed : ∀ index next, (assembly.blueprint assembly.survey).Needs index next →
    next < (assembly.blueprint assembly.survey).entries.length
  /-- The pool of the parent, when all scopes before a scope are compiled. -/
  stacked : ∀ before registry scope after,
    assembly.survey.registries.zip assembly.scopes = before ++ (registry, scope) :: after →
    ∀ pools : List Pool, pools.length = before.length → ∀ parent, scope.parent = some parent →
      ∃ above, pools[parent.index]? = some above

theorem Regular.filling (regular : assembly.Regular offered) {before after : List ScopeId}
    (order : importOrder assembly.scopes = before ++ after) :
    (before.foldl (Draft.populate assembly.scopes) assembly.orderedDraft).Sound assembly ∧
      (before.foldl (Draft.populate assembly.scopes) assembly.orderedDraft).Housed assembly := by
  have start : assembly.orderedDraft.Housed assembly :=
    Draft.housed_of_unclaimed rfl rfl regular.consistent.homes
  have runs : Draft.Runs assembly some assembly.orderedDraft (before.flatMap assembly.providers)
      (before.foldl (Draft.populate assembly.scopes) assembly.orderedDraft) :=
    (orderedDraft_sound assembly).runs_foldl fun scope member middle fine _ =>
      fine.runs_populate regular.wellFormed regular.ordered rfl
        (lt_of_mem_importOrder (order ▸ List.mem_append_left after member))
  exact ⟨(runs.evolves (orderedDraft_sound assembly)).1, runs.housed regular.ordered start⟩

theorem Regular.exporting (regular : assembly.Regular offered) {before after : List ScopeId}
    (order : assembly.turns = before ++ after) :
    (assembly.exportEach assembly.populatedDraft before).Sound assembly ∧
      (assembly.exportEach assembly.populatedDraft before).Housed assembly := by
  have filled : assembly.populatedDraft.Sound assembly ∧ assembly.populatedDraft.Housed assembly :=
    regular.filling (List.append_nil _).symm
  refine List.foldlRecOn before (Draft.exportFrom assembly.scopes)
    (motive := fun draft => draft.Sound assembly ∧ draft.Housed assembly) filled ?_
  rintro draft ⟨sound, housed⟩ scope member
  have turn : scope ∈ assembly.turns := by
    rw [order]
    exact List.mem_append_left after member
  have inside := (regular.ordered.mem_exportOrder regular.wellFormed).mp turn
  have here := List.getElem?_eq_getElem inside
  let receiver (home : ScopeId) : Option ScopeId :=
    assembly.scopes[scope.index].parent.map fun _ => home
  have receives : receiver (assembly.scopes[scope.index].parent.getD scope) =
      assembly.scopes[scope.index].parent := by
    unfold receiver
    cases assembly.scopes[scope.index].parent <;> rfl
  have runs := sound.runs_exportFrom regular.wellFormed here receives
  exact ⟨(runs.evolves sound).1, runs.housed regular.ordered housed⟩

/-- Whatever the build of a regular assembly takes by its position is there. -/
theorem Regular.bounded (regular : assembly.Regular offered) : assembly.Bounded := by
  have wellFormed := regular.wellFormed
  obtain ⟨sound, housed⟩ : assembly.exportedDraft.Sound assembly ∧
    assembly.exportedDraft.Housed assembly := regular.exporting (List.append_nil _).symm
  have indexed := sound.indexed wellFormed housed
  have linked (index : Nat) (id : EntryId)
      (member : id ∈ assembly.exportedDraft.links.getD index []) :
      id.index < assembly.exportedDraft.entries.length := by
    obtain ⟨entry, key, -, -, -, nearest⟩ := sound.mem_links.mp member
    obtain ⟨provider, found, -⟩ := sound.of_nearest? nearest
    exact (List.getElem?_eq_some_iff.mp found).1
  refine
    { sources := wellFormed.contained
      importers := fun scope => lt_of_mem_importOrder
      exporters := fun scope => (regular.ordered.mem_exportOrder wellFormed).mp
      filling := fun before after order =>
        have filled := regular.filling order
        filled.1.indexed wellFormed filled.2
      exporting := fun before after order =>
        have exported := regular.exporting order
        exported.1.indexed wellFormed exported.2
      links := by simp [Draft.links, Draft.needs]
      linked := fun providers member id among => ?_
      factories := fun index _ next member => ?_
      compiled := fun registry => survey_inside wellFormed
      needed := fun index next needs => ?_
      stacked := fun before registry scope after split pools length parent above => ?_ }
  · obtain ⟨index, here⟩ := List.getElem?_of_mem member
    exact linked index id (by rw [List.getD_eq_getElem?_getD, here]; exact among)
  · obtain ⟨entry, provider, key, id, -, -, declared, -⟩ :=
      (sound.mem_factoriesBehind wellFormed).mp member
    exact (List.getElem?_eq_some_iff.mp (sound.declared declared)).1
  · rw [blueprint_entries]
    cases needs with
    | target found origin =>
      rw [blueprint_entries] at found
      exact indexed.targets _ (List.mem_of_getElem? found) _ origin
    | link found origin member => exact linked index _ (List.of_mem_zip member).2
  · have here : (assembly.survey.registries.zip assembly.scopes)[before.length]? =
        some (registry, scope) := by
      rw [split, List.getElem?_append_right (Nat.le_refl _)]
      simp
    have earlier := wellFormed.parents _ scope (List.getElem?_zip_eq_some.mp here).2 parent above
    exact ⟨_, List.getElem?_eq_getElem (length ▸ earlier)⟩

/-- Where the pools have the names of the scopes, the name of a scope leads to its pool. -/
theorem Regular.position?_eq (regular : assembly.Regular offered) {application : Application}
    (same : application.pools.map Pool.name = assembly.scopes.map Scope.name) {index : Nat}
    {scope : Scope} (here : assembly.scopes[index]? = some scope) :
    application.position? (.path scope.name) = some (.scope index) := by
  have distinct := regular.named.names
  have named : (assembly.scopes.map Scope.name)[index]? = some scope.name := by
    rw [List.getElem?_map, here]
    rfl
  rw [← same] at distinct named
  obtain ⟨inside, name⟩ := List.getElem?_eq_some_iff.mp named
  have first : (application.pools.map Pool.name).findIdx? (· == scope.name) = some index := by
    refine List.findIdx?_eq_some_iff_getElem.mpr ⟨inside, by rw [name, beq_self_eq_true], ?_⟩
    intro earlier before equal
    rw [beq_iff_eq, ← name, distinct.getElem_inj_iff] at equal
    exact absurd equal (Nat.ne_of_lt before)
  rw [List.findIdx?_map] at first
  rw [Application.position?]
  change (application.pools.findIdx? ((· == scope.name) ∘ Pool.name)).map PoolPosition.scope = _
  rw [first]
  rfl

/-- The pools of an application have the names of the scopes. -/
theorem Compiles.map_name {applications : List Application} {memory : Memory}
    {application : Application} {state : Memory × Compiled}
    (compiles : assembly.Compiles applications memory application state) :
    application.pools.map Pool.name = assembly.scopes.map Scope.name := by
  refine List.ext_getElem? fun index => ?_
  rw [List.getElem?_map, List.getElem?_map]
  cases here : assembly.scopes[index]? with
  | none =>
    rw [List.getElem?_eq_none_iff, ← compiles.length, ← List.getElem?_eq_none_iff] at here
    rw [here]
    rfl
  | some scope =>
    obtain ⟨pool, -, found, -, name⟩ := compiles.exists_pool here
    rw [found, Option.map_some, Option.map_some, name]

end Assembly

namespace Host

variable {host : Host} {assembly : Assembly}

theorem Reachable.regular (reachable : host.Reachable) (current : host.assembly = some assembly) :
    assembly.Regular host.Offers where
  wellFormed := reachable.sound.wellFormed assembly current
  ordered := reachable.ordered current
  named := reachable.assembly_induct current Assembly.named_new fun _ _ changes named =>
    named.changes changes

/-- Assemblies stay consistent. Whatever is declared in the assembly of a host, also when calls are
refused and the caller or a bundle goes on, its lists refer to each other in the right way, and all
that its build takes by a position is there. In an application that was built from it every scope
has its pool under its name, on top of the pool of its parent. -/
theorem Reachable.stays_consistent (reachable : host.Reachable)
    (current : host.assembly = some assembly) {later : Assembly}
    (undergoes : ReflTransGen (Assembly.Undergoes host.Offers) assembly later) :
    later.Consistent ∧ later.Bounded ∧
      ∀ (applications : List Application) (memory after : Memory) (application : Application),
        later.build applications memory = (.value application, after) →
        application.pools.length = later.scopes.length ∧
        ∀ (index : Nat) (scope : Scope), later.scopes[index]? = some scope →
          ∃ pool, application.pools[index]? = some pool ∧ pool.name = scope.name ∧
            application.position? (.path scope.name) = some (.scope index) ∧
            application.pool? (.path scope.name) = some pool ∧
            ∀ parent, scope.parent = some parent →
              ∃ above, application.pools[parent.index]? = some above ∧
                pool.ancestors = above.layers := by
  have regular := (reachable.regular current).undergoes_all undergoes
  refine ⟨regular.consistent, regular.bounded, ?_⟩
  intro applications memory after application builds
  obtain ⟨state, compiles, -⟩ :=
    (Assembly.build_yields regular.wellFormed applications memory).of_value builds
  refine ⟨compiles.length, fun index scope here => ?_⟩
  obtain ⟨pool, registry, found, -, name⟩ := compiles.exists_pool here
  have position := regular.position?_eq compiles.map_name here
  obtain ⟨-, below⟩ := compiles.ancestors_eq regular.wellFormed here found
  refine ⟨pool, found, name, position, ?_, fun parent above => (below parent above).2⟩
  rw [Application.pool?, position]
  exact found

end Host

namespace Assembly

/-- The assembly after four more calls: a scope is refused for its name, a bundle begins in the
relay and declares a number, and it panics. -/
def resumed : Assembly :=
  let refused := (Declaring.addScope "source" .root (relayed, [])).2.1
  let entered := refused.enter ⟨2⟩ ⟨"late", .nothing⟩
  let provided :=
    (declareIn ⟨2⟩ (.provide (.given (.ofParts .u64 3 "") none) []) (entered, [])).2.1
  (declareIn ⟨2⟩ (.panic "enough") (provided, [])).2.1

theorem undergoes_resumed (offered : Pool → Prop) :
    ReflTransGen (Undergoes offered) relayed resumed :=
  (((ReflTransGen.single (.addScope _ _ _)).tail (.enter _ _ (by decide +kernel))).tail
    (.declare _ _ _ trivial)).tail (.declare _ _ _ trivial)

theorem scopes_resumed : resumed.scopes.map Scope.name =
    ["outer", "outer/source", "outer/relay"] := by decide +kernel

/-- A build that gives an application has one. -/
theorem exists_application (assembly : Assembly) (applications : List Application)
    (memory : Memory)
    (built : (match (assembly.build applications memory).1 with
      | .value _ => true
      | _ => false) = true) :
    ∃ application after, assembly.build applications memory = (.value application, after) := by
  generalize assembly.build applications memory = result at built ⊢
  obtain ⟨ending, after⟩ := result
  cases ending with
  | value application => exact ⟨application, after, rfl⟩
  | error error => cases built
  | panic message => cases built
  | exhausted => cases built

end Assembly

theorem Host.stays_consistent_sample :
    Assembly.resumed.Consistent ∧ Assembly.resumed.entries.length = 3 ∧
      ∃ application after, Assembly.resumed.build [] .empty = (.value application, after) ∧
        application.position? (.path "outer/relay") = some (.scope 2) := by
  have current : relayed.assembly = some Assembly.relayed := rfl
  obtain ⟨consistent, -, named⟩ :=
    reachable_relayed.stays_consistent current (Assembly.undergoes_resumed relayed.Offers)
  obtain ⟨application, after, builds⟩ :=
    Assembly.resumed.exists_application [] .empty (by decide +kernel)
  obtain ⟨-, places⟩ := named [] .empty after application builds
  have relay : (Assembly.resumed.scopes.map Scope.name)[2]? = some "outer/relay" := by
    rw [Assembly.scopes_resumed]
    rfl
  rw [List.getElem?_map] at relay
  obtain ⟨scope, here, name⟩ := Option.map_eq_some_iff.mp relay
  obtain ⟨pool, -, -, position, -⟩ := places 2 scope here
  rw [name] at position
  exact ⟨consistent, by decide +kernel, application, after, builds, position⟩

end Wiring
