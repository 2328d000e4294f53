import Wiring.Proofs.Linkages
import Wiring.Proofs.Reaching
import Wiring.Proofs.Records
import Wiring.Proofs.Renumbering
import Wiring.Stock

/-!
The order of declarations. Two assemblies with the same scopes that declare the same in different
orders number their entries differently, fill their registries in different orders and claim exports
for different entries. Still both are resolved or neither is, and what they resolve to is the same
up to the numbers.
-/

namespace Wiring

theorem Entry.Alike.symm {first second : Entry} (alike : first.Alike second) :
    second.Alike first :=
  ⟨alike.key.symm, alike.kind.symm, alike.dependencies.symm⟩

/-- Two registries hold the same keys in some order, each with the same producer up to the numbers
of the entries. -/
structure Registry.Mirrors (moved : Equiv.Perm EntryId) (entries entries' : List Entry)
    (first second : Registry) : Prop where
  keys : first.keys.Perm second.keys
  producers : ∀ key, Option.Rel
    (fun left right => (delegateTo entries left).Moves moved (delegateTo entries' right))
    (first.get? key) (second.get? key)

theorem Registry.mirrors_of_rows {moved : Equiv.Perm EntryId} {entries entries' : List Entry}
    {first second : Registry} (mirrors : (first.row entries).Mirrors moved (second.row entries'))
    (distinct : (first.row entries).keys.Nodup) (distinct' : (second.row entries').keys.Nodup) :
    first.Mirrors moved entries entries' second where
  keys := by
    have perm := mirrors.perm_keys distinct distinct'
    rwa [keys_row, keys_row] at perm
  producers key := Registry.rel_get?_row.mp (mirrors key)

/-- Two scopes stand at the same place of their trees and declare the same in some order. -/
structure Scope.Reorders (moved : Equiv.Perm EntryId) (first second : Scope) : Prop where
  name : second.name = first.name
  parent : second.parent = first.parent
  children : second.children = first.children
  declared : (first.declared.map moved).Perm second.declared
  imports : (first.imports.map Import.spec).Perm (second.imports.map Import.spec)
  exports : first.exports.Perm second.exports

namespace Scope

variable {moved : Equiv.Perm EntryId} {first second : Scope}

theorem Reorders.symm (reorders : first.Reorders moved second) :
    second.Reorders moved.symm first where
  name := reorders.name.symm
  parent := reorders.parent.symm
  children := reorders.children.symm
  declared := by
    have back := (reorders.declared.symm.map moved.symm)
    rwa [List.map_map, Equiv.symm_comp_self, List.map_id] at back
  imports := reorders.imports.symm
  exports := reorders.exports.symm

/-- Scopes that import the same in some order import from the same scopes. -/
theorem Reorders.scopeSources (reorders : first.Reorders moved second) {source : Nat}
    (member : source ∈ second.scopeSources) : source ∈ first.scopeSources := by
  obtain ⟨imported, among, taken⟩ := List.mem_filterMap.mp member
  have listed := reorders.imports.mem_iff.mpr (List.mem_map.mpr ⟨imported, among, rfl⟩)
  obtain ⟨other, declared, same⟩ := List.mem_map.mp listed
  refine List.mem_filterMap.mpr ⟨other, declared, ?_⟩
  rwa [Import.scopeSource?, same]

end Scope

namespace Assembly

/-- Two assemblies have the same configuration and the same scopes, and each scope declares what its
counterpart declares, in some order. An entry may have another number than its counterpart. -/
structure Reorders (moved : Equiv.Perm EntryId) (first second : Assembly) : Prop where
  config : second.config = first.config
  scopes : List.Forall₂ (Scope.Reorders moved) first.scopes second.scopes
  entries : ∀ id : EntryId,
    Option.Rel Entry.Alike first.entries[id.index]? second.entries[(moved id).index]?

variable {moved : Equiv.Perm EntryId} {offered offered' : Pool → Prop} {first second : Assembly}

theorem Reorders.symm (reorders : first.Reorders moved second) :
    second.Reorders moved.symm first where
  config := reorders.config.symm
  scopes := reorders.scopes.flip.imp fun _ _ same => same.symm
  entries id := by
    have here := reorders.entries (moved.symm id)
    rw [Equiv.apply_symm_apply] at here
    generalize first.entries[(moved.symm id).index]? = entry at here ⊢
    generalize second.entries[id.index]? = entry' at here ⊢
    cases here with
    | none => exact .none
    | some alike => exact .some alike.symm

theorem Reorders.exists_scope (reorders : first.Reorders moved second) {index : Nat} {scope : Scope}
    (here : first.scopes[index]? = some scope) :
    ∃ scope', second.scopes[index]? = some scope' ∧ scope.Reorders moved scope' := by
  have place := rel_getElem? reorders.scopes index
  rw [here] at place
  exact exists_of_rel_some place

/-- The counterpart of an entry is declared alike, in the same scope. -/
theorem Reorders.exists_entry (reorders : first.Reorders moved second)
    (wellFormed : first.WellFormed offered) (wellFormed' : second.WellFormed offered')
    (id : EntryId) {entry : Entry} (found : first.entries[id.index]? = some entry) :
    ∃ entry', second.entries[(moved id).index]? = some entry' ∧ entry.Alike entry' ∧
      entry'.scope = entry.scope := by
  have place := reorders.entries id
  rw [found] at place
  obtain ⟨entry', found', alike⟩ := exists_of_rel_some place
  obtain ⟨scope, here, listed⟩ := wellFormed.placed id.index entry found
  obtain ⟨scope', here', same⟩ := reorders.exists_scope here
  have declared := same.declared.mem_iff.mp (List.mem_map_of_mem (f := moved) listed)
  obtain ⟨other, known, home⟩ := wellFormed'.listed _ scope' here' _ declared
  obtain rfl := Option.some.inj (found'.symm.trans known)
  exact ⟨entry', found', alike, home⟩

/-- The order of declarations makes no circle of imports. -/
theorem Reorders.importCycles (reorders : first.Reorders moved second)
    (wellFormed : first.WellFormed offered) (wellFormed' : second.WellFormed offered')
    (acyclic : Wiring.importCycles first.scopes = []) :
    Wiring.importCycles second.scopes = [] := by
  rw [importCycles_eq_nil wellFormed.contained] at acyclic
  rw [importCycles_eq_nil wellFormed'.contained]
  refine fun index => Subrelation.accessible (fun {source index} member => ?_) (acyclic index)
  unfold sourcesAt at member ⊢
  have place := rel_getElem? reorders.scopes index
  generalize first.scopes[index]? = scope at place ⊢
  generalize second.scopes[index]? = scope' at place member
  cases place with
  | none => exact member
  | some same => exact same.scopeSources member

/-- What is declared in a scope is declared in its counterpart. -/
theorem Reorders.declaredRow (reorders : first.Reorders moved second) {scope scope' : Scope}
    (same : scope.Reorders moved scope') :
    ((scope.declaredRow first.entries).move moved).Perm (scope'.declaredRow second.entries) := by
  have each (id : EntryId) : (first.entries[id.index]?.map fun entry =>
        (entry.key, (Delegate.entry id).move moved)) =
      second.entries[(moved id).index]?.map fun entry => (entry.key, .entry (moved id)) := by
    have here := reorders.entries id
    generalize first.entries[id.index]? = entry at here ⊢
    generalize second.entries[(moved id).index]? = entry' at here ⊢
    cases here with
    | none => rfl
    | some alike => simp [alike.key, Delegate.move]
  have moves : (scope.declaredRow first.entries).move moved =
      (scope.declared.map moved).filterMap fun id =>
        second.entries[id.index]?.map fun entry => (entry.key, .entry id) := by
    unfold Scope.declaredRow Row.move
    rw [List.map_filterMap, List.filterMap_map]
    refine List.filterMap_congr fun id _ => ?_
    rw [Option.map_map]
    exact each id
  rw [moves]
  exact same.declared.filterMap _

/-- What is offered to a scope is offered to its counterpart, when that holds of its sources. -/
theorem Reorders.offers (reorders : first.Reorders moved second) {scope scope' : Scope}
    (same : scope.Reorders moved scope') (rows rows' : ScopeId → Row)
    (sources : ∀ source ∈ scope.scopeSources, ((rows ⟨source⟩).move moved).Perm (rows' ⟨source⟩)) :
    ((scope.offers first.entries rows).move moved).Perm (scope'.offers second.entries rows') := by
  have brings (imported : Import) (member : imported ∈ scope.imports) :
      ((imported.spec.keeps (imported.spec.source.row rows)).move moved).Perm
        (imported.spec.keeps (imported.spec.source.row rows')) := by
    rw [← Row.keeps_move]
    refine List.Perm.filterMap _ ?_
    cases taken : imported.spec.source with
    | scope source => exact sources source.index (Scope.mem_scopeSources member taken)
    | pool built =>
      unfold ImportSource.row Row.move
      rw [List.map_map]
      exact .refl _
  have specs (scope : Scope) (rows : ScopeId → Row) :
      (scope.imports.flatMap fun imported => imported.spec.keeps (imported.spec.source.row rows)) =
        (scope.imports.map Import.spec).flatMap fun spec => spec.keeps (spec.source.row rows) := by
    rw [List.flatMap_map]
  unfold Scope.offers Row.move
  rw [List.map_append, List.map_flatMap]
  refine (reorders.declaredRow same).append ?_
  refine (List.Perm.flatMap_left _ brings).trans ?_
  rw [specs scope, specs scope']
  exact same.imports.flatMap_right _

/-- When the first assembly fills its scopes without a problem, each scope of the second one holds
what its counterpart holds. -/
theorem Reorders.row_populatedDraft (reorders : first.Reorders moved second)
    (wellFormed : first.WellFormed offered) (wellFormed' : second.WellFormed offered')
    (clean : first.populatedDraft.diagnostics.isEmpty = true) (scope : ScopeId) :
    ((first.populatedDraft.row scope).move moved).Perm (second.populatedDraft.row scope) := by
  obtain ⟨acyclic, distinct⟩ := (populatedDraft_isEmpty wellFormed).mp clean
  have acyclic' := reorders.importCycles wellFormed wellFormed' acyclic
  obtain ⟨index⟩ := scope
  induction (importCycles_eq_nil wellFormed.contained).mp acyclic index with
  | intro index _ ih =>
    cases here : first.scopes[index]? with
    | none =>
      have missing := rel_getElem? reorders.scopes index
      rw [here] at missing
      rw [(populatedDraft_evolves wellFormed (orderedDraft_sound first)).1.row_eq_nil here,
        (populatedDraft_evolves wellFormed' (orderedDraft_sound second)).1.row_eq_nil
          (eq_none_of_rel missing)]
      exact .nil
    | some data =>
      obtain ⟨data', here', same⟩ := reorders.exists_scope here
      have offers := reorders.offers same _ _ fun source member => ih source (by
        rwa [sourcesAt_of_getElem? here])
      have fresh := distinct index data here
      have fresh' : (data'.offers second.entries second.populatedDraft.row).keys.Nodup := by
        have keys := offers.map Prod.fst
        rw [← Row.keys_move moved] at fresh
        exact keys.nodup_iff.mp fresh
      rwa [Assembly.row_populatedDraft wellFormed acyclic here,
        Assembly.row_populatedDraft wellFormed' acyclic' here',
        (Row.fresh_nil.mpr fresh).receiveAll_eq, (Row.fresh_nil.mpr fresh').receiveAll_eq]

/-- The second assembly fills its scopes without a problem when the first one does. -/
theorem Reorders.populatedDraft_isEmpty (reorders : first.Reorders moved second)
    (wellFormed : first.WellFormed offered) (wellFormed' : second.WellFormed offered')
    (clean : first.populatedDraft.diagnostics.isEmpty = true) :
    second.populatedDraft.diagnostics.isEmpty = true := by
  obtain ⟨acyclic, distinct⟩ := (Assembly.populatedDraft_isEmpty wellFormed).mp clean
  refine (Assembly.populatedDraft_isEmpty wellFormed').mpr
    ⟨reorders.importCycles wellFormed wellFormed' acyclic, fun index data' here' => ?_⟩
  obtain ⟨data, here, back⟩ := reorders.symm.exists_scope here'
  have offers := reorders.offers back.symm _ _ fun source _ =>
    reorders.row_populatedDraft wellFormed wellFormed' clean ⟨source⟩
  have fresh := distinct index data here
  rw [← Row.keys_move moved] at fresh
  exact (offers.map Prod.fst).nodup_iff.mp fresh

/-- What holds of two drafts side by side while the scopes export: neither has a problem, and their
rows mirror each other. -/
structure Mirrored (moved : Equiv.Perm EntryId) (first second : Assembly) (draft draft' : Draft) :
    Prop where
  sound : draft.Sound first
  sound' : draft'.Sound second
  claims : draft.Claims
  claims' : draft'.Claims
  clean' : draft'.diagnostics.isEmpty = true
  distinct : ∀ receiver, (draft.rowOf receiver).keys.Nodup
  distinct' : ∀ receiver, (draft'.rowOf receiver).keys.Nodup
  mirrors : ∀ receiver, (draft.rowOf receiver).Mirrors moved (draft'.rowOf receiver)

/-- The exports of one scope keep two drafts side by side, when those of the first one are no
problem. -/
theorem Mirrored.exportFrom {draft draft' : Draft}
    (mirrored : Mirrored moved first second draft draft') (reorders : first.Reorders moved second)
    (wellFormed : first.WellFormed offered) (wellFormed' : second.WellFormed offered')
    (scope : ScopeId) (clean : (draft.exportFrom first.scopes scope).diagnostics.isEmpty = true) :
    Mirrored moved first second (draft.exportFrom first.scopes scope)
      (draft'.exportFrom second.scopes scope) := by
  cases here : first.scopes[scope.index]? with
  | none =>
    have missing := rel_getElem? reorders.scopes scope.index
    rw [here] at missing
    unfold Draft.exportFrom
    simp only [here, eq_none_of_rel missing]
    exact mirrored
  | some data =>
    obtain ⟨data', here', same⟩ := reorders.exists_scope here
    obtain ⟨exports, claims⟩ := mirrored.claims.exportFrom mirrored.sound wellFormed here
    obtain ⟨exports', claims'⟩ := mirrored.claims'.exportFrom mirrored.sound' wellFormed' here'
    obtain ⟨-, finds, agreeing⟩ := exports.accepted.mp clean
    have source := mirrored.mirrors (some scope)
    have receiver := mirrored.mirrors data.parent
    have covers := source.covers_outward (mirrored.distinct' (some scope)) same.exports
    have covers' := source.symm.covers_outward (mirrored.distinct (some scope)) same.exports.symm
    have received := exports'.row
    have others := exports'.others
    have accepted := exports'.accepted
    rw [same.parent] at received others accepted
    refine ⟨(Draft.evolves_exportFrom wellFormed scope draft mirrored.sound).1,
      (Draft.evolves_exportFrom wellFormed' scope draft' mirrored.sound').1, claims, claims',
      accepted.mpr ⟨mirrored.clean', fun spec among => ?_, agreeing.of_mirrors receiver covers⟩,
      exports.distinct mirrored.distinct, exports'.distinct mirrored.distinct', fun other => ?_⟩
    · exact source.finds_iff.mp (finds spec (same.exports.mem_iff.mpr among))
    · by_cases receives : other = data.parent
      · rw [receives, exports.row, received]
        exact receiver.receiveAll agreeing covers covers'
      · rw [exports.others other receives, others other receives]
        exact mirrored.mirrors other

/-- When the exports of the first assembly are no problem, those of the second one are none, and
what is held in the end is the same. -/
theorem Reorders.exportedDraft (reorders : first.Reorders moved second)
    (wellFormed : first.WellFormed offered) (wellFormed' : second.WellFormed offered')
    (clean : first.exportedDraft.diagnostics.isEmpty = true) :
    Mirrored moved first second first.exportedDraft second.exportedDraft := by
  have sound := (populatedDraft_evolves wellFormed (orderedDraft_sound first)).1
  have sound' := (populatedDraft_evolves wellFormed' (orderedDraft_sound second)).1
  have filled := (exportedDraft_evolves wellFormed sound).2.accepted clean
  obtain ⟨bare, claims⟩ := populatedDraft_bare wellFormed
  obtain ⟨bare', claims'⟩ := populatedDraft_bare wellFormed'
  have distinct := nodup_populatedDraft wellFormed
  have populated : Mirrored moved first second first.populatedDraft second.populatedDraft := by
    refine ⟨sound, sound', claims, claims',
      reorders.populatedDraft_isEmpty wellFormed wellFormed' filled, distinct,
      nodup_populatedDraft wellFormed', fun receiver => ?_⟩
    cases receiver with
    | some scope =>
      exact Row.mirrors_of_perm (distinct (some scope))
        (reorders.row_populatedDraft wellFormed wellFormed' filled scope)
    | none =>
      rw [Draft.rowOf, Draft.rowOf, bare, bare']
      exact fun _ => .none
  have order : exportOrder second.scopes second.scopes.length .root =
      exportOrder first.scopes first.scopes.length .root := by
    rw [← reorders.scopes.length_eq]
    exact exportOrder_congr (reorders.scopes.imp fun _ _ same => same.children) _ _
  unfold Assembly.exportedDraft at clean ⊢
  rw [order]
  generalize exportOrder first.scopes first.scopes.length .root = scopes at clean ⊢
  revert populated clean
  generalize first.populatedDraft = draft
  generalize second.populatedDraft = draft'
  intro populated clean
  induction scopes generalizing draft draft' with
  | nil => exact populated
  | cons scope rest ih =>
    have first_step := (Draft.evolves_exportFrom wellFormed scope draft populated.sound).1
    have others := Draft.evolves_foldl (Draft.exportFrom first.scopes) rest
      (fun scope _ draft => Draft.evolves_exportFrom wellFormed scope draft) _ first_step
    exact ih _ _
      (populated.exportFrom reorders wellFormed wellFormed' scope (others.2.accepted clean)) clean

/-- Each scope finds the same producers as its counterpart. -/
theorem Mirrored.nearest? {draft draft' : Draft}
    (mirrored : Mirrored moved first second draft draft') (reorders : first.Reorders moved second)
    (scope : ScopeId) (key : Key) :
    Option.Rel (fun left right => (delegateTo draft.entries left).Moves moved
      (delegateTo draft'.entries right)) (draft.nearest? scope key) (draft'.nearest? scope key) :=
  Draft.rel_nearest? mirrored.sound mirrored.sound'
    (reorders.scopes.imp fun _ _ same => same.parent) (fun _ => True)
    (fun _ _ _ _ _ _ => trivial) (fun scope _ => mirrored.mirrors (some scope)) trivial key

/-- The registries hold the same. -/
theorem Mirrored.registries {draft draft' : Draft}
    (mirrored : Mirrored moved first second draft draft') (reorders : first.Reorders moved second) :
    List.Forall₂ (Registry.Mirrors moved draft.entries draft'.entries) draft.registries
      draft'.registries := by
  have held {draft : Draft} {assembly : Assembly} (sound : draft.Sound assembly) {index : Nat}
      (inside : index < draft.registries.length) :
      draft.registries[index] = draft.registry ⟨index⟩ := by
    have place := sound.getElem?_registries ⟨index⟩
    rw [List.getElem?_eq_getElem inside] at place
    obtain ⟨data, -, own⟩ := Option.map_eq_some_iff.mp place.symm
    exact own.symm
  rw [List.forall₂_iff_get]
  refine ⟨?_, fun index inside inside' => ?_⟩
  · rw [mirrored.sound.length_registries, mirrored.sound'.length_registries,
      reorders.scopes.length_eq]
  · rw [List.get_eq_getElem, List.get_eq_getElem, held mirrored.sound inside,
      held mirrored.sound' inside']
    exact Registry.mirrors_of_rows (mirrored.mirrors (some ⟨index⟩))
      (mirrored.distinct (some ⟨index⟩)) (mirrored.distinct' (some ⟨index⟩))

/-- When the second scope finds a producer, so does the first one. -/
theorem Mirrored.exists_nearest {draft draft' : Draft}
    (mirrored : Mirrored moved first second draft draft') (reorders : first.Reorders moved second)
    {scope : ScopeId} {key : Key} {id' : EntryId} (nearest : draft'.nearest? scope key = some id') :
    ∃ id, draft.nearest? scope key = some id ∧
      (delegateTo draft.entries id).Moves moved (delegateTo draft'.entries id') := by
  have here := mirrored.nearest? reorders scope key
  rw [nearest] at here
  generalize draft.nearest? scope key = found at here
  cases here with
  | some moves => exact ⟨_, rfl, moves⟩

/-- All dependencies are met in the second assembly when they are in the first one. -/
theorem Mirrored.needs_met {draft draft' : Draft}
    (mirrored : Mirrored moved first second draft draft') (reorders : first.Reorders moved second)
    (wellFormed : first.WellFormed offered) (wellFormed' : second.WellFormed offered')
    (met : ∀ need ∈ draft.needs.flatten, need.provider.isSome = true) :
    ∀ need ∈ draft'.needs.flatten, need.provider.isSome = true := by
  rw [mirrored.sound.needs_met_iff] at met
  rw [mirrored.sound'.needs_met_iff]
  intro index' entry' found' factory' key depends'
  obtain ⟨entry, found, alike, home⟩ :=
    reorders.symm.exists_entry wellFormed' wellFormed ⟨index'⟩ found'
  have factory : entry.isFactory = true := by
    rwa [Entry.isFactory, alike.kind]
  have depends : key ∈ entry.dependencies := by rwa [alike.dependencies]
  have answer := met _ entry found factory key depends
  have here := mirrored.nearest? reorders entry.scope key
  rw [home] at answer here
  generalize draft.nearest? entry'.scope key = held at answer here
  generalize draft'.nearest? entry'.scope key = held' at here ⊢
  cases here with
  | none => exact answer
  | some => rfl

/-- What a factory of the second assembly depends on directly, its counterpart does. -/
theorem Mirrored.factoriesBehind {draft draft' : Draft}
    (mirrored : Mirrored moved first second draft draft') (reorders : first.Reorders moved second)
    (wellFormed : first.WellFormed offered) (wellFormed' : second.WellFormed offered')
    (id' next' : EntryId)
    (member : next'.index ∈ Draft.factoriesBehind draft'.entries draft'.links id'.index) :
    (moved.symm next').index ∈
      Draft.factoriesBehind draft.entries draft.links (moved.symm id').index := by
  obtain ⟨entry', provider', key, link', found', factory', declared', makes', depends', nearest',
    leads'⟩ := (mirrored.sound'.mem_factoriesBehind wellFormed').mp member
  obtain ⟨entry, found, alike, home⟩ :=
    reorders.symm.exists_entry wellFormed' wellFormed id' found'
  obtain ⟨provider, declared, like, -⟩ :=
    reorders.symm.exists_entry wellFormed' wellFormed next' declared'
  obtain ⟨link, nearest, moves⟩ := mirrored.exists_nearest reorders nearest'
  refine (mirrored.sound.mem_factoriesBehind wellFormed).mpr
    ⟨entry, provider, key, link, found, ?_, declared, ?_, ?_, ?_, ?_⟩
  · rwa [Entry.isFactory, alike.kind]
  · rwa [Entry.isFactory, like.kind]
  · rwa [alike.dependencies]
  · rwa [home]
  · rw [leads'] at moves
    have back := moves.symm
    cases target : delegateTo draft.entries link with
    | entry target' =>
      rw [target] at back
      exact congrArg Delegate.entry (Eq.symm back)
    | foreign imported =>
      rw [target] at back
      exact back.elim

/-- No circle of factories is found in the second assembly when none is found in the first one. -/
theorem Mirrored.dependencyCycles {draft draft' : Draft}
    (mirrored : Mirrored moved first second draft draft') (reorders : first.Reorders moved second)
    (wellFormed : first.WellFormed offered) (wellFormed' : second.WellFormed offered')
    (acyclic : Draft.dependencyCycles draft.entries draft.links = []) :
    Draft.dependencyCycles draft'.entries draft'.links = [] := by
  rw [mirrored.sound.dependencyCycles_eq_nil wellFormed] at acyclic
  rw [mirrored.sound'.dependencyCycles_eq_nil wellFormed']
  intro index'
  have ends := acyclic (moved.symm ⟨index'⟩).index
  refine Subrelation.accessible (fun {next index} member => ?_)
    (InvImage.accessible (fun index => (moved.symm ⟨index⟩).index) ends)
  exact mirrored.factoriesBehind reorders wellFormed wellFormed' ⟨index⟩ ⟨next⟩ member

/-- Nothing is hidden in the second assembly when nothing is hidden in the first one. -/
theorem Mirrored.shadowings {draft draft' : Draft}
    (mirrored : Mirrored moved first second draft draft') (reorders : first.Reorders moved second)
    (wellFormed : first.WellFormed offered) (wellFormed' : second.WellFormed offered')
    (plain : draft.registries.flatMap draft.shadowings = []) :
    draft'.registries.flatMap draft'.shadowings = [] := by
  rw [mirrored.sound.shadowings_eq_nil wellFormed fun scope => mirrored.distinct (some scope)]
    at plain
  rw [mirrored.sound'.shadowings_eq_nil wellFormed' fun scope => mirrored.distinct' (some scope)]
  intro scope data' parent key target' hidden' here' above' held' nearest'
  obtain ⟨data, here, back⟩ := reorders.symm.exists_scope here'
  obtain ⟨target, held, moves⟩ := (mirrored.mirrors (some scope)).exists_of_get? held'
  obtain ⟨hidden, nearest, leads⟩ := mirrored.exists_nearest reorders nearest'
  have above : data.parent = some parent := back.parent.trans above'
  have same := plain scope data parent key target hidden here above held nearest
  exact (leads.same_iff moves).mp same

/-- When the first assembly is resolved, the second one is resolved to the same. -/
theorem Reorders.accepted (reorders : first.Reorders moved second)
    (wellFormed : first.WellFormed offered) (wellFormed' : second.WellFormed offered')
    (accepted : first.survey.accepted = true) :
    second.survey.accepted = true ∧
      Mirrored moved first second first.exportedDraft second.exportedDraft := by
  obtain ⟨clean, met, acyclic, plain⟩ := first.survey_accepted_iff.mp accepted
  have mirrored := reorders.exportedDraft wellFormed wellFormed' clean
  refine ⟨second.survey_accepted_iff.mpr ⟨mirrored.clean',
    mirrored.needs_met reorders wellFormed wellFormed' met,
    mirrored.dependencyCycles reorders wellFormed wellFormed' acyclic, ?_⟩, mirrored⟩
  rw [reorders.config]
  exact plain.imp_right (mirrored.shadowings reorders wellFormed wellFormed')

end Assembly

/-- A resolution does not depend on the order of declarations. Of two assemblies that declare the
same in the same scopes both are resolved or neither is. When both are, every registry holds the
same keys with corresponding producers, every factory is linked to corresponding producers, and the
public exports correspond too. -/
theorem Host.Reachable.order_irrelevant {host host' : Host} (reachable : host.Reachable)
    (reachable' : host'.Reachable) {first second : Assembly}
    (current : host.assembly = some first) (current' : host'.assembly = some second)
    {moved : Equiv.Perm EntryId} (reorders : first.Reorders moved second) :
    ((∃ resolution, first.resolve = .ok resolution) ↔
        ∃ resolution', second.resolve = .ok resolution') ∧
      ∀ resolution resolution', first.resolve = .ok resolution →
        second.resolve = .ok resolution' →
        List.Forall₂ (Registry.Mirrors moved resolution.entries resolution'.entries)
            resolution.registries resolution'.registries ∧
          (∀ (id : EntryId) (entry : Entry), first.entries[id.index]? = some entry →
            List.Forall₂
              (fun link link' => (delegateTo resolution.entries link).Moves moved
                (delegateTo resolution'.entries link'))
              (resolution.links.getD id.index [])
              (resolution'.links.getD (moved id).index [])) ∧
          resolution.exports.Mirrors moved resolution.entries resolution'.entries
            resolution'.exports := by
  have wellFormed := reachable.sound.wellFormed first current
  have wellFormed' := reachable'.sound.wellFormed second current'
  refine ⟨⟨?_, ?_⟩, fun resolution resolution' resolved resolved' => ?_⟩
  · rintro ⟨resolution, resolved⟩
    have accepted := (Assembly.of_resolve resolved).1
    exact ⟨_, Assembly.resolve_of_accepted (reorders.accepted wellFormed wellFormed' accepted).1⟩
  · rintro ⟨resolution', resolved'⟩
    have accepted' := (Assembly.of_resolve resolved').1
    exact ⟨_, Assembly.resolve_of_accepted
      (reorders.symm.accepted wellFormed' wellFormed accepted').1⟩
  · obtain ⟨accepted, entries, registries, exports, links⟩ := Assembly.of_resolve resolved
    obtain ⟨-, entries', registries', exports', links'⟩ := Assembly.of_resolve resolved'
    have mirrored := (reorders.accepted wellFormed wellFormed' accepted).2
    rw [entries, registries, exports, links, entries', registries', exports', links']
    refine ⟨?_, fun id entry found => ?_, ?_⟩
    · exact mirrored.registries reorders
    · obtain ⟨entry', found', alike, home⟩ := reorders.exists_entry wellFormed wellFormed' id found
      refine Draft.forall₂_links (mirrored.sound.declared found) (mirrored.sound'.declared found')
        alike fun key => ?_
      rw [home]
      exact mirrored.nearest? reorders entry.scope key
    · exact Registry.mirrors_of_rows (mirrored.mirrors none) (mirrored.distinct none)
        (mirrored.distinct' none)

/-- A host that is about to build what is declared in its root scope. -/
def Host.arranged (declarations : List Declaration) : Host :=
  (Host.new.start (.named "outer")).declareEach declarations

theorem Host.reachable_arranged {declarations : List Declaration}
    (draws : ∀ offered, Declaration.DrawsEach offered declarations) :
    (arranged declarations).Reachable :=
  ⟨0, .head (.start _ _) (leads_declareEach _ _ draws)⟩

/-- The assembly that such a host is about to build. -/
def Assembly.arranged (declarations : List Declaration) : Assembly :=
  (Host.arranged declarations).assembly.getD (.new 0 (.named ""))

namespace Declaration

/-- The provider of a sum that a scope below exports. -/
def summing : Declaration := .provide (Signature.adding ⟨.u16, [.u8]⟩) []

/-- A number, exports of the number and of a sum, and the sum in a scope below. -/
def upward : List Declaration :=
  [.provide (.given (.ofParts .u8 7 "") none) [], .exportKey (.of .u8), .exportKey (.of .u16),
    .link "inner" ⟨"inner", .nothing⟩ fun _ => [summing, .exportAll]]

/-- The same in another order. -/
def downward : List Declaration :=
  [.link "inner" ⟨"inner", .nothing⟩ fun _ => [.exportAll, summing], .exportKey (.of .u16),
    .provide (.given (.ofParts .u8 7 "") none) [], .exportKey (.of .u8)]

end Declaration

namespace Assembly

theorem scopes_arranged_upward : (arranged Declaration.upward).scopes =
    [⟨"outer", none, [⟨1⟩], [⟨0⟩], [], [.same (.of .u8), .same (.of .u16)]⟩,
      ⟨"outer/inner", some .root, [], [⟨1⟩], [], [.all]⟩] := rfl

theorem scopes_arranged_downward : (arranged Declaration.downward).scopes =
    [⟨"outer", none, [⟨1⟩], [⟨1⟩], [], [.same (.of .u16), .same (.of .u8)]⟩,
      ⟨"outer/inner", some .root, [], [⟨0⟩], [], [.all]⟩] := rfl

theorem config_arranged_upward : (arranged Declaration.upward).config = .named "outer" := rfl

theorem config_arranged_downward : (arranged Declaration.downward).config = .named "outer" := rfl

theorem reorders_arranged :
    (arranged Declaration.upward).Reorders (Equiv.swap ⟨0⟩ ⟨1⟩)
      (arranged Declaration.downward) where
  config := config_arranged_downward.trans config_arranged_upward.symm
  scopes := by
    rw [scopes_arranged_upward, scopes_arranged_downward]
    exact .cons ⟨rfl, rfl, rfl, .refl _, .nil, .swap _ _ _⟩
      (.cons ⟨rfl, rfl, rfl, .refl _, .nil, .refl _⟩ .nil)
  entries id := by
    match id with
    | ⟨0⟩ => exact .some ⟨rfl, rfl, rfl⟩
    | ⟨1⟩ => exact .some ⟨rfl, rfl, rfl⟩
    | ⟨index + 2⟩ =>
      have kept : Equiv.swap (EntryId.mk 0) ⟨1⟩ ⟨index + 2⟩ = ⟨index + 2⟩ :=
        Equiv.swap_apply_of_ne_of_ne (by simp) (by simp)
      rw [kept]
      exact .none

end Assembly

theorem Host.order_irrelevant_sample :
    ∃ resolution resolution' : Resolution,
      (Assembly.arranged Declaration.upward).resolve = .ok resolution ∧
        (Assembly.arranged Declaration.downward).resolve = .ok resolution' ∧
        resolution.exports.Mirrors (Equiv.swap ⟨0⟩ ⟨1⟩) resolution.entries resolution'.entries
          resolution'.exports := by
  have reachable : (arranged Declaration.upward).Reachable :=
    reachable_arranged fun _ =>
      ⟨trivial, trivial, trivial, fun _ => ⟨trivial, trivial, trivial⟩, trivial⟩
  have reachable' : (arranged Declaration.downward).Reachable :=
    reachable_arranged fun _ =>
      ⟨fun _ => ⟨trivial, trivial, trivial⟩, trivial, trivial, trivial, trivial⟩
  have alike := reachable.order_irrelevant reachable' rfl rfl Assembly.reorders_arranged
  have resolved := Assembly.resolve_of_accepted
    (show (Assembly.arranged Declaration.upward).survey.accepted = true by decide +kernel)
  obtain ⟨resolution', resolved'⟩ := alike.1.mp ⟨_, resolved⟩
  exact ⟨_, resolution', resolved, resolved', (alike.2 _ _ resolved resolved').2.2⟩

end Wiring
