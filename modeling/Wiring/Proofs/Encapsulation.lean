import Wiring.Proofs.Correspondence
import Wiring.Proofs.Reaching
import Wiring.Proofs.Records
import Wiring.Stock

/-!
Encapsulation of scopes. What is declared in a scope and below it cannot be seen elsewhere, and
changes nothing elsewhere, unless the scope exports or another scope imports: two assemblies that
differ only there are resolved alike outside.
-/

namespace Wiring

/-- A scope is the given one, or stands below it. -/
inductive Under (scopes : List Scope) (top : ScopeId) : ScopeId → Prop
  | top : Under scopes top top
  | child {scope parent : ScopeId} {data : Scope} : scopes[scope.index]? = some data →
    data.parent = some parent → Under scopes top parent → Under scopes top scope

namespace Under

variable {scopes : List Scope} {first second third : ScopeId}

theorem trans (under : Under scopes first second) (onward : Under scopes second third) :
    Under scopes first third := by
  induction onward with
  | top => exact under
  | child here above _ ih => exact .child here above ih

/-- What stands below a scope does not come before it. -/
theorem le (lower : ∀ (index : Nat) (scope : Scope), scopes[index]? = some scope →
    ∀ parent, scope.parent = some parent → parent.index < index)
    (under : Under scopes first second) : first.index ≤ second.index := by
  induction under with
  | top => exact Nat.le_refl _
  | @child scope parent data here above _ ih =>
    exact ih.trans (Nat.le_of_lt (lower scope.index data here parent above))

/-- Of two scopes above a third one, one stands below the other. -/
theorem total (under : Under scopes first third) (under' : Under scopes second third) :
    Under scopes first second ∨ Under scopes second first := by
  induction under with
  | top => exact .inr under'
  | @child scope parent data here above onward ih =>
    cases under' with
    | top => exact .inl (.child here above onward)
    | child here' above' onward' =>
      obtain rfl := Option.some.inj (here.symm.trans here')
      obtain rfl := Option.some.inj (above.symm.trans above')
      exact ih onward'

/-- A scope that stands below a child of the given one stands below it. -/
theorem of_child {child : ScopeId} {data : Scope} (here : scopes[child.index]? = some data)
    (above : data.parent = some first) (under : Under scopes child second) :
    Under scopes first second :=
  trans (.child here above .top) under

end Under

namespace Assembly

/-- Two assemblies have the same scopes, and declare the same in every scope that is neither the
given one nor below it. -/
structure AgreeOutside (top : ScopeId) (first second : Assembly) : Prop where
  config : second.config = first.config
  tree : List.Forall₂ (fun scope scope' : Scope => scope'.name = scope.name ∧
    scope'.parent = scope.parent ∧ scope'.children = scope.children) first.scopes second.scopes
  outside : ∀ (index : Nat) (scope scope' : Scope), first.scopes[index]? = some scope →
    second.scopes[index]? = some scope' → ¬ Under first.scopes top ⟨index⟩ →
    scope'.imports = scope.imports ∧ scope'.exports = scope.exports ∧
      List.Forall₂ (fun id id' : EntryId =>
        Option.Rel Entry.Alike first.entries[id.index]? second.entries[id'.index]?)
        scope.declared scope'.declared

/-- The scope exports nothing, and no scope imports from it or from below it, unless it stands there
itself. -/
structure Sealed (top : ScopeId) (assembly : Assembly) : Prop where
  exports : ∀ data, assembly.scopes[top.index]? = some data → data.exports = []
  imports : ∀ (index : Nat) (data : Scope), assembly.scopes[index]? = some data →
    ¬ Under assembly.scopes top ⟨index⟩ → ∀ imported ∈ data.imports, ∀ source,
      imported.spec.source = .scope source → ¬ Under assembly.scopes top source

/-- Two entries are declared at the same place of the same scope outside. -/
def Counterparts (top : ScopeId) (first second : Assembly) (id id' : EntryId) : Prop :=
  ∃ (index : Nat) (scope scope' : Scope) (place : Nat), first.scopes[index]? = some scope ∧
    second.scopes[index]? = some scope' ∧ ¬ Under first.scopes top ⟨index⟩ ∧
    scope.declared[place]? = some id ∧ scope'.declared[place]? = some id'

/-- Producers correspond when they are declared at the same place outside, or come from one entry of
a built pool. -/
def Corresponds (top : ScopeId) (first second : Assembly) : Delegate → Delegate → Prop :=
  Delegate.Rel (Counterparts top first second) Eq

end Assembly

/-- What stands neither at a scope nor below it has no parent there. -/
theorem not_under_parent {scopes : List Scope} {top scope parent : ScopeId} {data : Scope}
    (outside : ¬ Under scopes top scope) (here : scopes[scope.index]? = some data)
    (above : data.parent = some parent) : ¬ Under scopes top parent :=
  fun under => outside (.child here above under)

namespace Assembly

variable {offered offered' : Pool → Prop} {top : ScopeId} {first second : Assembly}

/-- What is declared outside corresponds. -/
theorem AgreeOutside.declaredRow (agree : first.AgreeOutside top second) {index : Nat}
    {scope scope' : Scope} (here : first.scopes[index]? = some scope)
    (here' : second.scopes[index]? = some scope') (outside : ¬ Under first.scopes top ⟨index⟩) :
    (scope.declaredRow first.entries).Parallel (first.Corresponds top second)
      (scope'.declaredRow second.entries) := by
  have alike := (agree.outside index scope scope' here here' outside).2.2
  have counterparts (place : Nat) (id id' : EntryId) (at_ : scope.declared[place]? = some id)
      (at_' : scope'.declared[place]? = some id') : first.Counterparts top second id id' :=
    ⟨index, scope, scope', place, here, here', outside, at_, at_'⟩
  unfold Scope.declaredRow
  generalize scope.declared = declared at alike counterparts ⊢
  generalize scope'.declared = declared' at alike counterparts ⊢
  induction alike with
  | nil => exact .nil
  | @cons id id' rest rest' known _ ih =>
    have onward := ih fun place => counterparts (place + 1)
    have own := counterparts 0 id id' rfl rfl
    rw [List.filterMap_cons, List.filterMap_cons]
    generalize first.entries[id.index]? = entry at known ⊢
    generalize second.entries[id'.index]? = entry' at known ⊢
    cases known with
    | none => exact onward
    | some like => exact .cons ⟨like.key.symm, .entry own⟩ onward

/-- What is imported outside corresponds, when the rows of the scopes outside do. -/
theorem AgreeOutside.offers (agree : first.AgreeOutside top second) (closed : first.Sealed top)
    {rows rows' : ScopeId → Row} {index : Nat} {scope scope' : Scope}
    (here : first.scopes[index]? = some scope) (here' : second.scopes[index]? = some scope')
    (outside : ¬ Under first.scopes top ⟨index⟩)
    (parallel : ∀ source ∈ scope.scopeSources, ¬ Under first.scopes top ⟨source⟩ →
      (rows ⟨source⟩).Parallel (first.Corresponds top second) (rows' ⟨source⟩)) :
    (scope.offers first.entries rows).Parallel (first.Corresponds top second)
      (scope'.offers second.entries rows') := by
  have elsewhere := closed.imports index scope here outside
  have same := (agree.outside index scope scope' here here' outside).1
  refine List.rel_append (agree.declaredRow here here' outside) ?_
  rw [same]
  have brings (imported : Import) (member : imported ∈ scope.imports) :
      (imported.spec.source.row rows).Parallel (first.Corresponds top second)
        (imported.spec.source.row rows') := by
    cases taken : imported.spec.source with
    | scope source =>
      exact parallel source.index (Scope.mem_scopeSources member taken)
        (elsewhere imported member source taken)
    | pool built =>
      exact List.forall₂_map_left_iff.mpr (List.forall₂_map_right_iff.mpr
        (List.forall₂_same.mpr fun entry _ => ⟨rfl, .foreign rfl⟩))
  generalize scope.imports = imports at brings
  induction imports with
  | nil => exact .nil
  | cons imported rest ih =>
    exact List.rel_append ((brings imported List.mem_cons_self).keeps imported.spec)
      (ih fun other member => brings other (List.mem_cons_of_mem _ member))

/-- The scopes outside are filled alike. -/
theorem AgreeOutside.row_populatedDraft (agree : first.AgreeOutside top second)
    (closed : first.Sealed top) (wellFormed : first.WellFormed offered)
    (wellFormed' : second.WellFormed offered') (acyclic : importCycles first.scopes = [])
    (acyclic' : importCycles second.scopes = []) (scope : ScopeId)
    (outside : ¬ Under first.scopes top scope) :
    (first.populatedDraft.row scope).Parallel (first.Corresponds top second)
      (second.populatedDraft.row scope) := by
  obtain ⟨index⟩ := scope
  have ends := (importCycles_eq_nil wellFormed.contained).mp acyclic index
  induction ends with
  | intro index _ ih =>
    have tree := rel_getElem? agree.tree index
    cases here : first.scopes[index]? with
    | none =>
      rw [here] at tree
      have sound := (populatedDraft_evolves wellFormed (orderedDraft_sound first)).1
      have sound' := (populatedDraft_evolves wellFormed' (orderedDraft_sound second)).1
      have missing := eq_none_of_rel tree
      rw [sound.row_eq_nil here, sound'.row_eq_nil missing]
      exact .nil
    | some data =>
      rw [here] at tree
      obtain ⟨data', here', -⟩ := exists_of_rel_some tree
      rw [Assembly.row_populatedDraft wellFormed acyclic here,
        Assembly.row_populatedDraft wellFormed' acyclic' here']
      refine Row.Parallel.receiveAll .nil (agree.offers closed here here' outside ?_)
      intro source member apart
      refine ih source ?_ apart
      rwa [sourcesAt_of_getElem? here]

/-- What holds of two drafts side by side while the scopes export: outside, and in public, they hold
corresponding producers in the same order. -/
structure Alongside (top : ScopeId) (first second : Assembly) (draft draft' : Draft) : Prop where
  sound : draft.Sound first
  sound' : draft'.Sound second
  claims : draft.Claims
  claims' : draft'.Claims
  rows : ∀ receiver, (∀ scope, receiver = some scope → ¬ Under first.scopes top scope) →
    (draft.rowOf receiver).Parallel (first.Corresponds top second) (draft'.rowOf receiver)

/-- The exports of one scope keep what corresponds outside. -/
theorem AgreeOutside.exportFrom (agree : first.AgreeOutside top second) (closed : first.Sealed top)
    (closed' : second.Sealed top) (wellFormed : first.WellFormed offered)
    (wellFormed' : second.WellFormed offered') {draft draft' : Draft}
    (alongside : Alongside top first second draft draft') (scope : ScopeId) :
    Alongside top first second (draft.exportFrom first.scopes scope)
      (draft'.exportFrom second.scopes scope) := by
  have tree := rel_getElem? agree.tree scope.index
  cases here : first.scopes[scope.index]? with
  | none =>
    rw [here] at tree
    have missing := eq_none_of_rel tree
    unfold Draft.exportFrom
    simp only [here, missing]
    exact alongside
  | some data =>
    rw [here] at tree
    obtain ⟨data', here', -, parent, -⟩ := exists_of_rel_some tree
    obtain ⟨exports, claims⟩ := alongside.claims.exportFrom alongside.sound wellFormed here
    obtain ⟨exports', claims'⟩ := alongside.claims'.exportFrom alongside.sound' wellFormed' here'
    refine ⟨(Draft.evolves_exportFrom wellFormed scope draft alongside.sound).1,
      (Draft.evolves_exportFrom wellFormed' scope draft' alongside.sound').1, claims, claims',
      fun receiver outside => ?_⟩
    by_cases receives : receiver = data.parent
    · subst receives
      have before := alongside.rows data.parent outside
      rw [exports.row, ← parent, exports'.row, parent]
      refine before.receiveAll ?_
      by_cases inner : Under first.scopes top scope
      · -- Only the top of the subtree has its parent outside, and it exports nothing.
        cases inner with
        | top =>
          rw [Scope.outward, Scope.outward, closed.exports data here, closed'.exports data' here']
          exact .nil
        | child place above under =>
          obtain rfl := Option.some.inj (here.symm.trans place)
          exact absurd under (outside _ above)
      · have same := (agree.outside scope.index data data' here here' inner).2.1
        exact Row.Parallel.outward
          (alongside.rows (some scope) fun _ own => Option.some.inj own ▸ inner) same
    · rw [exports.others receiver receives, exports'.others receiver (by rwa [parent])]
      exact alongside.rows receiver outside

/-- When all exports are done, what is held outside and in public corresponds. -/
theorem AgreeOutside.exportedDraft (agree : first.AgreeOutside top second)
    (closed : first.Sealed top) (closed' : second.Sealed top)
    (wellFormed : first.WellFormed offered) (wellFormed' : second.WellFormed offered')
    (acyclic : importCycles first.scopes = []) (acyclic' : importCycles second.scopes = []) :
    Alongside top first second first.exportedDraft second.exportedDraft := by
  obtain ⟨bare, claims⟩ := populatedDraft_bare wellFormed
  obtain ⟨bare', claims'⟩ := populatedDraft_bare wellFormed'
  have populated : Alongside top first second first.populatedDraft second.populatedDraft := by
    refine ⟨(populatedDraft_evolves wellFormed (orderedDraft_sound first)).1,
      (populatedDraft_evolves wellFormed' (orderedDraft_sound second)).1, claims, claims',
      fun receiver outside => ?_⟩
    cases receiver with
    | some scope =>
      exact agree.row_populatedDraft closed wellFormed wellFormed' acyclic acyclic' scope
        (outside scope rfl)
    | none =>
      rw [Draft.rowOf, Draft.rowOf, bare, bare']
      exact .nil
  have order : exportOrder second.scopes second.scopes.length .root =
      exportOrder first.scopes first.scopes.length .root := by
    rw [← agree.tree.length_eq]
    exact exportOrder_congr (agree.tree.imp fun _ _ same => same.2.2) _ _
  unfold Assembly.exportedDraft
  rw [order]
  generalize exportOrder first.scopes first.scopes.length .root = scopes
  revert populated
  generalize first.populatedDraft = draft
  generalize second.populatedDraft = draft'
  intro populated
  induction scopes generalizing draft draft' with
  | nil => exact populated
  | cons scope rest ih =>
    exact ih _ _ (agree.exportFrom closed closed' wellFormed wellFormed' populated scope)

/-- The links of what is declared at the same place outside correspond. -/
theorem AgreeOutside.links_exportedDraft (agree : first.AgreeOutside top second)
    (wellFormed : first.WellFormed offered) (wellFormed' : second.WellFormed offered')
    (alongside : Alongside top first second first.exportedDraft second.exportedDraft)
    {id id' : EntryId} (counterparts : first.Counterparts top second id id') :
    List.Forall₂
      (fun link link' => first.Corresponds top second
        (delegateTo first.exportedDraft.entries link)
        (delegateTo second.exportedDraft.entries link'))
      (first.exportedDraft.links.getD id.index [])
      (second.exportedDraft.links.getD id'.index []) := by
  obtain ⟨index, scope, scope', place, here, here', outside, listed, listed'⟩ := counterparts
  have declared := rel_getElem? (agree.outside index scope scope' here here' outside).2.2 place
  rw [listed, listed'] at declared
  obtain ⟨entry, found, home⟩ :=
    wellFormed.listed index scope here id (List.mem_of_getElem? listed)
  obtain ⟨entry', found', home'⟩ :=
    wellFormed'.listed index scope' here' id' (List.mem_of_getElem? listed')
  have alike : entry.Alike entry' := by
    rwa [Option.rel_some_some, found, found', Option.rel_some_some] at declared
  refine Draft.forall₂_links (alongside.sound.declared found) (alongside.sound'.declared found')
    alike fun key => ?_
  rw [home, home']
  exact Draft.rel_nearest? alongside.sound alongside.sound'
    (agree.tree.imp fun _ _ same => same.2.1) (fun scope => ¬ Under first.scopes top scope)
    (fun scope data parent apart place above => not_under_parent apart place above)
    (fun scope apart => (alongside.rows (some scope)
      fun _ own => Option.some.inj own ▸ apart).rel_get?) outside key

end Assembly

/-- Nothing that is declared in a sealed scope or below it is visible elsewhere, or changes what is
visible elsewhere. When two assemblies that agree on all other scopes are both resolved, the
registries of those scopes hold corresponding producers under the same keys in the same order, what
is declared there is linked to corresponding producers, and so are the public exports. -/
theorem Host.Reachable.encapsulates {host host' : Host} (reachable : host.Reachable)
    (reachable' : host'.Reachable) {first second : Assembly}
    (current : host.assembly = some first) (current' : host'.assembly = some second)
    {top : ScopeId} (agree : first.AgreeOutside top second) (closed : first.Sealed top)
    (closed' : second.Sealed top) {resolution resolution' : Resolution}
    (resolved : first.resolve = .ok resolution)
    (resolved' : second.resolve = .ok resolution') :
    (∀ index : Nat, index < first.scopes.length → ¬ Under first.scopes top ⟨index⟩ →
      ∃ registry registry' : Registry, resolution.registries[index]? = some registry ∧
        resolution'.registries[index]? = some registry' ∧
        (registry.row resolution.entries).Parallel (first.Corresponds top second)
          (registry'.row resolution'.entries)) ∧
      (∀ (index place : Nat) (scope scope' : Scope) (id : EntryId),
        first.scopes[index]? = some scope → second.scopes[index]? = some scope' →
        ¬ Under first.scopes top ⟨index⟩ → scope.declared[place]? = some id →
        ∃ id', scope'.declared[place]? = some id' ∧ List.Forall₂
          (fun link link' => first.Corresponds top second (delegateTo resolution.entries link)
            (delegateTo resolution'.entries link'))
          (resolution.links.getD id.index []) (resolution'.links.getD id'.index [])) ∧
      (resolution.exports.row resolution.entries).Parallel (first.Corresponds top second)
        (resolution'.exports.row resolution'.entries) := by
  have wellFormed := reachable.sound.wellFormed first current
  have wellFormed' := reachable'.sound.wellFormed second current'
  obtain ⟨accepted, entries, registries, exports, links⟩ := Assembly.of_resolve resolved
  obtain ⟨accepted', entries', registries', exports', links'⟩ := Assembly.of_resolve resolved'
  have acyclic := ((Assembly.populatedDraft_isEmpty wellFormed).mp
    (Assembly.populatedDraft_accepted wellFormed accepted)).1
  have acyclic' := ((Assembly.populatedDraft_isEmpty wellFormed').mp
    (Assembly.populatedDraft_accepted wellFormed' accepted')).1
  have alongside := agree.exportedDraft closed closed' wellFormed wellFormed' acyclic acyclic'
  refine ⟨fun index inside outside => ?_,
    fun index place scope scope' id here here' outside listed => ?_, ?_⟩
  · have rows := alongside.rows (some ⟨index⟩) fun _ own => Option.some.inj own ▸ outside
    have inside' : index < second.scopes.length := agree.tree.length_eq ▸ inside
    have held := alongside.sound.getElem?_registries ⟨index⟩
    have held' := alongside.sound'.getElem?_registries ⟨index⟩
    rw [List.getElem?_eq_getElem inside] at held
    rw [List.getElem?_eq_getElem inside'] at held'
    rw [registries, registries', entries, entries']
    exact ⟨_, _, held, held', rows⟩
  · have declared := rel_getElem? (agree.outside index scope scope' here here' outside).2.2 place
    rw [listed] at declared
    obtain ⟨id', listed', -⟩ := exists_of_rel_some declared
    rw [entries, entries', links, links']
    exact ⟨id', listed', agree.links_exportedDraft wellFormed wellFormed' alongside
      ⟨index, scope, scope', place, here, here', outside, listed, listed'⟩⟩
  · rw [entries, entries', exports, exports']
    exact alongside.rows none nofun

/-- A host that is about to build a number in its root scope, from where it is exported, and a scope
below with the given declarations. -/
def Host.nested (inner : List Declaration) : Host :=
  (Host.new.start (.named "outer")).declareEach
    [.provide (.given (.ofParts .u8 7 "") none) [], .exportAll,
      .link "inner" ⟨"inner", .nothing⟩ fun _ => inner]

theorem Host.reachable_nested {inner : List Declaration}
    (draws : ∀ offered, Declaration.DrawsEach offered inner) : (nested inner).Reachable :=
  ⟨0, .head (.start _ _) (leads_declareEach _ _ fun offered =>
    ⟨trivial, trivial, fun _ => draws offered, trivial⟩)⟩

/-- The assembly that such a host is about to build. -/
def Assembly.nested (inner : List Declaration) : Assembly :=
  (Host.nested inner).assembly.getD (.new 0 (.named ""))

/-- A scope with a number of its own. -/
def Declaration.alone : List Declaration := [.provide (.given (.ofParts .u16 1 "") none) []]

/-- A scope with another number, and with all that the root scope provides. -/
def Declaration.together : List Declaration :=
  [.importFrom (.scope .root) [], .provide (.given (.ofParts .u32 2 "") none) []]

namespace Assembly

theorem scopes_nested_alone : (nested Declaration.alone).scopes =
    [⟨"outer", none, [⟨1⟩], [⟨0⟩], [], [.all]⟩,
      ⟨"outer/inner", some .root, [], [⟨1⟩], [], []⟩] := rfl

theorem scopes_nested_together : (nested Declaration.together).scopes =
    [⟨"outer", none, [⟨1⟩], [⟨0⟩], [], [.all]⟩,
      ⟨"outer/inner", some .root, [], [⟨1⟩], [⟨⟨.scope .root, []⟩, some "inner"⟩], []⟩] := rfl

theorem config_nested_alone : (nested Declaration.alone).config = .named "outer" := rfl

theorem config_nested_together : (nested Declaration.together).config = .named "outer" := rfl

theorem not_under_nested : ¬ Under (nested Declaration.alone).scopes ⟨1⟩ .root := by
  intro under
  cases under with
  | child place above _ =>
    obtain rfl := Option.some.inj place
    cases above

theorem agreeOutside_nested :
    (nested Declaration.alone).AgreeOutside ⟨1⟩ (nested Declaration.together) where
  config := config_nested_together.trans config_nested_alone.symm
  tree := by
    rw [scopes_nested_alone, scopes_nested_together]
    exact .cons ⟨rfl, rfl, rfl⟩ (.cons ⟨rfl, rfl, rfl⟩ .nil)
  outside index scope scope' here here' outside := by
    match index with
    | 0 =>
      obtain rfl := Option.some.inj here
      obtain rfl := Option.some.inj here'
      exact ⟨rfl, rfl, .cons (.some ⟨rfl, rfl, rfl⟩) .nil⟩
    | 1 => exact absurd .top outside
    | index + 2 => cases here

theorem sealed_nested_alone : (nested Declaration.alone).Sealed ⟨1⟩ where
  exports data here := by
    obtain rfl := Option.some.inj here
    rfl
  imports index data here outside imported member := by
    match index with
    | 0 =>
      obtain rfl := Option.some.inj here
      cases member
    | 1 => exact absurd .top outside
    | index + 2 => cases here

theorem sealed_nested_together : (nested Declaration.together).Sealed ⟨1⟩ where
  exports data here := by
    obtain rfl := Option.some.inj here
    rfl
  imports index data here outside imported member := by
    match index with
    | 0 =>
      obtain rfl := Option.some.inj here
      cases member
    | 1 => exact absurd .top outside
    | index + 2 => cases here

end Assembly

theorem Host.encapsulates_sample :
    ∃ (resolution resolution' : Resolution) (registry registry' : Registry),
      (Assembly.nested Declaration.alone).resolve = .ok resolution ∧
        (Assembly.nested Declaration.together).resolve = .ok resolution' ∧
        resolution.registries[0]? = some registry ∧
        resolution'.registries[0]? = some registry' ∧
        (registry.row resolution.entries).Parallel
          ((Assembly.nested Declaration.alone).Corresponds ⟨1⟩
            (Assembly.nested Declaration.together))
          (registry'.row resolution'.entries) := by
  have reachable : (nested Declaration.alone).Reachable :=
    reachable_nested fun _ => ⟨trivial, trivial⟩
  have reachable' : (nested Declaration.together).Reachable :=
    reachable_nested fun _ => ⟨fun _ same => (nomatch same), trivial, trivial⟩
  have resolved := Assembly.resolve_of_accepted
    (show (Assembly.nested Declaration.alone).survey.accepted = true by decide +kernel)
  have resolved' := Assembly.resolve_of_accepted
    (show (Assembly.nested Declaration.together).survey.accepted = true by decide +kernel)
  obtain ⟨registry, registry', held, held', parallel⟩ := (reachable.encapsulates reachable' rfl rfl
    Assembly.agreeOutside_nested Assembly.sealed_nested_alone Assembly.sealed_nested_together
    resolved resolved').1 0 (by decide +kernel) Assembly.not_under_nested
  exact ⟨_, _, registry, registry', resolved, resolved', held, held', parallel⟩

end Wiring
