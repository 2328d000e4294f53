import Wiring.Proofs.Changes
import Wiring.Proofs.Encapsulation
import Wiring.Proofs.ExportOrder

/-!
The turns of the scopes in the order of exports. Every scope has one turn, after all that stand
below it, and from its turn on its registry stays as it is: each scope exports once, out of the
registry that it has in the end.
-/

namespace Wiring

variable {scopes : List Scope} {depth : Nat} {scope other : ScopeId}

/-- What the walk from a scope reaches stands below it. -/
theorem Rooted.under_of_mem_exportOrder (rooted : Rooted scopes)
    (member : other ∈ exportOrder scopes depth scope) : Under scopes scope other := by
  induction depth generalizing scope with
  | zero =>
    rw [List.mem_singleton.mp member]
    exact .top
  | succ depth ih =>
    rcases mem_exportOrder_succ.mp member with ⟨data, here, child, among, below⟩ | rfl
    · obtain ⟨own, place, above⟩ := rooted.children scope.index data here child among
      exact (ih below).of_child place above
    · exact .top

namespace Assembly

variable {offered : Pool → Prop} {assembly : Assembly}

/-- Of two children of a scope none stands below the other. -/
theorem WellFormed.not_under_sibling (wellFormed : assembly.WellFormed offered)
    {parent first second : ScopeId} {data data' : Scope}
    (here : assembly.scopes[first.index]? = some data) (above : data.parent = some parent)
    (here' : assembly.scopes[second.index]? = some data') (above' : data'.parent = some parent)
    (different : first ≠ second) : ¬ Under assembly.scopes first second := by
  intro under
  cases under with
  | top => exact different rfl
  | child place top onward =>
    obtain rfl := Option.some.inj (place.symm.trans here')
    obtain rfl := Option.some.inj (top.symm.trans above')
    have lower := wellFormed.parents first.index data here _ above
    exact absurd (onward.le wellFormed.parents) (Nat.not_le_of_lt lower)

/-- Nothing comes in the order of exports before what stands below it. -/
theorem Ordered.pairwise_exportOrder (ordered : assembly.Ordered)
    (wellFormed : assembly.WellFormed offered) (depth : Nat) (scope : ScopeId) :
    (exportOrder assembly.scopes depth scope).Pairwise
      fun earlier later => ¬ Under assembly.scopes earlier later := by
  induction depth generalizing scope with
  | zero => exact List.pairwise_singleton _ _
  | succ depth ih =>
    rw [exportOrder]
    cases here : assembly.scopes[scope.index]? with
    | none => exact List.pairwise_singleton _ _
    | some data =>
      rw [Option.map_some, Option.getD_some]
      refine List.pairwise_append.mpr ⟨List.pairwise_flatMap.mpr ⟨fun child _ => ih child, ?_⟩,
        List.pairwise_singleton _ _, fun earlier member last single under => ?_⟩
      · refine (ordered.children data (List.mem_of_getElem? here)).1.imp_of_mem ?_
        intro first second among among' before earlier member later member' under
        obtain ⟨own, place, above⟩ :=
          wellFormed.tree.children scope.index data here first among
        obtain ⟨own', place', above'⟩ :=
          wellFormed.tree.children scope.index data here second among'
        have below := (wellFormed.tree.under_of_mem_exportOrder member).trans under
        have below' := wellFormed.tree.under_of_mem_exportOrder member'
        have different : first ≠ second := fun same => Nat.ne_of_lt before (congrArg _ same)
        rcases below.total below' with stands | stands
        · exact wellFormed.not_under_sibling place above place' above' different stands
        · exact wellFormed.not_under_sibling place' above' place above different.symm stands
      · obtain rfl := List.mem_singleton.mp single
        obtain ⟨child, among, reached⟩ := List.mem_flatMap.mp member
        have after := wellFormed.lt_of_mem_exportOrder here among reached
        exact absurd (under.le wellFormed.parents) (Nat.not_le_of_lt after)

/-- Every scope has a turn. -/
theorem Ordered.mem_exportOrder (ordered : assembly.Ordered)
    (wellFormed : assembly.WellFormed offered) {scope : ScopeId} :
    scope ∈ exportOrder assembly.scopes assembly.scopes.length .root ↔
      scope.index < assembly.scopes.length := by
  constructor
  · intro member
    rcases wellFormed.tree.parent_mem_exportOrder member with rfl | ⟨data, parent, here, -, -⟩
    · exact ordered.root
    · exact (List.getElem?_eq_some_iff.mp here).1
  · intro inside
    exact mem_exportOrder_of_le (Nat.le_of_lt inside)
      (wellFormed.tree.mem_exportOrder wellFormed.parents (List.getElem?_eq_getElem inside))

end Assembly

namespace Draft

variable {offered : Pool → Prop} {assembly : Assembly} {draft : Draft}

/-- From one draft to the next no registry changed but that of the receiver, and no export was
recorded as one that finds nothing. -/
structure Spares (before after : Draft) (receiver : Option ScopeId) : Prop where
  registry : ∀ other, receiver ≠ some other → after.registry other = before.registry other
  unresolvedExports : after.diagnostics.unresolvedExports = before.diagnostics.unresolvedExports

theorem Spares.trans {first second third : Draft} {receiver : Option ScopeId}
    (spares : first.Spares second receiver) (onward : second.Spares third receiver) :
    first.Spares third receiver where
  registry other apart := (onward.registry other apart).trans (spares.registry other apart)
  unresolvedExports := onward.unresolvedExports.trans spares.unresolvedExports

theorem spares_register (draft : Draft) (scopes : List Scope) (scope : ScopeId) (key : Key)
    (id : EntryId) : draft.Spares (draft.register scopes scope key id) (some scope) := by
  unfold register Registry.put
  cases (draft.registry scope).get? key with
  | some existing => exact ⟨fun _ _ => rfl, rfl⟩
  | none =>
    refine ⟨fun other apart => ?_, rfl⟩
    dsimp only
    rw [registry_set, if_neg]
    rintro ⟨same, -⟩
    exact apart (congrArg (some ∘ ScopeId.mk) same)

theorem spares_publish (draft : Draft) (scopes : List Scope) (key : Key) (id : EntryId) :
    draft.Spares (draft.publish scopes key id) none := by
  unfold publish Registry.put
  cases draft.exports.get? key <;> exact ⟨fun _ _ => rfl, rfl⟩

theorem spares_deliver (draft : Draft) (scopes : List Scope) (data : Scope) (scope : ScopeId)
    (candidate : Candidate) :
    draft.Spares (draft.deliver scopes data scope candidate) data.parent := by
  have pushed (entry : Entry) (receiver : Option ScopeId) :
      draft.Spares (draft.push entry).2 receiver := ⟨fun _ _ => rfl, rfl⟩
  unfold deliver
  cases data.parent with
  | some parent => exact (pushed _ _).trans (spares_register _ scopes parent _ _)
  | none => exact (pushed _ _).trans (spares_publish _ scopes _ _)

/-- A candidate that leaves its scope changes no registry but that of the parent. -/
theorem spares_send (draft : Draft) (scopes : List Scope) (data : Scope) (scope : ScopeId)
    (candidate : Candidate) :
    draft.Spares (draft.send scopes data scope candidate) data.parent := by
  unfold send
  split
  · split <;> exact ⟨fun _ _ => rfl, rfl⟩
  · dsimp only
    split
    · exact ⟨fun _ _ => rfl, rfl⟩
    · exact ⟨(spares_deliver _ scopes data scope candidate).registry,
        (spares_deliver _ scopes data scope candidate).unresolvedExports⟩

theorem spares_sendEach (draft : Draft) (scopes : List Scope) (data : Scope) (scope : ScopeId)
    (candidates : List Candidate) :
    draft.Spares (candidates.foldl (send scopes data scope) draft) data.parent := by
  induction candidates generalizing draft with
  | nil => exact ⟨fun _ _ => rfl, rfl⟩
  | cons candidate rest ih => exact (draft.spares_send scopes data scope candidate).trans (ih _)

/-- The exports of a scope change no registry but that of the parent. -/
theorem registry_exportFrom (draft : Draft) (scopes : List Scope) (scope : ScopeId)
    {other : ScopeId} (apart : ∀ data, scopes[scope.index]? = some data →
      data.parent ≠ some other) :
    (draft.exportFrom scopes scope).registry other = draft.registry other := by
  unfold exportFrom
  cases here : scopes[scope.index]? with
  | none => rfl
  | some data =>
    have selected := (selectEach_sends data scope data.exports ([], draft)).1
    dsimp only
    generalize data.exports.foldl (select data scope) ([], draft) = selection at selected ⊢
    obtain ⟨candidates, middle⟩ := selection
    have before : middle.registry other = draft.registry other := by
      unfold registry
      rw [selected.registries]
    exact ((middle.spares_sendEach scopes data scope candidates).registry other
      (apart data here)).trans before

theorem registry_exportEach (draft : Draft) (assembly : Assembly) {order : List ScopeId}
    {other : ScopeId} (apart : ∀ scope ∈ order, ∀ data,
      assembly.scopes[scope.index]? = some data → data.parent ≠ some other) :
    (assembly.exportEach draft order).registry other = draft.registry other := by
  induction order generalizing draft with
  | nil => rfl
  | cons scope rest ih =>
    exact (ih _ fun later member => apart later (List.mem_cons_of_mem _ member)).trans
      (draft.registry_exportFrom assembly.scopes scope (apart scope List.mem_cons_self))

theorem sound_exportEach (sound : draft.Sound assembly) (wellFormed : assembly.WellFormed offered)
    (order : List ScopeId) :
    (assembly.exportEach draft order).Sound assembly ∧
      draft.Grows (assembly.exportEach draft order) :=
  evolves_foldl _ order (fun scope _ middle => evolves_exportFrom wellFormed scope middle) draft
    sound

end Draft

namespace Assembly

variable {offered : Pool → Prop} {assembly : Assembly}

/-- When the turn of a scope comes, all that stand below it had their turns, and its registry is
what it will be in the end. -/
theorem Ordered.turn (ordered : assembly.Ordered) (wellFormed : assembly.WellFormed offered)
    {before after : List ScopeId} {scope : ScopeId}
    (order : exportOrder assembly.scopes assembly.scopes.length .root =
      before ++ scope :: after) :
    (∀ below, Under assembly.scopes scope below → below ≠ scope → below ∈ before) ∧
      (assembly.exportEach assembly.populatedDraft before).registry scope =
        assembly.exportedDraft.registry scope := by
  have sorted :=
    ordered.pairwise_exportOrder wellFormed assembly.scopes.length .root
  rw [order, List.pairwise_append, List.pairwise_cons] at sorted
  obtain ⟨-, ⟨later, -⟩, -⟩ := sorted
  refine ⟨fun below under different => ?_, ?_⟩
  · have member : below ∈ before ++ scope :: after := by
      rw [← order, ordered.mem_exportOrder wellFormed]
      cases under with
      | top => exact absurd rfl different
      | child here _ _ => exact (List.getElem?_eq_some_iff.mp here).1
    rcases List.mem_append.mp member with earlier | rest
    · exact earlier
    · rcases List.mem_cons.mp rest with here | after
      · exact absurd here different
      · exact absurd under (later below after)
  · unfold exportedDraft
    rw [order, List.foldl_append]
    refine (Draft.registry_exportEach _ assembly fun other member data here above => ?_).symm
    rcases List.mem_cons.mp member with rfl | rest
    · exact absurd (wellFormed.parents other.index data here other above) (Nat.lt_irrefl _)
    · exact later other rest (.child here above .top)

/-- The row of a scope at its turn is the one that it has in the end. -/
theorem Ordered.row_turn (ordered : assembly.Ordered) (wellFormed : assembly.WellFormed offered)
    {before after : List ScopeId} {scope : ScopeId}
    (order : exportOrder assembly.scopes assembly.scopes.length .root =
      before ++ scope :: after) :
    (assembly.exportEach assembly.populatedDraft before).row scope =
      assembly.exportedDraft.row scope := by
  have populated := (populatedDraft_evolves wellFormed (orderedDraft_sound assembly)).1
  have middle := (Draft.sound_exportEach populated wellFormed before).1
  have grows : (assembly.exportEach assembly.populatedDraft before).entries <+:
      assembly.exportedDraft.entries := by
    unfold exportedDraft
    rw [order, List.foldl_append]
    exact (Draft.sound_exportEach middle wellFormed (scope :: after)).2.entries
  unfold Draft.row
  rw [← Registry.row_of_grown (middle.holds_registry scope) grows,
    (ordered.turn wellFormed order).2]

end Assembly

end Wiring
