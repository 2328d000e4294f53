import Wiring.Proofs.Records

/-!
The order of exports. Every scope exports after all that stand below it, so what it holds when its
turn comes is what it holds in the end, and its receiver holds in the end all that it sends out.
-/

namespace Wiring

variable {scopes : List Scope} {depth : Nat} {scope other : ScopeId}

theorem mem_exportOrder_succ : other ∈ exportOrder scopes (depth + 1) scope ↔
    (∃ data, scopes[scope.index]? = some data ∧
      ∃ child ∈ data.children, other ∈ exportOrder scopes depth child) ∨ other = scope := by
  rw [exportOrder, List.mem_append, List.mem_singleton, List.mem_flatMap]
  cases scopes[scope.index]? <;> simp

theorem self_mem_exportOrder (scopes : List Scope) (depth : Nat) (scope : ScopeId) :
    scope ∈ exportOrder scopes depth scope := by
  cases depth with
  | zero => exact List.mem_singleton.mpr rfl
  | succ depth => exact mem_exportOrder_succ.mpr (.inr rfl)

/-- A deeper walk reaches no less. -/
theorem mem_exportOrder_of_le {deeper : Nat} (le : depth ≤ deeper)
    (member : other ∈ exportOrder scopes depth scope) :
    other ∈ exportOrder scopes deeper scope := by
  induction depth generalizing deeper scope with
  | zero =>
    obtain rfl := List.mem_singleton.mp member
    exact self_mem_exportOrder scopes deeper other
  | succ depth ih =>
    obtain ⟨deeper, rfl⟩ : ∃ less, deeper = less + 1 := ⟨deeper - 1, by omega⟩
    rcases mem_exportOrder_succ.mp member with ⟨data, here, child, among, below⟩ | rfl
    · exact mem_exportOrder_succ.mpr
        (.inl ⟨data, here, child, among, ih (Nat.le_of_succ_le_succ le) below⟩)
    · exact self_mem_exportOrder scopes _ other

/-- A walk that is one step deeper reaches the children too. -/
theorem child_mem_exportOrder {child : ScopeId} {data : Scope}
    (member : other ∈ exportOrder scopes depth scope)
    (here : scopes[other.index]? = some data) (among : child ∈ data.children) :
    child ∈ exportOrder scopes (depth + 1) scope := by
  induction depth generalizing scope with
  | zero =>
    obtain rfl := List.mem_singleton.mp member
    exact mem_exportOrder_succ.mpr
      (.inl ⟨data, here, child, among, self_mem_exportOrder scopes 0 child⟩)
  | succ depth ih =>
    rcases mem_exportOrder_succ.mp member with ⟨above, place, next, listed, below⟩ | rfl
    · exact mem_exportOrder_succ.mpr (.inl ⟨above, place, next, listed, ih below⟩)
    · exact mem_exportOrder_succ.mpr
        (.inl ⟨data, here, child, among, self_mem_exportOrder scopes (depth + 1) child⟩)

namespace Rooted

/-- What the walk from a scope reaches is the scope, or its parent is reached too. -/
theorem parent_mem_exportOrder (rooted : Rooted scopes)
    (member : other ∈ exportOrder scopes depth scope) : other = scope ∨
      ∃ data parent, scopes[other.index]? = some data ∧ data.parent = some parent ∧
        parent ∈ exportOrder scopes depth scope := by
  induction depth generalizing scope with
  | zero => exact .inl (List.mem_singleton.mp member)
  | succ depth ih =>
    rcases mem_exportOrder_succ.mp member with ⟨data, here, child, among, below⟩ | rfl
    · right
      rcases ih below with rfl | ⟨own, parent, place, above, reached⟩
      · obtain ⟨own, place, above⟩ := rooted.children scope.index data here other among
        exact ⟨own, scope, place, above, self_mem_exportOrder scopes _ scope⟩
      · exact ⟨own, parent, place, above,
          mem_exportOrder_succ.mpr (.inl ⟨data, here, child, among, reached⟩)⟩
    · exact .inl rfl

/-- What the walk from a scope reaches does not come before the scope. -/
theorem le_of_mem_exportOrder (rooted : Rooted scopes)
    (lower : ∀ (index : Nat) (scope : Scope), scopes[index]? = some scope →
      ∀ parent, scope.parent = some parent → parent.index < index)
    (member : other ∈ exportOrder scopes depth scope) : scope.index ≤ other.index := by
  induction depth generalizing scope with
  | zero => rw [List.mem_singleton.mp member]
  | succ depth ih =>
    rcases mem_exportOrder_succ.mp member with ⟨data, here, child, among, below⟩ | rfl
    · obtain ⟨own, place, above⟩ := rooted.children scope.index data here child among
      exact (Nat.le_of_lt (lower child.index own place scope above)).trans (ih below)
    · exact Nat.le_refl _

/-- Every scope is reached from the root. -/
theorem mem_exportOrder (rooted : Rooted scopes)
    (lower : ∀ (index : Nat) (scope : Scope), scopes[index]? = some scope →
      ∀ parent, scope.parent = some parent → parent.index < index)
    {index : Nat} {data : Scope} (here : scopes[index]? = some data) :
    ⟨index⟩ ∈ exportOrder scopes index .root := by
  induction index using Nat.strongRecOn generalizing data with
  | ind index ih =>
    cases above : data.parent with
    | none =>
      obtain rfl := rooted.root index data here above
      exact self_mem_exportOrder scopes 0 .root
    | some parent =>
      have less := lower index data here parent above
      obtain ⟨upper, place, among⟩ := rooted.parents index data here parent above
      have child := child_mem_exportOrder (ih parent.index less place) place among
      exact mem_exportOrder_of_le less child

end Rooted

namespace Row

variable {row row' more : Row}

/-- The row has every pair, or its key with the same producer. -/
def Holds (row more : Row) : Prop :=
  ∀ pair ∈ more, ∃ held, row.get? pair.1 = some held ∧ held.Same pair.2

theorem Agreeing.holds (agreeing : row.Agreeing more) : (row.receiveAll more).Holds more := by
  intro pair member
  obtain ⟨first, began⟩ := exists_of_mem_keys (List.mem_map.mpr ⟨pair, member, rfl⟩)
  obtain ⟨held, found⟩ : ∃ held, (row.receiveAll more).get? pair.1 = some held := by
    rw [get?_receiveAll, began]
    cases row.get? pair.1 with
    | none => exact ⟨first, rfl⟩
    | some held => exact ⟨held, rfl⟩
  exact ⟨held, found, agreeing_iff.mp agreeing pair member held found⟩

theorem Holds.mono (holds : row.Holds more)
    (kept : ∀ key target, row.get? key = some target → row'.get? key = some target) :
    row'.Holds more := by
  intro pair member
  obtain ⟨held, found, same⟩ := holds pair member
  exact ⟨held, kept _ _ found, same⟩

end Row

/-- What the walk from a child reaches comes after the parent. -/
theorem Assembly.WellFormed.lt_of_mem_exportOrder {offered : Pool → Prop} {assembly : Assembly}
    (wellFormed : assembly.WellFormed offered) {child : ScopeId} {data : Scope}
    (here : assembly.scopes[scope.index]? = some data) (among : child ∈ data.children)
    (reached : other ∈ exportOrder assembly.scopes depth child) : scope.index < other.index := by
  obtain ⟨own, place, above⟩ := wellFormed.tree.children scope.index data here child among
  exact (wellFormed.parents child.index own place scope above).trans_le
    (wellFormed.tree.le_of_mem_exportOrder wellFormed.parents reached)

/-- The exports of the scopes in turn. -/
abbrev Assembly.exportEach (assembly : Assembly) (draft : Draft) (order : List ScopeId) : Draft :=
  order.foldl (Draft.exportFrom assembly.scopes) draft

namespace Draft

variable {offered : Pool → Prop} {assembly : Assembly} {draft : Draft}

/-- What holds of a draft while the scopes export. -/
structure Exporting (assembly : Assembly) (draft : Draft) : Prop where
  sound : draft.Sound assembly
  claims : draft.Claims

/-- The receiver of a scope holds all that the scope sends out. -/
def Delivered (assembly : Assembly) (draft : Draft) (scope : ScopeId) : Prop :=
  ∀ data, assembly.scopes[scope.index]? = some data →
    (draft.rowOf data.parent).Holds (data.outward (draft.row scope))

/-- The scopes exported in turn: nothing that is held is lost, and only what exports to a receiver
changes what it holds. -/
structure Passes (assembly : Assembly) (before after : Draft) (order : List ScopeId) : Prop where
  exporting : Exporting assembly after
  accepted : after.diagnostics.isEmpty = true → before.diagnostics.isEmpty = true
  kept : ∀ receiver key target, (before.rowOf receiver).get? key = some target →
    (after.rowOf receiver).get? key = some target
  others : ∀ receiver, (∀ scope ∈ order, ∀ data, assembly.scopes[scope.index]? = some data →
    data.parent ≠ receiver) → after.rowOf receiver = before.rowOf receiver

theorem Passes.refl (exporting : Exporting assembly draft) : Passes assembly draft draft [] :=
  ⟨exporting, fun clean => clean, fun _ _ _ known => known, fun _ _ => rfl⟩

theorem Passes.trans {first second third : Draft} {order rest : List ScopeId}
    (passes : Passes assembly first second order) (onward : Passes assembly second third rest) :
    Passes assembly first third (order ++ rest) where
  exporting := onward.exporting
  accepted clean := passes.accepted (onward.accepted clean)
  kept receiver key target known := onward.kept _ _ _ (passes.kept receiver key target known)
  others receiver apart := by
    rw [onward.others receiver fun scope member => apart scope (List.mem_append_right _ member),
      passes.others receiver fun scope member => apart scope (List.mem_append_left _ member)]

theorem Exporting.exportFrom (exporting : Exporting assembly draft)
    (wellFormed : assembly.WellFormed offered) (scope : ScopeId) :
    Passes assembly draft (draft.exportFrom assembly.scopes scope) [scope] := by
  obtain ⟨sound, grows⟩ := evolves_exportFrom wellFormed scope draft exporting.sound
  cases here : assembly.scopes[scope.index]? with
  | none =>
    have unchanged : draft.exportFrom assembly.scopes scope = draft := by
      simp only [Draft.exportFrom, here]
    rw [unchanged]
    exact ⟨exporting, fun clean => clean, fun _ _ _ known => known, fun _ _ => rfl⟩
  | some data =>
    obtain ⟨exports, claims⟩ := exporting.claims.exportFrom exporting.sound wellFormed here
    refine ⟨⟨sound, claims⟩, grows.accepted, fun receiver key target known => ?_,
      fun receiver apart => ?_⟩
    · by_cases receives : receiver = data.parent
      · rw [receives] at known ⊢
        rw [exports.row, Row.get?_receiveAll, known]
        rfl
      · rwa [exports.others receiver receives]
    · exact exports.others receiver (Ne.symm (apart scope (List.mem_singleton.mpr rfl) data here))

theorem Exporting.exportEach (exporting : Exporting assembly draft)
    (wellFormed : assembly.WellFormed offered) (order : List ScopeId) :
    Passes assembly draft (assembly.exportEach draft order) order := by
  induction order generalizing draft with
  | nil => exact .refl exporting
  | cons scope rest ih =>
    have first := exporting.exportFrom wellFormed scope
    exact first.trans (ih first.exporting)

/-- What was delivered stays so while nothing exports to the scope. -/
theorem Delivered.exportEach {scope : ScopeId} (delivered : Delivered assembly draft scope)
    (exporting : Exporting assembly draft) (wellFormed : assembly.WellFormed offered)
    {order : List ScopeId} (apart : ∀ other ∈ order, ∀ data,
      assembly.scopes[other.index]? = some data → data.parent ≠ some scope) :
    Delivered assembly (assembly.exportEach draft order) scope := by
  have passes := exporting.exportEach wellFormed order
  intro data here
  have row : (assembly.exportEach draft order).row scope = draft.row scope :=
    passes.others (some scope) apart
  rw [row]
  exact (delivered data here).mono (passes.kept data.parent)

/-- A scope that exports without a problem delivers what it sends out. -/
theorem Exporting.delivered (exporting : Exporting assembly draft)
    (wellFormed : assembly.WellFormed offered) (scope : ScopeId)
    (clean : (draft.exportFrom assembly.scopes scope).diagnostics.isEmpty = true) :
    Delivered assembly (draft.exportFrom assembly.scopes scope) scope := by
  intro data here
  obtain ⟨exports, -⟩ := exporting.claims.exportFrom exporting.sound wellFormed here
  have apart : some scope ≠ data.parent := fun own =>
    absurd (wellFormed.parents scope.index data here scope own.symm) (Nat.lt_irrefl _)
  have row : (draft.exportFrom assembly.scopes scope).row scope = draft.row scope :=
    exports.others (some scope) apart
  rw [row, exports.row]
  exact (exports.accepted.mp clean).2.2.holds

/-- When a walk from each child delivers what it reaches, so do the walks from several children in
turn: a scope that was reached earlier is reached again or stays untouched. -/
theorem Exporting.delivered_children (exporting : Exporting assembly draft)
    (wellFormed : assembly.WellFormed offered) {scope : ScopeId} {depth : Nat} {data : Scope}
    (here : assembly.scopes[scope.index]? = some data)
    (each : ∀ child draft, Exporting assembly draft →
      (assembly.exportEach draft (exportOrder assembly.scopes depth child)).diagnostics.isEmpty =
        true → ∀ other ∈ exportOrder assembly.scopes depth child,
          Delivered assembly
            (assembly.exportEach draft (exportOrder assembly.scopes depth child)) other)
    {children : List ScopeId} (among : ∀ child ∈ children, child ∈ data.children)
    (clean : (assembly.exportEach draft
      (children.flatMap (exportOrder assembly.scopes depth))).diagnostics.isEmpty = true) :
    ∀ other ∈ children.flatMap (exportOrder assembly.scopes depth),
      Delivered assembly
        (assembly.exportEach draft (children.flatMap (exportOrder assembly.scopes depth)))
        other := by
  induction children generalizing draft with
  | nil => exact fun _ member => nomatch member
  | cons child rest ih =>
    rw [List.flatMap_cons, Assembly.exportEach, List.foldl_append] at clean ⊢
    have first := exporting.exportEach wellFormed (exportOrder assembly.scopes depth child)
    have onward := first.exporting.exportEach wellFormed
      (rest.flatMap (exportOrder assembly.scopes depth))
    have later := ih first.exporting (fun next member => among next (List.mem_cons_of_mem _ member))
      clean
    intro other member
    by_cases again : other ∈ rest.flatMap (exportOrder assembly.scopes depth)
    · exact later other again
    · have reached := (List.mem_append.mp member).resolve_right again
      have delivered := each child draft exporting (onward.accepted clean) other reached
      refine delivered.exportEach first.exporting wellFormed fun below listed own place above => ?_
      obtain ⟨next, after, walked⟩ := List.mem_flatMap.mp listed
      rcases wellFormed.tree.parent_mem_exportOrder walked with
        rfl | ⟨own', parent, place', above', up⟩
      · -- A child has the scope as its parent, which no walk from a child reaches.
        obtain ⟨own', place', top⟩ := wellFormed.tree.children scope.index data here below
          (among below (List.mem_cons_of_mem _ after))
        obtain rfl := Option.some.inj (place.symm.trans place')
        obtain rfl := Option.some.inj (above.symm.trans top)
        have lower :=
          wellFormed.lt_of_mem_exportOrder here (among child List.mem_cons_self) reached
        exact absurd lower (Nat.lt_irrefl _)
      · obtain rfl := Option.some.inj (place.symm.trans place')
        obtain rfl := Option.some.inj (above.symm.trans above')
        exact again (List.mem_flatMap.mpr ⟨next, after, up⟩)

/-- A walk without a problem delivers what every scope on the way sends out. -/
theorem Exporting.delivered_exportOrder (exporting : Exporting assembly draft)
    (wellFormed : assembly.WellFormed offered) {depth : Nat} {scope : ScopeId}
    (clean : (assembly.exportEach draft
      (exportOrder assembly.scopes depth scope)).diagnostics.isEmpty = true) :
    ∀ other ∈ exportOrder assembly.scopes depth scope,
      Delivered assembly (assembly.exportEach draft (exportOrder assembly.scopes depth scope))
        other := by
  induction depth generalizing draft scope with
  | zero =>
    intro other member
    obtain rfl := List.mem_singleton.mp member
    exact exporting.delivered wellFormed other clean
  | succ depth ih =>
    cases here : assembly.scopes[scope.index]? with
    | none =>
      have alone : exportOrder assembly.scopes (depth + 1) scope = [scope] := by
        rw [exportOrder, here]
        rfl
      rw [alone] at clean ⊢
      intro other member
      obtain rfl := List.mem_singleton.mp member
      exact exporting.delivered wellFormed other clean
    | some data =>
      have walks : exportOrder assembly.scopes (depth + 1) scope =
          data.children.flatMap (exportOrder assembly.scopes depth) ++ [scope] := by
        rw [exportOrder, here]
        rfl
      rw [walks, Assembly.exportEach, List.foldl_append] at clean ⊢
      have below := exporting.exportEach wellFormed
        (data.children.flatMap (exportOrder assembly.scopes depth))
      have last := below.exporting.exportFrom wellFormed scope
      have children := exporting.delivered_children wellFormed here
        (fun child draft exporting clean => ih exporting clean) (fun _ member => member)
        (last.accepted clean)
      intro other member
      by_cases self : other = scope
      · subst self
        exact below.exporting.delivered wellFormed other clean
      · have reached := (List.mem_append.mp member).resolve_right
          fun last => self (List.mem_singleton.mp last)
        refine (children other reached).exportEach below.exporting wellFormed
          fun only single data' place above => ?_
        obtain rfl := List.mem_singleton.mp single
        obtain ⟨child, among, walked⟩ := List.mem_flatMap.mp reached
        have after := wellFormed.lt_of_mem_exportOrder here among walked
        have before := wellFormed.parents only.index data' place other above
        exact absurd before (Nat.not_lt_of_gt after)

end Draft

namespace Assembly

variable {offered : Pool → Prop} {assembly : Assembly}

theorem exporting_populatedDraft (wellFormed : assembly.WellFormed offered) :
    Draft.Exporting assembly assembly.populatedDraft :=
  ⟨(populatedDraft_evolves wellFormed (orderedDraft_sound assembly)).1,
    (populatedDraft_bare wellFormed).2⟩

/-- When the exports are no problem, the receiver of every scope holds in the end what the scope
sends out. -/
theorem delivered_exportedDraft (wellFormed : assembly.WellFormed offered)
    (clean : assembly.exportedDraft.diagnostics.isEmpty = true) {index : Nat} {data : Scope}
    (here : assembly.scopes[index]? = some data) :
    Draft.Delivered assembly assembly.exportedDraft ⟨index⟩ := by
  have inside := (List.getElem?_eq_some_iff.mp here).1
  exact (exporting_populatedDraft wellFormed).delivered_exportOrder wellFormed clean ⟨index⟩
    (mem_exportOrder_of_le (Nat.le_of_lt inside)
      (wellFormed.tree.mem_exportOrder wellFormed.parents here))

end Assembly

end Wiring
