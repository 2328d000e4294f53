import Wiring.Proofs.Exports

/-!
Two resolutions side by side. Their rows correspond when they hold corresponding producers under the
same keys, in the same order or in any order. What is done to rows keeps that, and so does a lookup
along the chain of the scopes.
-/

namespace Wiring

/-- Two providers are declared alike: of one kind, under one key and with the same dependencies. -/
structure Entry.Alike (first second : Entry) : Prop where
  key : second.key = first.key
  kind : second.origin.kind = first.origin.kind
  dependencies : second.dependencies = first.dependencies

/-- Producers of two assemblies correspond when their entries do. -/
inductive Delegate.Rel (entries : EntryId → EntryId → Prop)
    (imports : RuntimeEntry → RuntimeEntry → Prop) : Delegate → Delegate → Prop
  | entry {left right : EntryId} :
    entries left right → Rel entries imports (.entry left) (.entry right)
  | foreign {left right : RuntimeEntry} :
    imports left right → Rel entries imports (.foreign left) (.foreign right)

namespace Row

variable {fits : Delegate → Delegate → Prop} {left right more more' : Row}

/-- Two rows hold fitting producers under the same keys in the same order. -/
def Parallel (fits : Delegate → Delegate → Prop) (left right : Row) : Prop :=
  List.Forall₂ (fun first second => first.1 = second.1 ∧ fits first.2 second.2) left right

theorem Parallel.keys_eq (parallel : left.Parallel fits right) : left.keys = right.keys := by
  induction parallel with
  | nil => rfl
  | cons first _ ih => exact congrArg₂ List.cons first.1 ih

theorem Parallel.rel_get? (parallel : left.Parallel fits right) (key : Key) :
    Option.Rel fits (left.get? key) (right.get? key) :=
  rel_find?_of_keyed parallel (fun _ _ fit => fit.1.symm) fun _ _ fit _ => fit.2

theorem Parallel.receive (parallel : left.Parallel fits right) {first second : Key × Delegate}
    (same : first.1 = second.1) (fit : fits first.2 second.2) :
    (left.receive first).Parallel fits (right.receive second) := by
  unfold Row.receive
  rw [parallel.keys_eq, same]
  split
  · exact parallel
  · exact List.rel_append parallel (.cons ⟨same, fit⟩ .nil)

/-- Rows that correspond still do after they have received rows that correspond. -/
theorem Parallel.receiveAll (parallel : left.Parallel fits right)
    (onward : more.Parallel fits more') :
    (left.receiveAll more).Parallel fits (right.receiveAll more') := by
  induction onward generalizing left right with
  | nil => exact parallel
  | cons first _ ih => exact ih (parallel.receive first.1 first.2)

theorem Parallel.keeps (parallel : left.Parallel fits right) (spec : ImportSpec) :
    (spec.keeps left).Parallel fits (spec.keeps right) := by
  unfold ImportSpec.keeps
  induction parallel with
  | nil => exact .nil
  | @cons first second _ _ here _ ih =>
    rw [List.filterMap_cons, List.filterMap_cons, here.1]
    cases spec.apply second.1 with
    | none => exact ih
    | some key => exact .cons ⟨rfl, here.2⟩ ih

/-- Rows that correspond send out rows that correspond. -/
theorem Parallel.outward (parallel : left.Parallel fits right) {scope scope' : Scope}
    (same : scope'.exports = scope.exports) :
    (scope.outward left).Parallel fits (scope'.outward right) := by
  unfold Scope.outward
  rw [same]
  induction scope.exports with
  | nil => exact .nil
  | cons spec rest ih =>
    refine List.rel_append ?_ ih
    cases spec with
    | all => exact parallel
    | keyed key exportAs =>
      unfold ExportSpec.sends
      dsimp only
      have found := parallel.rel_get? key
      generalize left.get? key = target at found ⊢
      generalize right.get? key = target' at found ⊢
      cases found with
      | none => exact .nil
      | some fit => exact .cons ⟨rfl, fit⟩ .nil

end Row

theorem Registry.rel_get?_row {fits : Delegate → Delegate → Prop} {entries entries' : List Entry}
    {first second : Registry} {key : Key} :
    Option.Rel fits ((first.row entries).get? key) ((second.row entries').get? key) ↔
      Option.Rel (fun left right => fits (delegateTo entries left) (delegateTo entries' right))
        (first.get? key) (second.get? key) := by
  rw [get?_row, get?_row]
  cases first.get? key <;> cases second.get? key <;> simp

/-- Registries that are alike have chains that are alike, when their parents are. -/
theorem Registry.forall₂_lineage {left right : List Registry} {alike : Registry → Registry → Prop}
    (upward : ∀ first second, alike first second → Option.Rel alike
      (first.parent.bind fun parent => left[parent.index]?)
      (second.parent.bind fun parent => right[parent.index]?))
    (length : Nat) {first second : Registry} (like : alike first second) :
    List.Forall₂ alike (lineage left length first) (lineage right length second) := by
  induction length generalizing first second with
  | zero => exact .cons like .nil
  | succ length ih =>
    have above := upward first second like
    unfold lineage
    generalize (first.parent.bind fun parent => left[parent.index]?) = upper at above ⊢
    generalize (second.parent.bind fun parent => right[parent.index]?) = upper' at above ⊢
    cases above with
    | none => exact .cons like .nil
    | some next => exact .cons like (ih next)

/-- The order of exports is told by the children of the scopes. -/
theorem exportOrder_congr {scopes scopes' : List Scope}
    (same : List.Forall₂ (fun scope scope' : Scope => scope'.children = scope.children)
      scopes scopes') (depth : Nat) (scope : ScopeId) :
    exportOrder scopes' depth scope = exportOrder scopes depth scope := by
  induction depth generalizing scope with
  | zero => rfl
  | succ depth ih =>
    have children : scopes'[scope.index]?.map Scope.children =
        scopes[scope.index]?.map Scope.children := by
      have here := rel_getElem? same scope.index
      generalize scopes[scope.index]? = data at here
      generalize scopes'[scope.index]? = data' at here
      cases here with
      | none => rfl
      | some equal => exact congrArg some equal
    unfold exportOrder
    rw [children, funext ih]

namespace Draft

variable {fits : Delegate → Delegate → Prop} {first second : Draft} {assembly assembly' : Assembly}

theorem Sound.registry_parent (sound : first.Sound assembly) (scope : ScopeId) :
    (first.registry scope).parent = assembly.scopes[scope.index]?.bind Scope.parent := by
  have places := sound.places scope.index
  unfold registry
  cases found : first.registries[scope.index]? with
  | none =>
    rw [found] at places
    rw [Option.map_eq_none_iff.mp places.symm]
    rfl
  | some registry =>
    rw [found] at places
    obtain ⟨data, here, same⟩ := Option.map_eq_some_iff.mp places.symm
    rw [here]
    exact (Prod.mk.inj same).2.symm

theorem Sound.getElem?_registries (sound : first.Sound assembly) (scope : ScopeId) :
    first.registries[scope.index]? =
      assembly.scopes[scope.index]?.map fun _ => first.registry scope := by
  have places := sound.places scope.index
  unfold registry
  cases found : first.registries[scope.index]? with
  | none =>
    rw [found] at places
    rw [Option.map_eq_none_iff.mp places.symm]
    rfl
  | some registry =>
    rw [found] at places
    obtain ⟨data, here, -⟩ := Option.map_eq_some_iff.mp places.symm
    rw [here]
    rfl

/-- The lookup from a scope finds corresponding producers, when the rows of the scope and its
ancestors correspond. -/
theorem rel_nearest? (sound : first.Sound assembly) (sound' : second.Sound assembly')
    (tree : List.Forall₂ (fun scope scope' : Scope => scope'.parent = scope.parent)
      assembly.scopes assembly'.scopes)
    (visible : ScopeId → Prop)
    (upward : ∀ scope data parent, visible scope → assembly.scopes[scope.index]? = some data →
      data.parent = some parent → visible parent)
    (rows : ∀ scope, visible scope → ∀ key,
      Option.Rel fits ((first.row scope).get? key) ((second.row scope).get? key))
    {scope : ScopeId} (here : visible scope) (key : Key) :
    Option.Rel (fun left right => fits (delegateTo first.entries left)
        (delegateTo second.entries right))
      (first.nearest? scope key) (second.nearest? scope key) := by
  have lengths : second.registries.length = first.registries.length := by
    rw [sound.length_registries, sound'.length_registries, tree.length_eq]
  let alike (left right : Registry) : Prop := ∃ scope, visible scope ∧
    left = first.registry scope ∧ right = second.registry scope
  have climbs (left right : Registry) (like : alike left right) : Option.Rel alike
      (left.parent.bind fun parent => first.registries[parent.index]?)
      (right.parent.bind fun parent => second.registries[parent.index]?) := by
    obtain ⟨scope, seen, rfl, rfl⟩ := like
    rw [sound.registry_parent, sound'.registry_parent]
    have lower := rel_getElem? tree scope.index
    cases place : assembly.scopes[scope.index]? with
    | none =>
      rw [place] at lower
      rw [eq_none_of_rel lower]
      exact .none
    | some data =>
      rw [place] at lower
      obtain ⟨data', place', same⟩ := exists_of_rel_some lower
      rw [place', Option.bind_some, Option.bind_some, same]
      cases above : data.parent with
      | none => exact .none
      | some upper =>
        rw [Option.bind_some, Option.bind_some, sound.getElem?_registries,
          sound'.getElem?_registries]
        have higher := rel_getElem? tree upper.index
        generalize assembly.scopes[upper.index]? = there at higher
        generalize assembly'.scopes[upper.index]? = there' at higher
        cases higher with
        | none => exact .none
        | some => exact .some ⟨upper, upward scope data upper seen place above, rfl, rfl⟩
  unfold nearest? Registry.getNearest? Registry.ancestry
  rw [lengths]
  have start : alike (first.registry scope) (second.registry scope) := ⟨scope, here, rfl, rfl⟩
  refine rel_findSome? ((Registry.forall₂_lineage climbs _ start).imp ?_)
  rintro left right ⟨scope, seen, rfl, rfl⟩
  exact Registry.rel_get?_row.mp (rows scope seen key)

/-- The links of a factory are what its scope finds under its dependencies. -/
theorem getD_links (draft : Draft) {index : Nat} {entry : Entry}
    (found : draft.entries[index]? = some entry) : draft.links.getD index [] =
      if entry.isFactory then entry.dependencies.filterMap (draft.nearest? entry.scope)
      else [] := by
  have here : draft.links[index]? =
      some ((draft.needsOf ⟨index⟩ entry).filterMap Need.provider) := by
    simp [links, needs, found]
  rw [List.getD_eq_getElem?_getD, here, Option.getD_some, needsOf]
  split
  · rw [List.filterMap_map]
    rfl
  · rfl

/-- Entries that are declared alike, in scopes that see corresponding producers, have corresponding
links. -/
theorem forall₂_links {index index' : Nat} {entry entry' : Entry}
    (found : first.entries[index]? = some entry) (found' : second.entries[index']? = some entry')
    (alike : entry.Alike entry')
    (sees : ∀ key, Option.Rel
      (fun left right => fits (delegateTo first.entries left) (delegateTo second.entries right))
      (first.nearest? entry.scope key) (second.nearest? entry'.scope key)) :
    List.Forall₂
      (fun left right => fits (delegateTo first.entries left) (delegateTo second.entries right))
      (first.links.getD index []) (second.links.getD index' []) := by
  have kind : entry'.isFactory = entry.isFactory := by
    rw [Entry.isFactory, Entry.isFactory, alike.kind]
  rw [getD_links first found, getD_links second found', kind, alike.dependencies]
  split
  · induction entry.dependencies with
    | nil => exact .nil
    | cons key rest ih =>
      have here := sees key
      rw [List.filterMap_cons, List.filterMap_cons]
      generalize first.nearest? entry.scope key = answer at here ⊢
      generalize second.nearest? entry'.scope key = answer' at here ⊢
      cases here with
      | none => exact ih
      | some fit => exact .cons fit ih
  · exact .nil

end Draft

end Wiring
