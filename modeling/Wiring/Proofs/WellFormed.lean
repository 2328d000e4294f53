import Wiring.Declaration
import Wiring.Proofs.Attempts
import Wiring.Proofs.Relations
import Wiring.Resolution.ImportOrder

/-!
What holds of an assembly after any declarations, also after refused ones: every entry stands in
the list of its scope, scopes come after their parents, and what passes a boundary keeps its type.
-/

namespace Wiring

/-- The steps of an import were checked, and a built pool behind it is among those offered. -/
structure ImportSpec.Proper (offered : Pool → Prop) (spec : ImportSpec) : Prop where
  checked : ImportSpec.checkAll spec.ops = .ok ()
  source : ∀ pool, spec.source = .pool pool → offered pool

/-- An export under another key keeps the type. -/
def ExportSpec.Proper : ExportSpec → Prop
  | .keyed key exportAs => key.type = exportAs.type
  | .all => True

/-- An entry is a provider. A given value has the type of its key, is constant and depends on
nothing. -/
def Entry.Proper (entry : Entry) : Prop :=
  match entry.origin with
  | .given handle =>
    handle.type = entry.key.type ∧ entry.mode = some .constant ∧ entry.dependencies = []
  | .made _ => True
  | .delegate _ => False

theorem Entry.Proper.ne_delegate {entry : Entry} (proper : entry.Proper) (target : Delegate) :
    entry.origin ≠ .delegate target := by
  intro origin
  rw [Entry.Proper, origin] at proper
  exact proper

/-- What passes the boundary of a scope is in order. -/
structure Scope.Proper (offered : Pool → Prop) (scope : Scope) : Prop where
  imports : ∀ imported ∈ scope.imports, imported.spec.Proper offered
  exports : ∀ spec ∈ scope.exports, spec.Proper

theorem Scope.proper_empty {offered : Pool → Prop} (name : String) (parent : Option ScopeId) :
    (Scope.empty name parent).Proper offered where
  imports _ member := nomatch member
  exports _ member := nomatch member

/-- The scopes are in order: each comes after its parent, and imports from scopes that exist. -/
structure Framed (offered : Pool → Prop) (frame : List Scope) : Prop where
  scopes : ∀ (index : Nat) (scope : Scope), frame[index]? = some scope → scope.Proper offered
  parents : ∀ (index : Nat) (scope : Scope), frame[index]? = some scope →
    ∀ parent, scope.parent = some parent → parent.index < index
  sources : ∀ (index : Nat) (scope : Scope), frame[index]? = some scope →
    ∀ source ∈ scope.scopeSources, source < frame.length

/-- The scopes form a tree: each is the parent of its children and a child of its parent, and only
the first one has no parent. -/
structure Rooted (frame : List Scope) : Prop where
  children : ∀ (index : Nat) (scope : Scope), frame[index]? = some scope →
    ∀ child ∈ scope.children, ∃ data, frame[child.index]? = some data ∧ data.parent = some ⟨index⟩
  parents : ∀ (index : Nat) (scope : Scope), frame[index]? = some scope →
    ∀ parent, scope.parent = some parent →
      ∃ data, frame[parent.index]? = some data ∧ ⟨index⟩ ∈ data.children
  root : ∀ (index : Nat) (scope : Scope), frame[index]? = some scope → scope.parent = none →
    index = 0

/-- The scopes are in order, and every entry stands in the list of its scope. -/
structure Assembly.Stocked (offered : Pool → Prop) (assembly : Assembly) : Prop
    extends Framed offered assembly.scopes where
  entries : ∀ (index : Nat) (entry : Entry), assembly.entries[index]? = some entry → entry.Proper
  placed : ∀ (index : Nat) (entry : Entry), assembly.entries[index]? = some entry →
    ∃ scope, assembly.scopes[entry.scope.index]? = some scope ∧ ⟨index⟩ ∈ scope.declared
  listed : ∀ (index : Nat) (scope : Scope), assembly.scopes[index]? = some scope →
    ∀ id ∈ scope.declared, ∃ entry, assembly.entries[id.index]? = some entry ∧
      entry.scope = ⟨index⟩

/-- What holds of an assembly however it was declared. -/
structure Assembly.WellFormed (offered : Pool → Prop) (assembly : Assembly) : Prop
    extends Assembly.Stocked offered assembly where
  tree : Rooted assembly.scopes

/-- The assembly went on from another one by declarations. -/
structure Assembly.Advances (offered : Pool → Prop) (before after : Assembly) : Prop where
  wellFormed : after.WellFormed offered
  number : after.number = before.number
  scopes : before.scopes.length ≤ after.scopes.length

namespace Assembly

variable {offered : Pool → Prop} {assembly : Assembly}

theorem wellFormed_new (number : Nat) (config : Config) :
    (new number config).WellFormed offered := by
  have only (index : Nat) (scope : Scope)
      (found : (new number config).scopes[index]? = some scope) :
      scope = Scope.empty config.name none := by
    cases index with
    | zero => simpa [new, eq_comm] using found
    | succ index => simp [new] at found
  refine ⟨⟨⟨fun index scope found => ?_, fun index scope found => ?_, fun index scope found => ?_⟩,
    fun index entry found => ?_, fun index entry found => ?_, fun index scope found => ?_⟩,
    fun index scope found => ?_, fun index scope found => ?_, fun index scope found _ => ?_⟩
  · rw [only index scope found]
    exact Scope.proper_empty config.name none
  · rw [only index scope found]
    exact fun _ below => nomatch below
  · rw [only index scope found]
    exact fun _ member => nomatch member
  · simp [new] at found
  · simp [new] at found
  · rw [only index scope found]
    exact fun _ member => nomatch member
  · rw [only index scope found]
    exact fun _ member => nomatch member
  · rw [only index scope found]
    exact fun _ above => nomatch above
  · cases index with
    | zero => rfl
    | succ index => simp [new] at found

theorem WellFormed.advances (wellFormed : assembly.WellFormed offered) :
    assembly.Advances offered assembly :=
  ⟨wellFormed, rfl, Nat.le_refl _⟩

theorem Advances.trans {first second third : Assembly} (advances : first.Advances offered second)
    (onward : second.Advances offered third) : first.Advances offered third :=
  ⟨onward.wellFormed, onward.number.trans advances.number,
    Nat.le_trans advances.scopes onward.scopes⟩

theorem getElem?_changeScope (id : ScopeId) (change : Scope → Scope) (index : Nat) :
    (assembly.changeScope id change).scopes[index]? =
      assembly.scopes[index]?.map fun scope =>
        if id.index = index then change scope else scope := by
  rw [changeScope, List.getElem?_modify]
  rfl

/-- A change of one scope keeps the scopes in order when the scope stays proper, keeps its parent
and imports from scopes that exist. -/
theorem framed_changeScope (framed : Framed offered assembly.scopes) (id : ScopeId)
    (change : Scope → Scope)
    (proper : ∀ scope, scope.Proper offered → (change scope).Proper offered)
    (parent : ∀ scope, (change scope).parent = scope.parent)
    (sources : ∀ scope, ∀ source ∈ (change scope).scopeSources,
      source ∈ scope.scopeSources ∨ source < assembly.scopes.length) :
    Framed offered (assembly.changeScope id change).scopes := by
  have length : (assembly.changeScope id change).scopes.length = assembly.scopes.length := by
    simp [Assembly.changeScope]
  refine ⟨fun index scope found => ?_, fun index scope found above => ?_,
    fun index scope found source member => ?_⟩
  · rw [getElem?_changeScope, Option.map_eq_some_iff] at found
    obtain ⟨old, found, rfl⟩ := found
    split
    · exact proper old (framed.scopes index old found)
    · exact framed.scopes index old found
  · rw [getElem?_changeScope, Option.map_eq_some_iff] at found
    obtain ⟨old, found, rfl⟩ := found
    have same : (if id.index = index then change old else old).parent = old.parent := by
      split
      · exact parent old
      · rfl
    rw [same]
    exact framed.parents index old found above
  · rw [getElem?_changeScope, Option.map_eq_some_iff] at found
    obtain ⟨old, found, rfl⟩ := found
    rw [length]
    split at member
    · exact (sources old source member).elim (framed.sources index old found source)
        fun inside => inside
    · exact framed.sources index old found source member

/-- A change of one scope keeps the entries in their scopes when it keeps the scopes in order and
the declared entries. -/
theorem Stocked.changeScope (stocked : assembly.Stocked offered) (id : ScopeId)
    (change : Scope → Scope)
    (proper : ∀ scope, scope.Proper offered → (change scope).Proper offered)
    (parent : ∀ scope, (change scope).parent = scope.parent)
    (sources : ∀ scope, ∀ source ∈ (change scope).scopeSources,
      source ∈ scope.scopeSources ∨ source < assembly.scopes.length)
    (declared : ∀ scope, (change scope).declared = scope.declared) :
    (assembly.changeScope id change).Stocked offered := by
  have kept (index : Nat) (scope : Scope) :
      (if id.index = index then change scope else scope).declared = scope.declared := by
    split
    · exact declared scope
    · rfl
  refine ⟨framed_changeScope stocked.toFramed id change proper parent sources,
    stocked.entries, fun index entry found => ?_, fun index scope found => ?_⟩
  · obtain ⟨scope, place, listed⟩ := stocked.placed index entry found
    exact ⟨_, by rw [getElem?_changeScope, place]; rfl, by rw [kept]; exact listed⟩
  · rw [getElem?_changeScope, Option.map_eq_some_iff] at found
    obtain ⟨old, found, rfl⟩ := found
    rw [kept]
    exact stocked.listed index old found

/-- A change of one scope that keeps its parent and its children keeps the tree. -/
theorem rooted_changeScope (rooted : Rooted assembly.scopes) (id : ScopeId)
    (change : Scope → Scope) (parent : ∀ scope, (change scope).parent = scope.parent)
    (children : ∀ scope, (change scope).children = scope.children) :
    Rooted (assembly.changeScope id change).scopes := by
  have above (index : Nat) (scope : Scope) :
      (if id.index = index then change scope else scope).parent = scope.parent := by
    split
    · exact parent scope
    · rfl
  have below (index : Nat) (scope : Scope) :
      (if id.index = index then change scope else scope).children = scope.children := by
    split
    · exact children scope
    · rfl
  refine ⟨fun index scope found child member => ?_, fun index scope found upper isParent => ?_,
    fun index scope found none_above => ?_⟩
  all_goals
    rw [getElem?_changeScope, Option.map_eq_some_iff] at found
    obtain ⟨old, found, rfl⟩ := found
  · rw [below] at member
    obtain ⟨data, place, isParent⟩ := rooted.children index old found child member
    exact ⟨_, by rw [getElem?_changeScope, place]; rfl, by rw [above]; exact isParent⟩
  · rw [above] at isParent
    obtain ⟨data, place, member⟩ := rooted.parents index old found upper isParent
    exact ⟨_, by rw [getElem?_changeScope, place]; rfl, by rw [below]; exact member⟩
  · rw [above] at none_above
    exact rooted.root index old found none_above

/-- A change of one scope keeps an assembly well formed when it keeps the scopes in order, their
tree and the declared entries. -/
theorem WellFormed.changeScope (wellFormed : assembly.WellFormed offered) (id : ScopeId)
    (change : Scope → Scope)
    (proper : ∀ scope, scope.Proper offered → (change scope).Proper offered)
    (parent : ∀ scope, (change scope).parent = scope.parent)
    (children : ∀ scope, (change scope).children = scope.children)
    (sources : ∀ scope, ∀ source ∈ (change scope).scopeSources,
      source ∈ scope.scopeSources ∨ source < assembly.scopes.length)
    (declared : ∀ scope, (change scope).declared = scope.declared) :
    assembly.Advances offered (assembly.changeScope id change) where
  wellFormed :=
    ⟨wellFormed.toStocked.changeScope id change proper parent sources declared,
      rooted_changeScope wellFormed.tree id change parent children⟩
  number := rfl
  scopes := by simp [Assembly.changeScope]

/-- A new entry keeps an assembly well formed when its scope exists. -/
theorem WellFormed.declare (wellFormed : assembly.WellFormed offered) {entry : Entry}
    (proper : entry.Proper) (inside : entry.scope.index < assembly.scopes.length) :
    assembly.Advances offered (assembly.declare entry).2 := by
  have scopes (index : Nat) : (assembly.declare entry).2.scopes[index]? =
      assembly.scopes[index]?.map fun scope =>
        if entry.scope.index = index then
          { scope with declared := scope.declared ++ [⟨assembly.entries.length⟩] }
        else scope :=
    getElem?_changeScope _ _ _
  have entries (index : Nat) (other : Entry)
      (found : (assembly.declare entry).2.entries[index]? = some other) :
      assembly.entries[index]? = some other ∨ index = assembly.entries.length ∧ other = entry :=
    getElem?_append_singleton_cases found
  have stays (id : EntryId) (other : Entry) (found : assembly.entries[id.index]? = some other) :
      (assembly.declare entry).2.entries[id.index]? = some other :=
    getElem?_of_grown (List.prefix_append _ _) found
  have framed := framed_changeScope wellFormed.toFramed entry.scope
    (fun scope => { scope with declared := scope.declared ++ [⟨assembly.entries.length⟩] })
    (fun _ proper => ⟨proper.imports, proper.exports⟩) (fun _ => rfl) (fun _ _ => .inl)
  have rooted := rooted_changeScope wellFormed.tree entry.scope
    (fun scope => { scope with declared := scope.declared ++ [⟨assembly.entries.length⟩] })
    (fun _ => rfl) (fun _ => rfl)
  refine ⟨⟨⟨framed, fun index other found => ?_, fun index other found => ?_,
    fun index scope found id member => ?_⟩, rooted⟩, rfl,
    by simp [Assembly.declare, Assembly.changeScope]⟩
  · rcases entries index other found with old | ⟨-, rfl⟩
    · exact wellFormed.entries index other old
    · exact proper
  · rcases entries index other found with old | ⟨rfl, rfl⟩
    · obtain ⟨scope, place, listed⟩ := wellFormed.placed index other old
      refine ⟨_, by rw [scopes, place]; rfl, ?_⟩
      split
      · exact List.mem_append_left _ listed
      · exact listed
    · refine ⟨_, by rw [scopes, List.getElem?_eq_getElem inside]; rfl, ?_⟩
      simp
  · rw [scopes, Option.map_eq_some_iff] at found
    obtain ⟨old, place, rfl⟩ := found
    have before (id : EntryId) (listed : id ∈ old.declared) :
        ∃ other, (assembly.declare entry).2.entries[id.index]? = some other ∧
          other.scope = ⟨index⟩ := by
      obtain ⟨other, found, home⟩ := wellFormed.listed index old place id listed
      exact ⟨other, stays id other found, home⟩
    split at member
    · rename_i here
      rcases List.mem_append.mp member with listed | new
      · exact before id listed
      · rw [List.mem_singleton.mp new]
        refine ⟨entry, ?_, congrArg ScopeId.mk here⟩
        change (assembly.entries ++ [entry])[assembly.entries.length]? = some entry
        simp
    · exact before id member

/-- An entry that stays proper and in its scope keeps an assembly well formed. -/
theorem WellFormed.set (wellFormed : assembly.WellFormed offered) {id : EntryId}
    {old adjusted : Entry} (found : assembly.entries[id.index]? = some old)
    (proper : old.Proper → adjusted.Proper) (scope : adjusted.scope = old.scope) :
    assembly.Advances offered
      { assembly with entries := assembly.entries.set id.index adjusted } := by
  have unchanged (index : Nat) (entry : Entry)
      (found : (assembly.entries.set id.index adjusted)[index]? = some entry) :
      ∃ old, assembly.entries[index]? = some old ∧ (old.Proper → entry.Proper) ∧
        entry.scope = old.scope := by
    rw [List.getElem?_set] at found
    split at found
    · rename_i here
      split at found
      · obtain rfl := Option.some.inj found
        exact ⟨old, here ▸ ‹assembly.entries[id.index]? = some old›, proper, scope⟩
      · cases found
    · exact ⟨entry, found, fun proper => proper, rfl⟩
  refine ⟨⟨⟨wellFormed.toFramed, fun index entry found => ?_, fun index entry found => ?_,
    fun index data here other listed => ?_⟩, wellFormed.tree⟩, rfl, Nat.le_refl _⟩
  · obtain ⟨before, found, proper, -⟩ := unchanged index entry found
    exact proper (wellFormed.entries index before found)
  · obtain ⟨before, found, -, scope⟩ := unchanged index entry found
    rw [scope]
    exact wellFormed.placed index before found
  · obtain ⟨before, place, home⟩ := wellFormed.listed index data here other listed
    by_cases same : id.index = other.index
    · obtain rfl : old = before := by
        rw [same, place] at found
        exact (Option.some.inj found).symm
      exact ⟨adjusted, by
        simp [← same, (List.getElem?_eq_some_iff.mp found).1], scope.trans home⟩
    · exact ⟨before, by rw [List.getElem?_set_ne same, place], home⟩

theorem WellFormed.addImport (wellFormed : assembly.WellFormed offered) (scope : ScopeId)
    {spec : ImportSpec} (proper : spec.Proper offered)
    (exists_source : ∀ id, spec.source = .scope id → id.index < assembly.scopes.length) :
    assembly.Advances offered (assembly.addImport scope spec) := by
  refine wellFormed.changeScope scope _ ?_ (fun _ => rfl) (fun _ => rfl) ?_ (fun _ => rfl)
  · intro data kept
    obtain ⟨imports, exports⟩ := kept
    refine ⟨?_, exports⟩
    intro imported member
    rcases List.mem_append.mp member with old | new
    · exact imports imported old
    · rw [List.mem_singleton.mp new]
      exact proper
  · intro data source member
    unfold Scope.scopeSources at member ⊢
    rw [List.filterMap_append] at member
    refine (List.mem_append.mp member).imp_right fun new => ?_
    obtain ⟨imported, single, taken⟩ := List.mem_filterMap.mp new
    rw [List.mem_singleton.mp single] at taken
    unfold Import.scopeSource? at taken
    dsimp only at taken
    cases from_scope : spec.source with
    | pool built => simp [from_scope] at taken
    | scope id =>
      obtain rfl : id.index = source := by simpa [from_scope] using taken
      exact exists_source id from_scope

theorem WellFormed.addExport (wellFormed : assembly.WellFormed offered) (scope : ScopeId)
    {spec : ExportSpec} (proper : spec.Proper) :
    assembly.Advances offered (assembly.addExport scope spec) := by
  refine wellFormed.changeScope scope _ ?_ (fun _ => rfl) (fun _ => rfl) (fun _ _ => .inl)
    (fun _ => rfl)
  intro data kept
  obtain ⟨imports, exports⟩ := kept
  refine ⟨imports, ?_⟩
  intro other member
  rcases List.mem_append.mp member with old | new
  · exact exports other old
  · rw [List.mem_singleton.mp new]
    exact proper

/-- The assembly with a new last scope. -/
def appendScope (assembly : Assembly) (path : String) (parent : ScopeId) : Assembly :=
  { assembly with scopes := assembly.scopes ++ [Scope.empty path (some parent)] }

/-- The assembly with a new scope among the children of its parent. -/
def joinScope (assembly : Assembly) (path : String) (parent : ScopeId) : Assembly :=
  (assembly.appendScope path parent).changeScope parent fun scope =>
    { scope with children := scope.children ++ [⟨assembly.scopes.length⟩] }

theorem getElem?_appendScope {path : String} {parent : ScopeId} {index : Nat} {scope : Scope}
    (found : (assembly.appendScope path parent).scopes[index]? = some scope) :
    assembly.scopes[index]? = some scope ∨
      index = assembly.scopes.length ∧ scope = Scope.empty path (some parent) :=
  getElem?_append_singleton_cases found

theorem appendScope_old {path : String} {parent : ScopeId} {index : Nat} {scope : Scope}
    (found : assembly.scopes[index]? = some scope) :
    (assembly.appendScope path parent).scopes[index]? = some scope :=
  getElem?_of_grown (List.prefix_append _ _) found

/-- A new scope holds nothing yet, so its parent is all that can be wrong with it. -/
theorem WellFormed.stocked_appendScope (wellFormed : assembly.WellFormed offered) {path : String}
    {parent : ScopeId} (below : parent.index < assembly.scopes.length) :
    (assembly.appendScope path parent).Stocked offered := by
  refine ⟨⟨fun index scope found => ?_, fun index scope found other isParent => ?_,
    fun index scope found source member => ?_⟩, wellFormed.entries,
    fun index entry found => ?_, fun index scope found id listed => ?_⟩
  · rcases getElem?_appendScope found with old | ⟨-, rfl⟩
    · exact wellFormed.scopes index scope old
    · exact Scope.proper_empty _ _
  · rcases getElem?_appendScope found with old | ⟨rfl, rfl⟩
    · exact wellFormed.parents index scope old other isParent
    · obtain rfl : parent = other := Option.some.inj isParent
      exact below
  · rw [appendScope, List.length_append]
    rcases getElem?_appendScope found with old | ⟨-, rfl⟩
    · exact Nat.lt_add_right _ (wellFormed.sources index scope old source member)
    · cases member
  · obtain ⟨scope, place, listed⟩ := wellFormed.placed index entry found
    exact ⟨scope, appendScope_old place, listed⟩
  · rcases getElem?_appendScope found with old | ⟨-, rfl⟩
    · exact wellFormed.listed index scope old id listed
    · cases listed

/-- A scope that was there before keeps its parent and its children, up to the new scope. -/
theorem joinScope_old (path : String) (parent : ScopeId) {index : Nat} {scope : Scope}
    (found : assembly.scopes[index]? = some scope) :
    ∃ joined, (assembly.joinScope path parent).scopes[index]? = some joined ∧
      joined.parent = scope.parent ∧ ∀ child ∈ scope.children, child ∈ joined.children := by
  refine ⟨_, by rw [joinScope, getElem?_changeScope, appendScope_old found]; rfl, ?_, ?_⟩
  · split <;> rfl
  · split
    · exact fun _ => List.mem_append_left _
    · exact fun _ member => member

theorem WellFormed.stocked_joinScope (wellFormed : assembly.WellFormed offered) {path : String}
    {parent : ScopeId} (below : parent.index < assembly.scopes.length) :
    (assembly.joinScope path parent).Stocked offered :=
  (wellFormed.stocked_appendScope below).changeScope parent _
    (fun _ proper => ⟨proper.imports, proper.exports⟩) (fun _ => rfl) (fun _ _ => .inl)
    (fun _ => rfl)

/-- A new scope under an existing one keeps the tree. -/
theorem WellFormed.rooted_joinScope (wellFormed : assembly.WellFormed offered) {path : String}
    {parent : ScopeId} {above : Scope}
    (exists_parent : assembly.scopes[parent.index]? = some above) :
    Rooted (assembly.joinScope path parent).scopes := by
  have below : parent.index < assembly.scopes.length :=
    (List.getElem?_eq_some_iff.mp exists_parent).1
  have last : (assembly.joinScope path parent).scopes[assembly.scopes.length]? =
      some (Scope.empty path (some parent)) := by
    rw [joinScope, getElem?_changeScope, appendScope]
    simp [Nat.ne_of_lt below]
  have keeps_parent (index : Nat) (scope : Scope) : (if parent.index = index then
      { scope with children := scope.children ++ [⟨assembly.scopes.length⟩] } else scope).parent =
        scope.parent := by
    split <;> rfl
  refine ⟨fun index scope found child member => ?_, fun index scope found upper isParent => ?_,
    fun index scope found none_above => ?_⟩
  all_goals
    rw [joinScope, getElem?_changeScope, Option.map_eq_some_iff] at found
    obtain ⟨plain, place, rfl⟩ := found
  · have known (listed : child ∈ plain.children) : ∃ data,
        (assembly.joinScope path parent).scopes[child.index]? = some data ∧
          data.parent = some ⟨index⟩ := by
      rcases getElem?_appendScope place with old | ⟨-, rfl⟩
      · obtain ⟨data, there, isParent⟩ := wellFormed.tree.children index plain old child listed
        obtain ⟨joined, here, same, -⟩ := joinScope_old path parent there
        exact ⟨joined, here, same.trans isParent⟩
      · cases listed
    split at member
    · rename_i same
      rcases List.mem_append.mp member with listed | new
      · exact known listed
      · rw [List.mem_singleton.mp new]
        exact ⟨_, last, congrArg some (congrArg ScopeId.mk same)⟩
    · exact known member
  · rw [keeps_parent] at isParent
    rcases getElem?_appendScope place with old | ⟨rfl, rfl⟩
    · obtain ⟨data, there, listed⟩ := wellFormed.tree.parents index plain old upper isParent
      obtain ⟨joined, here, -, stays⟩ := joinScope_old path parent there
      exact ⟨joined, here, stays _ listed⟩
    · obtain rfl : parent = upper := Option.some.inj isParent
      refine ⟨_, by rw [joinScope, getElem?_changeScope, appendScope_old exists_parent]; rfl, ?_⟩
      simp
  · rw [keeps_parent] at none_above
    rcases getElem?_appendScope place with old | ⟨-, rfl⟩
    · exact wellFormed.tree.root index plain old none_above
    · cases none_above

/-- The new scope comes after its parent, which must exist. -/
theorem WellFormed.addScope (wellFormed : assembly.WellFormed offered) {name : String}
    {parent id : ScopeId} {grown : Assembly}
    (added : assembly.addScope name parent = .ok (id, grown)) :
    assembly.Advances offered grown ∧ id.index < grown.scopes.length := by
  unfold Assembly.addScope Assembly.scope at added
  cases exists_parent : assembly.scopes[parent.index]? with
  | none => simp [exists_parent] at added
  | some above =>
    simp only [exists_parent] at added
    split at added
    · cases added
    · simp only [Except.ok.injEq, Prod.mk.injEq] at added
      obtain ⟨rfl, rfl⟩ := added
      have below := (List.getElem?_eq_some_iff.mp exists_parent).1
      exact ⟨⟨⟨wellFormed.stocked_joinScope below, wellFormed.rooted_joinScope exists_parent⟩, rfl,
        by simp [Assembly.changeScope]⟩, by simp [Assembly.changeScope]⟩

end Assembly

end Wiring
