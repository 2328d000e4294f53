import Wiring.Proofs.Consistency
import Wiring.Proofs.Misuses

/-!
The paths of scopes. A scope is known by its parent and by the name under which it was added, but a
new scope is compared with the others by its path. Names may hold slashes, so that scopes under
different parents can have one path. A scope is refused when its parent already has a child under
its name, and also when it shares the path of a scope elsewhere, for which one of the two names has
to go over a slash.
-/

namespace Wiring

open Relation

/-- Of two scopes with one path either parents and names are the same, or one of the names holds the
rest of the path of the other parent. -/
theorem eq_or_longer_name {upper label above name : String}
    (same : upper ++ "/" ++ label = above ++ "/" ++ name) :
    upper = above ∧ label = name ∨
      ∃ inner, above = upper ++ "/" ++ inner ∧ label = inner ++ "/" ++ name ∨
        upper = above ++ "/" ++ inner ∧ name = inner ++ "/" ++ label := by
  have side {first second one other : String} {rest : List Char}
      (ahead : second.toList = first.toList ++ rest)
      (tail : '/' :: one.toList = rest ++ '/' :: other.toList) :
      first = second ∧ one = other ∨
        ∃ inner, second = first ++ "/" ++ inner ∧ one = inner ++ "/" ++ other := by
    cases rest with
    | nil => exact .inl ⟨String.toList_inj.mp (by simpa using ahead.symm),
        String.toList_inj.mp (List.cons.inj tail).2⟩
    | cons slash inner =>
      obtain ⟨rfl, onward⟩ := List.cons.inj tail
      exact .inr ⟨String.ofList inner, String.toList_inj.mp (by simpa using ahead),
        String.toList_inj.mp (by simpa using onward)⟩
  have characters : upper.toList ++ '/' :: label.toList = above.toList ++ '/' :: name.toList := by
    simpa using congrArg String.toList same
  rcases List.append_eq_append_iff.mp characters with ⟨rest, ahead, tail⟩ | ⟨rest, ahead, tail⟩
  · rcases side ahead tail with equal | ⟨inner, longer⟩
    · exact .inl equal
    · exact .inr ⟨inner, .inl longer⟩
  · rcases side ahead tail with equal | ⟨inner, longer⟩
    · exact .inl ⟨equal.1.symm, equal.2.symm⟩
    · exact .inr ⟨inner, .inr longer⟩

namespace Assembly

variable {offered : Pool → Prop} {assembly after : Assembly} {parent child : ScopeId}
  {name label : String}

/-- A scope was added to a parent under a name. -/
def Added (assembly : Assembly) (parent : ScopeId) (name : String) (child : ScopeId) : Prop :=
  ∃ above data, assembly.scopes[parent.index]? = some above ∧
    assembly.scopes[child.index]? = some data ∧ data.parent = some parent ∧
    data.name = childName above name

/-- The path of each scope, and its parent. -/
def places (assembly : Assembly) : List (String × Option ScopeId) :=
  assembly.scopes.map fun scope => (scope.name, scope.parent)

/-- A scope that is not the root has the path of its parent and a name behind it. -/
def Pathed (assembly : Assembly) : Prop :=
  ∀ (path : String) (parent : ScopeId), (path, some parent) ∈ assembly.places →
    ∃ upper name, (assembly.places[parent.index]?).map Prod.fst = some upper ∧
      path = upper ++ "/" ++ name

theorem added_iff : assembly.Added parent name child ↔
    ∃ upper, (assembly.places[parent.index]?).map Prod.fst = some upper ∧
      assembly.places[child.index]? = some (upper ++ "/" ++ name, some parent) := by
  simp only [Added, places, List.getElem?_map, Option.map_eq_some_iff, Prod.mk.injEq, childName]
  constructor
  · rintro ⟨above, data, here, there, below, path⟩
    exact ⟨above.name, ⟨_, ⟨above, here, rfl⟩, rfl⟩, data, there, path, below⟩
  · rintro ⟨_, ⟨_, ⟨above, here, rfl⟩, rfl⟩, data, there, path, below⟩
    exact ⟨above, data, here, there, below, path⟩

theorem places_changeScope (assembly : Assembly) (id : ScopeId) {change : Scope → Scope}
    (named : ∀ scope, (change scope).name = scope.name)
    (below : ∀ scope, (change scope).parent = scope.parent) :
    (assembly.changeScope id change).places = assembly.places := by
  refine List.ext_getElem? fun index => ?_
  rw [places, places, List.getElem?_map, getElem?_changeScope, List.getElem?_map, Option.map_map]
  congr 1
  funext scope
  rw [Function.comp_apply]
  split
  · rw [named, below]
  · rfl

/-- A scope that is added comes last, behind its parent and under its name. -/
theorem places_addScope {id : ScopeId} (added : assembly.addScope name parent = .ok (id, after)) :
    id = ⟨assembly.scopes.length⟩ ∧
      ∃ above, assembly.scopes[parent.index]? = some above ∧
        after.places = assembly.places ++ [(childName above name, some parent)] := by
  unfold Assembly.addScope Assembly.scope at added
  cases found : assembly.scopes[parent.index]? with
  | none => simp [found] at added
  | some above =>
    simp only [found] at added
    split at added
    · cases added
    · simp only [Except.ok.injEq, Prod.mk.injEq] at added
      obtain ⟨rfl, rfl⟩ := added
      refine ⟨rfl, above, rfl, ?_⟩
      rw [places_changeScope]
      · simp [places, Scope.empty]
      · exact fun _ => rfl
      · exact fun _ => rfl

/-- A change leaves every scope in its place, or adds one below a scope that is there. -/
theorem Changes.places (changes : assembly.Changes after) :
    after.places = assembly.places ∨
      ∃ (parent : ScopeId) (name : String) (above : Scope),
        assembly.scopes[parent.index]? = some above ∧
        after.places = assembly.places ++ [(childName above name, some parent)] := by
  cases changes with
  | declare entry => exact .inl (places_changeScope _ _ (fun _ => rfl) fun _ => rfl)
  | adjust entries length => exact .inl rfl
  | addImport scope spec => exact .inl (places_changeScope _ _ (fun _ => rfl) fun _ => rfl)
  | addExport scope spec => exact .inl (places_changeScope _ _ (fun _ => rfl) fun _ => rfl)
  | addScope added =>
    obtain ⟨-, above, found, grown⟩ := places_addScope added
    exact .inr ⟨_, _, above, found, grown⟩
  | enter bundle inside => exact .inl rfl
  | leave source => exact .inl rfl

theorem Changes.onward (changes : assembly.Changes after) :
    assembly.places <+: after.places := by
  obtain same | ⟨parent, name, above, -, grown⟩ := changes.places
  · exact same ▸ List.prefix_refl _
  · exact grown ▸ List.prefix_append _ _

theorem onward_of_changes (changes : ReflTransGen Changes assembly after) :
    assembly.places <+: after.places := by
  induction changes with
  | refl => exact List.prefix_refl _
  | tail _ change ih => exact ih.trans change.onward

/-- The path of a scope stays. -/
theorem path_stays (onward : assembly.places <+: after.places) {index : Nat} {path : String}
    (found : (assembly.places[index]?).map Prod.fst = some path) :
    (after.places[index]?).map Prod.fst = some path := by
  obtain ⟨place, here, rfl⟩ := Option.map_eq_some_iff.mp found
  rw [getElem?_of_grown onward here]
  rfl

/-- A scope stays where it was added. -/
theorem Added.stays (added : assembly.Added parent name child)
    (onward : assembly.places <+: after.places) : after.Added parent name child := by
  obtain ⟨upper, above, here⟩ := added_iff.mp added
  exact added_iff.mpr ⟨upper, path_stays onward above, getElem?_of_grown onward here⟩

theorem pathed_new (number : Nat) (config : Config) : (new number config).Pathed := by
  intro path parent member
  cases List.mem_singleton.mp member

theorem Pathed.changes (pathed : assembly.Pathed) (changes : assembly.Changes after) :
    after.Pathed := by
  intro path parent member
  have old (member : (path, some parent) ∈ assembly.places) :
      ∃ upper name, (after.places[parent.index]?).map Prod.fst = some upper ∧
        path = upper ++ "/" ++ name := by
    obtain ⟨upper, name, above, rfl⟩ := pathed path parent member
    exact ⟨upper, name, path_stays changes.onward above, rfl⟩
  obtain same | ⟨home, name, above, here, grown⟩ := changes.places
  · exact old (same ▸ member)
  · rw [grown] at member
    rcases List.mem_append.mp member with before | last
    · exact old before
    · cases List.mem_singleton.mp last
      refine ⟨above.name, name, path_stays changes.onward ?_, rfl⟩
      rw [Assembly.places, List.getElem?_map, here]
      rfl

/-- A scope was added to one parent and under one name. -/
theorem Added.unique {other : ScopeId} (added : assembly.Added parent name child)
    (added' : assembly.Added other label child) : parent = other ∧ name = label := by
  obtain ⟨upper, above, here⟩ := added_iff.mp added
  obtain ⟨upper', above', here'⟩ := added_iff.mp added'
  obtain ⟨path, same⟩ := Prod.mk.inj (Option.some.inj (here.symm.trans here'))
  obtain rfl := Option.some.inj same
  obtain rfl := Option.some.inj (above.symm.trans above')
  exact ⟨rfl, (String.append_right_inj _).mp path⟩

/-- Every scope but the root was added to its parent. -/
theorem Pathed.exists_added (pathed : assembly.Pathed) {index : Nat} {data : Scope}
    (here : assembly.scopes[index]? = some data) (below : data.parent = some parent) :
    ∃ label, assembly.Added parent label ⟨index⟩ := by
  have place : assembly.places[index]? = some (data.name, some parent) := by
    rw [places, List.getElem?_map, here, ← below]
    rfl
  obtain ⟨upper, label, above, path⟩ := pathed _ _ (List.mem_of_getElem? place)
  exact ⟨label, added_iff.mpr ⟨upper, above, path ▸ place⟩⟩

/-- Another scope has the path that a scope of this name would have here: the rest of one path is
hidden in the name of the other scope. -/
def Clashes (assembly : Assembly) (parent : ScopeId) (name : String) : Prop :=
  ∃ other label child above upper inner, assembly.Added other label child ∧
    assembly.scopes[parent.index]? = some above ∧ assembly.scopes[other.index]? = some upper ∧
    (above.name = childName upper inner ∧ label = inner ++ "/" ++ name ∨
      upper.name = childName above inner ∧ name = inner ++ "/" ++ label)

/-- One of the names of a clash goes over a slash. -/
theorem Clashes.exists_slash (clashes : assembly.Clashes parent name) :
    '/' ∈ name.toList ∨
      ∃ other label child, assembly.Added other label child ∧ '/' ∈ label.toList := by
  obtain ⟨other, label, child, -, -, inner, added, -, -, ⟨-, rfl⟩ | ⟨-, rfl⟩⟩ := clashes
  · exact .inr ⟨other, _, child, added, by simp⟩
  · exact .inl (by simp)

theorem exists_addScope_error_iff : (∃ misuse, assembly.addScope name parent = .error misuse) ↔
    assembly.scopes.length ≤ parent.index ∨
      ∃ above, assembly.scopes[parent.index]? = some above ∧
        ∃ scope ∈ assembly.scopes, scope.name = childName above name := by
  simp only [addScope_error_iff]
  constructor
  · rintro ⟨misuse, misuses⟩
    cases misuses with
    | parent name unknown => exact .inl (List.getElem?_eq_none_iff.mp unknown)
    | taken found among same => exact .inr ⟨_, found, _, among, same⟩
  · rintro (beyond | ⟨above, found, other, among, same⟩)
    · exact ⟨_, .parent name (List.getElem?_eq_none beyond)⟩
    · exact ⟨_, .taken found among same⟩

/-- The path of the root is no longer than any path. -/
theorem length_root_le (pathed : assembly.Pathed) (wellFormed : assembly.WellFormed offered)
    {root : Scope} (first : assembly.scopes[0]? = some root) {index : Nat} {scope : Scope}
    (here : assembly.scopes[index]? = some scope) : root.name.length ≤ scope.name.length := by
  induction index using Nat.strong_induction_on generalizing scope with
  | _ index ih =>
    cases below : scope.parent with
    | none =>
      obtain rfl := wellFormed.tree.root index scope here below
      obtain rfl := Option.some.inj (first.symm.trans here)
      exact Nat.le_refl _
    | some parent =>
      obtain ⟨label, above, data, top, same, -, path⟩ :=
        pathed.exists_added here below
      obtain rfl := Option.some.inj (here.symm.trans same)
      have shorter := ih parent.index (wellFormed.parents index scope here parent below) top
      rw [path, childName, String.length_append, String.length_append]
      omega

/-- No two scopes have one path. -/
theorem Named.eq_of_name (named : assembly.Named) {first second : Scope}
    (here : assembly.scopes[parent.index]? = some first)
    (there : assembly.scopes[child.index]? = some second) (same : first.name = second.name) :
    parent = child := by
  have name_at {id : ScopeId} {scope : Scope} (found : assembly.scopes[id.index]? = some scope) :
      (assembly.scopes.map Scope.name)[id.index]? = some scope.name := by
    rw [List.getElem?_map, found]
    rfl
  have both := (name_at here).trans ((congrArg some same).trans (name_at there).symm)
  have inside := (List.getElem?_eq_some_iff.mp (name_at here)).1
  exact congrArg ScopeId.mk ((List.getElem?_inj inside named.names).mp both)

/-- A scope of this name is refused when the parent is unknown, when it already has a child under
this name, and when the path is that of a scope elsewhere. -/
theorem Regular.exists_addScope_error_iff (regular : assembly.Regular offered)
    (pathed : assembly.Pathed) (name : String) (parent : ScopeId) :
    (∃ misuse, assembly.addScope name parent = .error misuse) ↔
      assembly.scopes.length ≤ parent.index ∨
        (∃ child, assembly.Added parent name child) ∨ assembly.Clashes parent name := by
  rw [Assembly.exists_addScope_error_iff]
  refine or_congr_right ⟨?_, ?_⟩
  · rintro ⟨above, top, scope, member, path⟩
    obtain ⟨index, here⟩ := List.getElem?_of_mem member
    cases below : scope.parent with
    | none =>
      -- The path of the root is shorter than that of a child.
      obtain rfl := regular.wellFormed.tree.root index scope here below
      have shorter := length_root_le pathed regular.wellFormed here top
      have slash : "/".length = 1 := rfl
      rw [path, childName, String.length_append, String.length_append] at shorter
      omega
    | some other =>
      obtain ⟨label, upper, data, route, same, -, longer⟩ :=
        pathed.exists_added here below
      obtain rfl := Option.some.inj (here.symm.trans same)
      rcases eq_or_longer_name (longer.symm.trans path) with ⟨names, rfl⟩ | ⟨inner, either⟩
      · obtain rfl := regular.named.eq_of_name route top names
        exact .inl ⟨⟨index⟩, above, scope, top, here, below, path⟩
      · exact .inr ⟨other, label, ⟨index⟩, above, upper, inner,
          ⟨upper, scope, route, here, below, longer⟩, top, route, either⟩
  · rintro (⟨child, above, data, top, here, -, path⟩ | clashes)
    · exact ⟨above, top, data, List.mem_of_getElem? here, path⟩
    · obtain ⟨other, label, child, above, upper, inner, added, top, route, either⟩ := clashes
      obtain ⟨upper', data, route', here, -, path⟩ := added
      obtain rfl := Option.some.inj (route.symm.trans route')
      refine ⟨above, top, data, List.mem_of_getElem? here, path.trans ?_⟩
      rcases either with ⟨longer, rfl⟩ | ⟨longer, rfl⟩ <;>
        simp [childName, longer, String.append_assoc]

/-- What a new scope adds: it was added to its parent under its name, and nothing else changes. -/
theorem Pathed.added_addScope (pathed : assembly.Pathed) {id : ScopeId}
    (grows : assembly.addScope name parent = .ok (id, after)) {other : ScopeId} :
    after.Added other label child ↔ assembly.Added other label child ∨
      other = parent ∧ label = name ∧ child = id := by
  obtain ⟨rfl, above, top, grown⟩ := places_addScope grows
  have length : assembly.places.length = assembly.scopes.length := List.length_map _
  have onward : assembly.places <+: after.places := grown ▸ List.prefix_append _ _
  have path : (assembly.places[parent.index]?).map Prod.fst = some above.name := by
    rw [places, List.getElem?_map, top]
    rfl
  constructor
  · intro added
    obtain ⟨upper, route, here⟩ := added_iff.mp added
    rw [grown] at here
    rcases getElem?_append_singleton_cases here with old | ⟨last, new⟩
    · obtain ⟨upper', name', route', same⟩ := pathed _ _ (List.mem_of_getElem? old)
      obtain rfl := Option.some.inj ((path_stays onward route').symm.trans route)
      exact .inl (added_iff.mpr ⟨upper', route', old⟩)
    · obtain ⟨same, below⟩ := Prod.mk.inj new
      obtain rfl := Option.some.inj below
      obtain rfl := Option.some.inj ((path_stays onward path).symm.trans route)
      exact .inr ⟨rfl, (String.append_right_inj _).mp same, congrArg ScopeId.mk (last.trans length)⟩
  · rintro (added | ⟨rfl, rfl, rfl⟩)
    · exact added.stays onward
    · refine added_iff.mpr ⟨above.name, path_stays onward path, ?_⟩
      rw [grown, ← length]
      exact List.getElem?_concat_length

/-- Every call changes an assembly step by step. -/
theorem Undergoes.changes (undergoes : assembly.Undergoes offered after) :
    ReflTransGen Changes assembly after := by
  cases undergoes with
  | addScope name parent => exact Declaring.stepwise_addScope name parent (assembly, [])
  | declare scope declaration draws => exact stepwise_declareIn scope declaration (assembly, [])
  | enter bundle inside => exact .single (.enter assembly bundle inside)
  | leave source => exact .single (.leave assembly source)

theorem changes_of_undergoes (undergoes : ReflTransGen (Undergoes offered) assembly after) :
    ReflTransGen Changes assembly after := by
  induction undergoes with
  | refl => exact .refl
  | tail _ call ih => exact ih.trans call.changes

theorem Pathed.changes_all (pathed : assembly.Pathed)
    (changes : ReflTransGen Changes assembly after) : after.Pathed := by
  induction changes with
  | refl => exact pathed
  | tail _ change ih => exact ih.changes change

end Assembly

namespace Host

variable {host : Host} {assembly : Assembly}

theorem Reachable.pathed (reachable : host.Reachable) (current : host.assembly = some assembly) :
    assembly.Pathed :=
  reachable.assembly_induct current Assembly.pathed_new fun _ _ changes pathed =>
    pathed.changes changes

/-- What a new scope is refused for. In every assembly, also while bundles declare into it and after
refusals, each scope but the root was added to exactly one parent under exactly one name. A new
scope is refused when its parent is unknown, when the parent already has a child that was added
under its name, and when its path is that of a scope elsewhere; the last is the only case that
looks beyond the children of the parent, and then one of the two names goes over a slash. Otherwise
there is a new scope, a child of the parent under the name, and nothing else is added; from then on
it stays that. -/
theorem Reachable.refuses_paths (reachable : host.Reachable)
    (current : host.assembly = some assembly) {later : Assembly}
    (undergoes : ReflTransGen (Assembly.Undergoes host.Offers) assembly later) (name : String)
    (parent : ScopeId) :
    (∀ index, 0 < index → index < later.scopes.length →
      ∃! place : ScopeId × String, later.Added place.1 place.2 ⟨index⟩) ∧
    ((∃ misuse, later.addScope name parent = .error misuse) ↔
      later.scopes.length ≤ parent.index ∨ (∃ child, later.Added parent name child) ∨
        later.Clashes parent name) ∧
    (later.Clashes parent name → '/' ∈ name.toList ∨
      ∃ other label child, later.Added other label child ∧ '/' ∈ label.toList) ∧
    ∀ id grown, later.addScope name parent = .ok (id, grown) →
      id.index = later.scopes.length ∧ grown.scopes.length = later.scopes.length + 1 ∧
      (∃ data, grown.scopes[parent.index]? = some data ∧ id ∈ data.children) ∧
      (∀ other label child, grown.Added other label child ↔ later.Added other label child ∨
        other = parent ∧ label = name ∧ child = id) ∧
      ∀ last, ReflTransGen (Assembly.Undergoes host.Offers) grown last →
        last.Added parent name id := by
  have regular := (reachable.regular current).undergoes_all undergoes
  have pathed := (reachable.pathed current).changes_all (Assembly.changes_of_undergoes undergoes)
  refine ⟨fun index positive inside => ?_, regular.exists_addScope_error_iff pathed name parent,
    Assembly.Clashes.exists_slash, fun id grown grows => ?_⟩
  · obtain ⟨above, below, -⟩ := regular.consistent.parents index _
      (List.getElem?_eq_getElem inside) (Nat.ne_of_gt positive)
    obtain ⟨label, added⟩ :=
      pathed.exists_added (List.getElem?_eq_getElem inside) below
    refine ⟨(above, label), added, fun place added' => ?_⟩
    obtain ⟨same, same'⟩ := added'.unique added
    exact Prod.ext same same'
  · have added : grown.Added parent name id :=
      (pathed.added_addScope grows).mpr (.inr ⟨rfl, rfl, rfl⟩)
    have longer : grown.scopes.length = later.scopes.length + 1 := by
      obtain ⟨-, above, -, places⟩ := Assembly.places_addScope grows
      simpa [Assembly.places] using congrArg List.length places
    refine ⟨congrArg ScopeId.index (Assembly.places_addScope grows).1, longer, ?_,
      fun other label child => pathed.added_addScope grows, fun last undergoes' => ?_⟩
    · have grows' : Assembly.Undergoes host.Offers later grown := by
        have call : Assembly.Undergoes host.Offers later _ := .addScope later name parent
        rwa [Declaring.addScope, grows] at call
      obtain ⟨above, data, top, here, below, -⟩ := added
      refine ⟨above, top, ?_⟩
      rw [(regular.undergoes grows').children_eq top]
      exact Assembly.mem_childrenOf.mpr ⟨data, here, below⟩
    · exact added.stays
        (Assembly.onward_of_changes (Assembly.changes_of_undergoes undergoes'))

/-- A host that is declaring a scope and another one below it. -/
def deepened : Host :=
  let outer := ((Host.new.start (.named "app")).declare (Declaring.addScope "a" .root)).2
  (outer.declare (Declaring.addScope "b" ⟨1⟩)).2

theorem reachable_deepened : deepened.Reachable :=
  ⟨0, ((ReflTransGen.single (.start _ _)).tail (.addScope _ _ _)).tail (.addScope _ _ _)⟩

end Host

namespace Assembly

/-- The assembly of this host. -/
def deepened : Assembly := Host.deepened.assembly.get (by decide +kernel)

theorem current_deepened : Host.deepened.assembly = some deepened := (Option.some_get _).symm

theorem places_deepened : deepened.places =
    [("app", none), ("app/a", some .root), ("app/a/b", some ⟨1⟩)] := by decide +kernel

theorem not_added_deepened (child : ScopeId) : ¬ deepened.Added .root "a/b" child := by
  intro added
  obtain ⟨upper, above, here⟩ := added_iff.mp added
  have member := List.mem_of_getElem? here
  rw [places_deepened] at above member
  obtain rfl : "app" = upper := Option.some.inj above
  exact absurd member (by decide +kernel)

theorem exists_refusal_deepened : ∃ misuse, deepened.addScope "a/b" .root = .error misuse := by
  have refused : (deepened.addScope "a/b" .root).toBool = false := by decide +kernel
  cases result : deepened.addScope "a/b" .root with
  | error misuse => exact ⟨misuse, rfl⟩
  | ok pair =>
    rw [result] at refused
    cases refused

end Assembly

/-- The path of a new scope is that of a scope elsewhere, because of the slash in its name. -/
theorem Host.refuses_paths_sample : Assembly.deepened.Clashes .root "a/b" := by
  obtain ⟨-, refused, -⟩ :=
    reachable_deepened.refuses_paths Assembly.current_deepened .refl "a/b" .root
  have known : ¬ Assembly.deepened.scopes.length ≤ ScopeId.root.index := by decide +kernel
  rcases refused.mp Assembly.exists_refusal_deepened with unknown | ⟨child, added⟩ | clashes
  · exact absurd unknown known
  · exact absurd added (Assembly.not_added_deepened child)
  · exact clashes

/-- So a scope is refused whose parent is known and has no child under its name. -/
theorem Host.fresh_name_refused :
    deepened.Reachable ∧ deepened.assembly = some Assembly.deepened ∧
      (∃ root, Assembly.deepened.scopes[ScopeId.root.index]? = some root) ∧
      (∀ child, ¬ Assembly.deepened.Added .root "a/b" child) ∧
      ∃ misuse, Assembly.deepened.addScope "a/b" .root = .error misuse :=
  ⟨reachable_deepened, Assembly.current_deepened,
    ⟨_, List.getElem?_eq_getElem (by decide +kernel : 0 < Assembly.deepened.scopes.length)⟩,
    Assembly.not_added_deepened, Assembly.exists_refusal_deepened⟩

end Wiring
