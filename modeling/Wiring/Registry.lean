import Wiring.ConstructionError
import Wiring.Attempt

/-!
Registries: the entries of one scope by key. A key belongs to the entry that is registered first;
a later one is refused and changes nothing. A key that a registry does not hold is looked up in
the registry of the parent scope.
-/

namespace Wiring

/-- The registrations of a scope, in order. -/
structure Registry where
  scope : ScopeId
  parent : Option ScopeId
  registrations : List (Key × EntryId)

namespace Registry

/-- The registry of a scope before anything is registered. -/
def empty (scope : ScopeId) (parent : Option ScopeId) : Registry where
  scope := scope
  parent := parent
  registrations := []

/-- The entry that is registered under a key. -/
def get? (registry : Registry) (key : Key) : Option EntryId :=
  (registry.registrations.find? fun pair => pair.1 == key).map Prod.snd

/-- The key is taken. -/
def contains (registry : Registry) (key : Key) : Bool := (registry.get? key).isSome

/-- The keys, in the order of registration. -/
def keys (registry : Registry) : List Key := registry.registrations.map Prod.fst

/-- The number of registrations. -/
def length (registry : Registry) : Nat := registry.registrations.length

/-- The registry with one more registration at its end. -/
def append (registry : Registry) (key : Key) (entry : EntryId) : Registry :=
  { registry with registrations := registry.registrations ++ [(key, entry)] }

/-- An entry is offered for a key, and refused when the key is taken. -/
def put (registry : Registry) (key : Key) (entry : EntryId) :
    Except DuplicateProvider Unit × Registry :=
  match registry.get? key with
  | some existing => (.error ⟨key, existing, entry⟩, registry)
  | none => (.ok (), registry.append key entry)

/-- An entry is offered for a key, and the answer says whether it was taken. -/
def putIfAbsent (registry : Registry) (key : Key) (entry : EntryId) : Bool × Registry :=
  if registry.contains key then (false, registry) else (true, registry.append key entry)

/-- A registry and those of its ancestors, as far as they exist and within the given number. -/
def lineage (registries : List Registry) : Nat → Registry → List Registry
  | 0, registry => [registry]
  | length + 1, registry =>
    registry ::
      match registry.parent.bind fun parent => registries[parent.index]? with
      | none => []
      | some parent => lineage registries length parent

/-- A registry and those of all its ancestors, the nearest first. There are no more than there
are registries. -/
def ancestry (registries : List Registry) (registry : Registry) : List Registry :=
  lineage registries registries.length registry

/-- The nearest entry under a key, in the registry or in those of its ancestors. -/
def getNearest? (registries : List Registry) (registry : Registry) (key : Key) : Option EntryId :=
  (ancestry registries registry).findSome? fun nearest => nearest.get? key

/-- The compiled form of each registration, in order, up to the first that cannot be compiled. -/
def compileEach {σ ε α : Type} (registry : Registry) (compile : Key → EntryId → Attempt σ ε α) :
    Attempt σ ε (List (Key × α)) :=
  Attempt.forEach
    (fun pair => (compile pair.1 pair.2).andThen fun compiled => Attempt.done (pair.1, compiled))
    registry.registrations

@[simp] theorem empty_get? (scope : ScopeId) (parent : Option ScopeId) (key : Key) :
    (empty scope parent).get? key = none := rfl

theorem get?_append (registry : Registry) (key other : Key) (entry : EntryId) :
    (registry.append key entry).get? other =
      (registry.get? other).or (if key = other then some entry else none) := by
  unfold get? append
  rw [List.find?_append]
  cases found : registry.registrations.find? fun pair => pair.1 == other with
  | some pair => simp
  | none => by_cases same : key = other <;> simp [same]

@[simp] theorem keys_append (registry : Registry) (key : Key) (entry : EntryId) :
    (registry.append key entry).keys = registry.keys ++ [key] := by
  simp [keys, append]

theorem contains_iff_mem_keys {registry : Registry} {key : Key} :
    registry.contains key = true ↔ key ∈ registry.keys := by
  simp [contains, get?, keys, Option.isSome_map]

end Registry

end Wiring
