import Wiring.Cycles
import Wiring.Resolution.Draft

/-!
Linking: each dependency of a factory is matched with the nearest entry under its key on the chain
from the scope of the factory to the root. What has no match is recorded, and so are factories
that depend on each other in a circle.
-/

namespace Wiring

/-- A dependency of an entry, with the entry that provides it, if there is one. -/
structure Need where
  consumer : EntryId
  entry : Entry
  key : Key
  provider : Option EntryId

namespace Draft

/-- The nearest entry under a key as a scope sees it. -/
def nearest? (draft : Draft) (scope : ScopeId) (key : Key) : Option EntryId :=
  Registry.getNearest? draft.registries (draft.registry scope) key

/-- The needs of an entry, in the order of its dependencies; only factories have any. -/
def needsOf (draft : Draft) (id : EntryId) (entry : Entry) : List Need :=
  if entry.isFactory then
    entry.dependencies.map fun key => ⟨id, entry, key, draft.nearest? entry.scope key⟩
  else []

/-- The needs of all entries, in order. -/
def needs (draft : Draft) : List (List Need) :=
  draft.entries.zipIdx.map fun pair => draft.needsOf ⟨pair.2⟩ pair.1

/-- The providers of the dependencies of each entry. -/
def links (draft : Draft) : List (List EntryId) :=
  draft.needs.map fun needs => needs.filterMap Need.provider

/-- A need is met, which is reported, or it is recorded as one that is not. -/
def settleNeed (scopes : List Scope) (draft : Draft) (need : Need) : Draft :=
  match need.provider with
  | some provider => draft.report (.dependencyResolved need.entry.key need.key provider)
  | none =>
    { draft with
      diagnostics := draft.diagnostics.recordUnresolvedRequirement need.key
        (draft.describe scopes need.consumer) }

/-- All needs are met or recorded. -/
def link (scopes : List Scope) (draft : Draft) : Draft :=
  draft.needs.flatten.foldl (settleNeed scopes) draft

/-- The factories on which an entry depends directly, through delegates. -/
def factoriesBehind (entries : List Entry) (links : List (List EntryId)) (index : Nat) :
    List Nat :=
  ((links.getD index []).map (producer entries)).filterMap fun id =>
    if (entries[id.index]?.map Entry.isFactory).getD false then some id.index else none

/-- The circles of factories, each as the keys along it. -/
def dependencyCycles (entries : List Entry) (links : List (List EntryId)) : List (List Key) :=
  (findCycles entries.length (factoriesBehind entries links)).map fun cycle =>
    cycle.filterMap fun index => entries[index]?.map Entry.key

/-- The circles of factories are recorded. -/
def recordCycles (draft : Draft) (links : List (List EntryId)) : Draft :=
  { draft with
    diagnostics := (dependencyCycles draft.entries links).foldl
      Diagnostics.recordDependencyCycle draft.diagnostics }

/-- The keys of a registry that hide an entry with another producer in an ancestor. -/
def shadowings (draft : Draft) (registry : Registry) : List DuplicateProvider :=
  match registry.parent with
  | none => []
  | some parent =>
    registry.registrations.filterMap fun pair =>
      match draft.nearest? parent pair.1 with
      | none => none
      | some hidden =>
        if sameProducer draft.entries hidden pair.2 then none
        else some ⟨pair.1, hidden, pair.2⟩

/-- Each key that hides another entry counts as a duplicate. -/
def rejectShadowing (scopes : List Scope) (draft : Draft) : Draft :=
  (draft.registries.flatMap draft.shadowings).foldl
    (fun draft error => draft.recordDuplicate scopes error) draft

end Draft

end Wiring
