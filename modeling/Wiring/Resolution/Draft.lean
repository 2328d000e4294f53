import Wiring.Assembly
import Wiring.Diagnostics
import Wiring.Registry

/-!
The state of a resolution: the entries with the delegates that were added so far, one registry for
each scope, the public exports, and the problems that came up.
-/

namespace Wiring

/-- The producer behind an entry: the target of a delegate to an entry of the assembly, and
otherwise the entry itself. -/
def producer (entries : List Entry) (id : EntryId) : EntryId :=
  match entries[id.index]?.map Entry.origin with
  | some (.delegate (.entry target)) => target
  | _ => id

/-- The entry of a built pool behind a delegate. -/
def foreignEntry? (entries : List Entry) (id : EntryId) : Option RuntimeEntry :=
  match entries[id.index]?.map Entry.origin with
  | some (.delegate (.foreign entry)) => some entry
  | _ => none

/-- Two entries have one producer: the same entry of the assembly, or two foreign entries that
share an accessor. -/
def sameProducer (entries : List Entry) (left right : EntryId) : Bool :=
  if producer entries left = producer entries right then true
  else
    match foreignEntry? entries (producer entries left),
        foreignEntry? entries (producer entries right) with
    | some first, some second => first.sharesAccessor second
    | _, _ => false

/-- A delegate to the producer behind an entry. -/
def delegateTo (entries : List Entry) (id : EntryId) : Delegate :=
  match entries[id.index]?.map Entry.origin with
  | some (.delegate target) => target
  | _ => .entry id

/-- An outward key, and the scope that receives it; without one it is public. -/
abbrev Claim := Option ScopeId × Key

/-- A resolution on its way. -/
structure Draft where
  entries : List Entry
  registries : List Registry
  exports : Registry
  claimed : List (Claim × (EntryId × ExportDescriptor))
  diagnostics : Diagnostics
  events : List Event

namespace Draft

/-- The draft before anything is resolved: the declared entries and an empty registry for each
scope. -/
def start (scopes : List Scope) (entries : List Entry) : Draft where
  entries := entries
  registries := scopes.zipIdx.map fun pair => Registry.empty ⟨pair.2⟩ pair.1.parent
  exports := Registry.empty .root none
  claimed := []
  diagnostics := .empty
  events := []

/-- The registry of a scope. -/
def registry (draft : Draft) (scope : ScopeId) : Registry :=
  draft.registries[scope.index]?.getD (Registry.empty scope none)

/-- What messages say about an entry. -/
def describe (draft : Draft) (scopes : List Scope) (id : EntryId) : EntryDescriptor :=
  match draft.entries[id.index]? with
  | some entry =>
    .of id entry ((scopes[entry.scope.index]?.map Scope.name).getD "")
  | none =>
    { id := id
      key := Key.of .unit
      origin := .delegate
      scope := ""
      source := none
      description := none }

/-- A new entry at the end of the list. -/
def push (draft : Draft) (entry : Entry) : EntryId × Draft :=
  (⟨draft.entries.length⟩, { draft with entries := draft.entries ++ [entry] })

/-- Two entries compete for a key. -/
def recordDuplicate (draft : Draft) (scopes : List Scope) (error : DuplicateProvider) : Draft :=
  { draft with
    diagnostics := draft.diagnostics.recordDuplicateProvider error.key
      (draft.describe scopes error.existing) (draft.describe scopes error.rejected) }

/-- An entry is offered for a key of a scope; when the key is taken that is a problem. -/
def register (draft : Draft) (scopes : List Scope) (scope : ScopeId) (key : Key) (id : EntryId) :
    Draft :=
  match (draft.registry scope).put key id with
  | (.ok (), registry) =>
    { draft with registries := draft.registries.set scope.index registry }
  | (.error error, _) => draft.recordDuplicate scopes error

/-- An entry is offered for a public key. -/
def publish (draft : Draft) (scopes : List Scope) (key : Key) (id : EntryId) : Draft :=
  match draft.exports.put key id with
  | (.ok (), exports) => { draft with exports := exports }
  | (.error error, _) => draft.recordDuplicate scopes error

/-- An event is reported. -/
def report (draft : Draft) (event : Event) : Draft :=
  { draft with events := draft.events ++ [event] }

end Draft

end Wiring
