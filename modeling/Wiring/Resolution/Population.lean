import Wiring.Resolution.Draft

/-!
The population of a scope: its declared providers, then for each import every entry of the source
whose key the import keeps. An imported entry delegates to the producer behind the entry of the
source.
-/

namespace Wiring

/-- The bundle that declared an import, and otherwise a text that tells its source. -/
def Import.label (imported : Import) (scopes : List Scope) : String :=
  imported.source.getD <|
    match imported.spec.source with
    | .scope id =>
      "import from `" ++ (scopes[id.index]?.map Scope.name).getD "" ++ "`"
    | .pool built => "import from pool `" ++ built.name ++ "`"

namespace Draft

/-- The keys of a source, each with a delegate to its producer. -/
def candidates (draft : Draft) : ImportSource → List (Key × Delegate)
  | .scope id =>
    (draft.registry id).registrations.map fun pair => (pair.1, delegateTo draft.entries pair.2)
  | .pool built => built.visibleEntries.map fun entry => (entry.key, .foreign entry)

/-- A candidate whose key the import keeps is offered to the scope as a new entry. -/
def offer (scopes : List Scope) (scope : ScopeId) (imported : Import) (draft : Draft)
    (candidate : Key × Delegate) : Draft :=
  match imported.spec.apply candidate.1 with
  | none => draft
  | some key =>
    let (id, draft) := draft.push (.ofDelegate key candidate.2 scope (imported.label scopes))
    draft.register scopes scope key id

/-- An import brings in its candidates. -/
def bringIn (scopes : List Scope) (scope : ScopeId) (draft : Draft) (imported : Import) : Draft :=
  (draft.candidates imported.spec.source).foldl (offer scopes scope imported) draft

/-- A declared provider is offered to its scope under its own key. -/
def enroll (scopes : List Scope) (scope : ScopeId) (draft : Draft) (id : EntryId) : Draft :=
  match draft.entries[id.index]? with
  | none => draft
  | some entry => draft.register scopes scope entry.key id

/-- A scope receives its providers and its imports. -/
def populate (scopes : List Scope) (draft : Draft) (scope : ScopeId) : Draft :=
  match scopes[scope.index]? with
  | none => draft
  | some data =>
    let filled := data.imports.foldl (bringIn scopes scope)
      (data.declared.foldl (enroll scopes scope) draft)
    filled.report (.scopeResolved data.name (filled.registry scope).length)

end Draft

end Wiring
