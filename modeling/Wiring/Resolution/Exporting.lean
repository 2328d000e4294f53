import Wiring.Resolution.Draft

/-!
Exports: what a scope shows to its parent, and the root to the public. The scopes below a scope
export first. Two exports may claim one outward key only for the same producer, and an export of
what the parent holds already adds nothing.
-/

namespace Wiring

/-- A scope and those below it, each after all that are below it. The depth of the tree is
bounded. -/
def exportOrder (scopes : List Scope) : Nat → ScopeId → List ScopeId
  | 0, scope => [scope]
  | depth + 1, scope =>
    ((scopes[scope.index]?.map Scope.children).getD []).flatMap (exportOrder scopes depth) ++
      [scope]

/-- An entry on its way out. -/
structure Candidate where
  key : Key
  exportAs : Key
  entry : EntryId

namespace Draft

/-- An export gives its candidates, or is recorded as one that finds nothing. -/
def select (data : Scope) (scope : ScopeId) (selection : List Candidate × Draft)
    (spec : ExportSpec) : List Candidate × Draft :=
  match spec with
  | .keyed key exportAs =>
    match (selection.2.registry scope).get? key with
    | some entry => (selection.1 ++ [⟨key, exportAs, entry⟩], selection.2)
    | none =>
      (selection.1,
        { selection.2 with
          diagnostics := selection.2.diagnostics.recordUnresolvedExport
            { key := key, exportAs := exportAs, scope := data.name, target := none } })
  | .all =>
    (selection.1 ++
      (selection.2.registry scope).registrations.map fun pair => ⟨pair.1, pair.1, pair.2⟩,
      selection.2)

/-- What is known of a claim. -/
def claimant? (draft : Draft) (claim : Claim) : Option (EntryId × ExportDescriptor) :=
  (draft.claimed.find? fun known => known.1 == claim).map Prod.snd

/-- A claim is made. -/
def claim (draft : Draft) (claim : Claim) (entry : EntryId) (descriptor : ExportDescriptor) :
    Draft :=
  { draft with claimed := draft.claimed ++ [(claim, (entry, descriptor))] }

/-- The parent holds the same producer under the key already. -/
def holdsSame (draft : Draft) (parent : Option ScopeId) (key : Key) (entry : EntryId) : Bool :=
  match parent with
  | none => false
  | some parent =>
    match (draft.registry parent).get? key with
    | none => false
    | some existing => sameProducer draft.entries existing entry

/-- A new entry for a candidate, in the parent or in public. -/
def deliver (scopes : List Scope) (data : Scope) (scope : ScopeId) (candidate : Candidate)
    (draft : Draft) : Draft :=
  let (id, draft) := draft.push
    (.ofDelegate candidate.exportAs (delegateTo draft.entries candidate.entry)
      (data.parent.getD scope) ("export from `" ++ data.name ++ "`"))
  match data.parent with
  | some parent => draft.register scopes parent candidate.exportAs id
  | none => draft.publish scopes candidate.exportAs id

/-- A candidate leaves its scope. -/
def send (scopes : List Scope) (data : Scope) (scope : ScopeId) (draft : Draft)
    (candidate : Candidate) : Draft :=
  let descriptor : ExportDescriptor :=
    { key := candidate.key
      exportAs := candidate.exportAs
      scope := data.name
      target := some (producer draft.entries candidate.entry) }
  match draft.claimant? (data.parent, candidate.exportAs) with
  | some (claimed, existing) =>
    if sameProducer draft.entries claimed candidate.entry then draft
    else
      { draft with
        diagnostics :=
          draft.diagnostics.recordDuplicateExport candidate.exportAs existing descriptor }
  | none =>
    let draft := draft.claim (data.parent, candidate.exportAs) candidate.entry descriptor
    if draft.holdsSame data.parent candidate.exportAs candidate.entry then draft
    else deliver scopes data scope candidate draft

/-- A scope exports what it has to export. -/
def exportFrom (scopes : List Scope) (draft : Draft) (scope : ScopeId) : Draft :=
  match scopes[scope.index]? with
  | none => draft
  | some data =>
    let (candidates, draft) := data.exports.foldl (select data scope) ([], draft)
    candidates.foldl (send scopes data scope) draft

end Draft

end Wiring
