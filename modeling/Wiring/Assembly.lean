import Wiring.Boundary
import Wiring.Config
import Wiring.Entry
import Wiring.Query

/-!
Assemblies: a tree of scopes and everything that was declared in them. Scopes and entries are
numbered in the order of their declaration. Each declaration is checked before anything changes,
so a refused one leaves the assembly as it was.
-/

namespace Wiring

/-- An import with the bundle that declared it. -/
structure Import where
  spec : ImportSpec
  source : Option String

/-- A scope with what was declared in it. Its name is the path from the root. -/
structure Scope where
  name : String
  parent : Option ScopeId
  children : List ScopeId
  declared : List EntryId
  imports : List Import
  exports : List ExportSpec

/-- A scope before anything is declared in it. -/
def Scope.empty (name : String) (parent : Option ScopeId) : Scope where
  name := name
  parent := parent
  children := []
  declared := []
  imports := []
  exports := []

/-- One thing that a bundle does with a built pool. -/
inductive FinishStep where
  | ask (query : PoolQuery)
  | panic (message : String)

/-- What a bundle does with the pool of its scope when the application is built. -/
inductive Finish where
  /-- It says under a label that it finishes, and takes its steps one after the other. -/
  | script (label : String) (steps : List FinishStep)
  /-- It puts in force the configuration of tracing that it finds; the given one is its own. -/
  | tracing (own : TracingConfig)
  /-- It does nothing. -/
  | nothing

/-- A bundle as it is remembered after it was configured. -/
structure Bundle where
  name : String
  finish : Finish

/-- A bundle and the scope into which it was installed. -/
structure Installation where
  scope : ScopeId
  bundle : Bundle

/-- Everything declared for one application. The number tells the assembly from others; the source
is the bundle that is being configured. -/
structure Assembly where
  number : Nat
  config : Config
  scopes : List Scope
  entries : List Entry
  installations : List Installation
  source : Option String

namespace Assembly

/-- An assembly with its root scope and nothing else. -/
def new (number : Nat) (config : Config) : Assembly where
  number := number
  config := config
  scopes := [Scope.empty config.name none]
  entries := []
  installations := []
  source := none

/-- The scope at a position, which must exist. -/
def scope (assembly : Assembly) (id : ScopeId) : Except Misuse Scope :=
  match assembly.scopes[id.index]? with
  | some scope => .ok scope
  | none => .error (.unknownScope id assembly.config.name)

/-- The name of a scope, and nothing for a position that does not exist. -/
def scopeName (assembly : Assembly) (id : ScopeId) : String :=
  (assembly.scopes[id.index]?.map Scope.name).getD ""

/-- The assembly with a change to one of its scopes. -/
def changeScope (assembly : Assembly) (id : ScopeId) (change : Scope → Scope) : Assembly :=
  { assembly with scopes := assembly.scopes.modify id.index change }

/-- The path name of a child of a scope. -/
def childName (parent : Scope) (name : String) : String := parent.name ++ "/" ++ name

/-- A new scope under a parent, and its position. The parent must exist and the path name must be
new. -/
def addScope (assembly : Assembly) (name : String) (parent : ScopeId) :
    Except Misuse (ScopeId × Assembly) :=
  match assembly.scope parent with
  | .error misuse => .error misuse
  | .ok scope =>
    let path := childName scope name
    if assembly.scopes.any fun other => other.name == path then .error (.scopeTaken path)
    else
      let id : ScopeId := ⟨assembly.scopes.length⟩
      let grown := { assembly with scopes := assembly.scopes ++ [Scope.empty path (some parent)] }
      .ok (id, grown.changeScope parent fun scope =>
        { scope with children := scope.children ++ [id] })

/-- A new entry, declared in its scope. -/
def declare (assembly : Assembly) (entry : Entry) : EntryId × Assembly :=
  let id : EntryId := ⟨assembly.entries.length⟩
  let grown := { assembly with entries := assembly.entries ++ [entry] }
  (id, grown.changeScope entry.scope fun scope =>
    { scope with declared := scope.declared ++ [id] })

/-- The identity of an instance that is declared next. -/
def nextObject (assembly : Assembly) : ObjectId :=
  .declared assembly.number assembly.entries.length

/-- A new import of a scope. -/
def addImport (assembly : Assembly) (scope : ScopeId) (spec : ImportSpec) : Assembly :=
  assembly.changeScope scope fun data =>
    { data with imports := data.imports ++ [⟨spec, assembly.source⟩] }

/-- A new export of a scope. -/
def addExport (assembly : Assembly) (scope : ScopeId) (spec : ExportSpec) : Assembly :=
  assembly.changeScope scope fun data => { data with exports := data.exports ++ [spec] }

/-- A bundle is recorded for a scope and becomes the source of what follows. -/
def enter (assembly : Assembly) (scope : ScopeId) (bundle : Bundle) : Assembly :=
  { assembly with
    installations := assembly.installations ++ [⟨scope, bundle⟩]
    source := some bundle.name }

end Assembly

end Wiring
