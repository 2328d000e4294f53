import Wiring.Assembly
import Wiring.Attempt
import Wiring.Event

/-!
Declarations: what a caller or a bundle says about one scope. Bundles bring declarations of their
own, among them further bundles, to any depth. A declaration that is refused ends the declarations
around it, up to one that catches the panic; what was declared before it stays.
-/

namespace Wiring

/-- A change to a provider that was just declared. -/
inductive Adjustment where
  | choose (mode : InstantiationMode)
  | describe (description : String)

/-- A provider as it is declared. -/
inductive Provider where
  /-- A value, under the key of its type unless another is given. -/
  | given (value : Value) (key : Option Key)
  /-- A factory that makes values of a known type, under the key of that type unless another is
  given. -/
  | typed (output : ServiceType) (key : Option Key) (dependencies : List Key) (factory : Factory)
  /-- A factory that may make anything, under a key. -/
  | untyped (key : Key) (dependencies : List Key) (factory : Factory)

/-- What is declared in a scope. -/
inductive Declaration where
  | provide (provider : Provider) (adjustments : List Adjustment)
  | importFrom (source : ImportSource) (ops : List ImportOp)
  | exportKey (key : Key)
  | exportRenamed (key exportAs : Key)
  | exportAll
  /-- A bundle declares into the scope; what it declares may depend on the configuration. -/
  | install (bundle : Bundle) (configure : Config → List Declaration)
  /-- A bundle declares into a new scope below the scope. -/
  | link (name : String) (bundle : Bundle) (configure : Config → List Declaration)
  /-- Nothing is declared, and the place is told. -/
  | locate
  /-- The caller panics. -/
  | panic (message : String)
  /-- The caller makes declarations in turn and catches a panic among them. -/
  | attempt (declarations : List Declaration)

/-- The answer to a declaration. -/
inductive Declared where
  | provided (entry : EntryId) (key : Key)
  | done
  | installed (scope : Option ScopeId) (steps : List Declared)
  | location (scope : ScopeId) (name : String) (config : Config)
  | attempted (steps : List Declared)
  | caught (misuse : Misuse)

/-- A change of an assembly that can be refused, with the events that it reports. -/
abbrev Declaring (α : Type) : Type := Attempt (Assembly × List Event) Misuse α

namespace Declaring

/-- A fact about the assembly. -/
def observe {α : Type} (fact : Assembly → α) : Declaring α :=
  Attempt.observe fun state => fact state.1

/-- A change of the assembly that cannot be refused. -/
def change (update : Assembly → Assembly) : Declaring Unit :=
  Attempt.change fun state => (update state.1, state.2)

/-- An event is reported. -/
def report (event : Event) : Declaring Unit :=
  Attempt.change fun state => (state.1, state.2 ++ [event])

/-- A check, which may refuse. -/
def require {α : Type} (check : Except Misuse α) : Declaring α :=
  match check with
  | .ok value => Attempt.done value
  | .error misuse => Attempt.fail misuse

/-- The scope must exist. -/
def requireScope (scope : ScopeId) : Declaring Unit := do
  let check ← observe fun assembly => assembly.scope scope
  let _ ← require check
  return ()

/-- An entry is declared. -/
def declare (entry : Entry) : Declaring EntryId := fun state =>
  let (id, assembly) := state.1.declare entry
  (.value id, (assembly, state.2))

/-- A scope is added, unless it is refused. -/
def addScope (name : String) (parent : ScopeId) : Declaring ScopeId := fun state =>
  match state.1.addScope name parent with
  | .ok (id, assembly) => (.value id, (assembly, state.2))
  | .error misuse => (.error misuse, state)

end Declaring

/-- A key under which values of a type can be provided. -/
def checkKeyType (type : ServiceType) (key : Key) : Except Misuse Unit :=
  if key.type = type then .ok () else .error (.wrongKeyType type key)

/-- The entry of a provider in a scope. A given key must name the type of the values. -/
def Provider.entry (provider : Provider) (scope : ScopeId) (assembly : Assembly) :
    Except Misuse Entry :=
  match provider with
  | .given value key => do
    let key := key.getD (Key.of value.type)
    checkKeyType value.type key
    return .ofHandle key ⟨assembly.nextObject, value⟩ scope assembly.source
  | .typed output key dependencies factory => do
    let key := key.getD (Key.of output)
    checkKeyType output key
    return .ofFactory key factory dependencies scope assembly.source
  | .untyped key dependencies factory =>
    return .ofFactory key factory dependencies scope assembly.source

/-- An entry after an adjustment. An instance is always constant. -/
def Adjustment.apply (adjustment : Adjustment) (entry : Entry) : Except Misuse Entry :=
  match adjustment with
  | .choose mode =>
    if entry.origin.kind = .given ∧ mode ≠ .constant then .error (.instanceMode entry.key mode)
    else .ok { entry with mode := some mode }
  | .describe description => .ok { entry with description := some description }

/-- The adjustments of a declared entry, one after the other. -/
def adjust (id : EntryId) : List Adjustment → Declaring Unit
  | [] => return ()
  | adjustment :: rest => do
    match ← Declaring.observe fun assembly => assembly.entries[id.index]? with
    | none => return ()
    | some entry =>
      let adjusted ← Declaring.require (adjustment.apply entry)
      Declaring.change fun assembly =>
        { assembly with entries := assembly.entries.set id.index adjusted }
      adjust id rest

/-- A provider is declared and then adjusted. -/
def Provider.declare (provider : Provider) (adjustments : List Adjustment) (scope : ScopeId) :
    Declaring Declared := do
  let check ← Declaring.observe (provider.entry scope)
  let entry ← Declaring.require check
  let id ← Declaring.declare entry
  adjust id adjustments
  return .provided id entry.key

/-- An import is declared. Its steps are checked before its source. -/
def declareImport (source : ImportSource) (ops : List ImportOp) (scope : ScopeId) :
    Declaring Declared := do
  let spec ← Declaring.require (ImportSpec.make source ops)
  match source with
  | .scope id => Declaring.requireScope id
  | .pool _ => pure ()
  Declaring.change fun assembly => assembly.addImport scope spec
  return .done

/-- An export is declared. -/
def declareExport (spec : Except Misuse ExportSpec) (scope : ScopeId) : Declaring Declared := do
  let spec ← Declaring.require spec
  Declaring.change fun assembly => assembly.addExport scope spec
  return .done

/-- A bundle is recorded, declares what it has to declare, and gives the source back. -/
def installing (bundle : Bundle) (scope : ScopeId) (configuring : Declaring (List Declared)) :
    Declaring (List Declared) := do
  Declaring.requireScope scope
  let source ← Declaring.observe Assembly.source
  Declaring.change fun assembly => assembly.enter scope bundle
  let steps ← configuring
  Declaring.change fun assembly => { assembly with source := source }
  let name ← Declaring.observe fun assembly => assembly.scopeName scope
  Declaring.report (.bundleInstalled bundle.name name)
  return steps

mutual

/-- A declaration in a scope. -/
def Declaration.apply : Declaration → ScopeId → Declaring Declared
  | .provide provider adjustments, scope => provider.declare adjustments scope
  | .importFrom source ops, scope => declareImport source ops scope
  | .exportKey key, scope => declareExport (.ok (ExportSpec.same key)) scope
  | .exportRenamed key exportAs, scope => declareExport (ExportSpec.rebound key exportAs) scope
  | .exportAll, scope => declareExport (.ok .all) scope
  | .install bundle configure, scope => do
    let config ← Declaring.observe Assembly.config
    let steps ← installing bundle scope (Declaration.applyEach (configure config) scope)
    return .installed none steps
  | .link name bundle configure, scope => do
    let config ← Declaring.observe Assembly.config
    let child ← Declaring.addScope name scope
    let steps ← installing bundle child (Declaration.applyEach (configure config) child)
    return .installed (some child) steps
  | .locate, scope => do
    let name ← Declaring.observe fun assembly => assembly.scopeName scope
    let config ← Declaring.observe Assembly.config
    return .location scope name config
  | .panic message, _ => Attempt.fail (.raised message)
  | .attempt declarations, scope => do
    match ← (Declaration.applyEach declarations scope).outcome with
    | .ok steps => return .attempted steps
    | .error misuse => return .caught misuse

/-- Declarations in a scope, one after the other. -/
def Declaration.applyEach : List Declaration → ScopeId → Declaring (List Declared)
  | [], _ => return []
  | declaration :: rest, scope => do
    let first ← Declaration.apply declaration scope
    let others ← Declaration.applyEach rest scope
    return first :: others

end

/-- A declaration in a scope that must exist. -/
def declareIn (scope : ScopeId) (declaration : Declaration) : Declaring Declared := do
  Declaring.requireScope scope
  declaration.apply scope

end Wiring
