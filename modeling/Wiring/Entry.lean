import Wiring.Pool

/-!
Entries: what an assembly knows about one provider before it is compiled. A provider is an
instance or a factory. Imports and exports add entries that delegate to a provider, of the same
assembly or of a pool that was built before.
-/

namespace Wiring

/-- The provider behind a delegating entry. -/
inductive Delegate where
  /-- An entry of the same assembly. -/
  | entry (target : EntryId)
  /-- An entry of a pool that was built before. -/
  | foreign (entry : RuntimeEntry)

/-- Where the value of an entry comes from: it was given as an instance, it is made by a factory, or
another entry has it. -/
inductive Origin where
  | given (handle : Instance)
  | made (factory : Factory)
  | delegate (target : Delegate)

/-- The kind of an origin. -/
inductive OriginKind where
  | given
  | made
  | delegate
deriving DecidableEq, Repr

/-- The name of a kind in messages. -/
def OriginKind.name : OriginKind → String
  | .given => "instance"
  | .made => "factory"
  | .delegate => "delegate"

namespace Origin

/-- The kind of an origin. -/
def kind : Origin → OriginKind
  | .given _ => .given
  | .made _ => .made
  | .delegate _ => .delegate

/-- An origin with what can be shown of it. -/
def described : Origin → String
  | .given handle => "Instance(" ++ handle.shown ++ ")"
  | .made factory => factory.shown
  | .delegate (.entry target) => "Delegate(Entry(EntryId(" ++ toString target.index ++ ")))"
  | .delegate (.foreign entry) => "Delegate(Foreign(" ++ (entry.view none).described ++ "))"

end Origin

/-- A provider, or a delegate to one, in a scope. The source is the bundle, import or export that
declared the entry. -/
structure Entry where
  key : Key
  origin : Origin
  dependencies : List Key
  mode : Option InstantiationMode
  description : Option String
  scope : ScopeId
  source : Option String

namespace Entry

/-- The entry of an instance; it is constant. -/
def ofHandle (key : Key) (handle : Instance) (scope : ScopeId) (source : Option String) : Entry where
  key := key
  origin := .given handle
  dependencies := []
  mode := some .constant
  description := none
  scope := scope
  source := source

/-- The entry of a factory; its mode can be chosen later. -/
def ofFactory (key : Key) (factory : Factory) (dependencies : List Key) (scope : ScopeId)
    (source : Option String) : Entry where
  key := key
  origin := .made factory
  dependencies := dependencies
  mode := none
  description := none
  scope := scope
  source := source

/-- The entry of a delegate. -/
def ofDelegate (key : Key) (target : Delegate) (scope : ScopeId) (source : String) : Entry where
  key := key
  origin := .delegate target
  dependencies := []
  mode := none
  description := none
  scope := scope
  source := some source

/-- The value comes from a factory of this entry. -/
def isFactory (entry : Entry) : Bool := entry.origin.kind == .made

/-- The value comes from another entry. -/
def isDelegate (entry : Entry) : Bool := entry.origin.kind == .delegate

end Entry

end Wiring
