import Wiring.Dependencies
import Wiring.InstantiationMode

/-!
What a factory does when it is called. A behaviour is a tree: it ends in a value, an error or a
panic, and before that it may write notes and ask applications for other values. What it goes on to
do depends on the answers, so the tree branches on them.
-/

namespace Wiring

/-- The name of a pool within an application. -/
inductive PoolName where
  | root
  | scope (index : Nat)
  | path (name : String)
  | exports
deriving DecidableEq

/-- A pool among those of all applications. Whoever was given a pool while the bundles of its
application finished holds it, and counts the applications whose bundles have not finished too. -/
structure PoolPath where
  application : Nat
  pool : PoolName
  held : Bool
deriving DecidableEq

/-- How far a lazy value has come. -/
inductive LazyState where
  | uninitialized
  | computing
  | ready
  | failed
deriving DecidableEq, Repr

/-- The name of a state. -/
def LazyState.name : LazyState → String
  | .uninitialized => "Uninitialized"
  | .computing => "Computing"
  | .ready => "Ready"
  | .failed => "Failed"

/-- What can be seen of an entry of a pool without asking for its value. -/
structure EntryView where
  key : Key
  description : Option String
  mode : InstantiationMode
  state : Option LazyState
deriving DecidableEq

/-- An entry with all that it shows of itself; the state of a lazy value is not part of it. -/
def EntryView.described (view : EntryView) : String :=
  "RuntimeEntry \x7b key: " ++ view.key.described ++ ", mode: " ++ view.mode.title ++
    ", description: " ++ Text.quotedOption view.description ++ " \x7d"

/-- A note that a factory writes while it runs. -/
inductive FactoryNote where
  /-- The factory was called for the given time. -/
  | called (label : String) (call : Nat)
  /-- The dependencies that the factory received. -/
  | received (owner : Key) (keys : List Key)
  /-- The factory looked for a pool that does not exist. -/
  | noPool (label : String)
  /-- The factory looked at an entry. -/
  | peeked (label : String) (view : Option EntryView)
  /-- A value that the factory asked for could not be had. -/
  | lookupFailed (label : String) (message : String)

/-- What a called factory does. A question about a pool that does not exist is answered by
nothing. -/
inductive Behaviour (ε : Type) where
  | give (value : Value)
  | fail (error : ε)
  | panic (message : String)
  | write (note : FactoryNote) (next : Behaviour ε)
  | lookup (path : PoolPath) (key : Key)
      (next : Option (Except LookupError Instance) → Behaviour ε)
  | peek (path : PoolPath) (key : Key) (next : Option (Option EntryView) → Behaviour ε)

namespace Behaviour

/-- The same behaviour with another end in place of each error. -/
def catchWith {ε δ : Type} (handler : ε → Behaviour δ) : Behaviour ε → Behaviour δ
  | .give value => .give value
  | .fail error => handler error
  | .panic message => .panic message
  | .write note next => .write note (catchWith handler next)
  | .lookup path key next => .lookup path key fun answer => catchWith handler (next answer)
  | .peek path key next => .peek path key fun answer => catchWith handler (next answer)

end Behaviour

end Wiring
