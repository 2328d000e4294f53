import Wiring.Pool

/-!
Questions about a pool, and their answers.
-/

namespace Wiring

/-- The ways in which a value is asked for. -/
inductive Route where
  /-- Under the key, with the type. -/
  | keyed
  /-- Under the unqualified key of the type. -/
  | plain
  /-- Under the key of the type with the qualifier of the key. -/
  | qualified
  /-- Under the key, whatever the type. -/
  | handle
  /-- From the entry under the key, with the type. -/
  | entry
  /-- From the entry under the key, whatever the type. -/
  | entryHandle
deriving DecidableEq

/-- A question about a pool. -/
inductive PoolQuery where
  | get (key : Key) (type : ServiceType) (route : Route)
  | contains (key : Key)
  /-- What can be seen of an entry; in full, with the text that describes it. -/
  | entry (key : Key) (full : Bool)
  | services
  | race (key : Key) (threads : Nat)
  | contents

/-- What a pool shows of itself. -/
structure PoolView where
  name : String
  parent : Option String
  entries : List EntryView
  services : List ServiceDescriptor
  described : String

/-- The length of a pool: the number of entries of its own scope. -/
def PoolView.length (view : PoolView) : Nat := view.entries.length

/-- The keys that are visible in a pool. -/
def PoolView.visible (view : PoolView) : List Key := view.services.map ServiceDescriptor.key

/-- The answer to a question. -/
inductive Answer where
  /-- There is nothing of that name. -/
  | nothing
  | value (handle : Instance)
  | failed (error : LookupError)
  | panicked (message : String)
  /-- No answer within the bound on nested lookups. -/
  | exhausted
  | truth (truth : Bool)
  | entry (view : EntryView) (full : Bool)
  | services (services : List ServiceDescriptor)
  /-- The outcomes of several readers, in order of their texts, and the objects among them, each
  once. -/
  | race (outcomes : List String) (objects : List ObjectId)
  | contents (view : PoolView)

end Wiring
