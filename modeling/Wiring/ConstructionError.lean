import Wiring.Key
import Wiring.Identity

/-!
The ways in which producing a value fails, and the message of each.
-/

namespace Wiring

/-- Why a value could not be produced. -/
inductive ConstructionError where
  /-- The factory reported an error of its own. -/
  | failed (key : Key) (reason : String)
  /-- A dependency could not be produced. -/
  | dependency (key dependency : Key) (source : ConstructionError)
  /-- A value has another type than its key or its reader expects. -/
  | typeMismatch (key : Key) (expected found : ServiceType)
  /-- The factory asked for a dependency that was not declared. -/
  | missingDependency (key : Key) (index : Nat)
  /-- A lazy value was asked for while its own factory was running. -/
  | reentrant (key : Key)
  /-- The factory panicked when the value was first asked for. -/
  | panicked (key : Key)
deriving DecidableEq

namespace ConstructionError

/-- The message of an error; it ends with the message of the error behind it. -/
def message : ConstructionError → String
  | .failed key reason => "factory for " ++ key.shown ++ " failed: " ++ reason
  | .dependency key needed source =>
    "cannot construct " ++ key.shown ++ ": dependency " ++ needed.shown ++ " failed: " ++
      source.message
  | .typeMismatch key expected found =>
    "type mismatch for " ++ key.shown ++ ": expected " ++ expected.name ++ ", found " ++ found.name
  | .missingDependency key index =>
    "factory for " ++ key.shown ++ " requested dependency #" ++ toString index ++
      ", which was not declared"
  | .reentrant key => "re-entrant construction of " ++ key.shown
  | .panicked key => "factory for " ++ key.shown ++ " panicked"

/-- The key whose construction failed. -/
def key : ConstructionError → Key
  | .failed key _ => key
  | .dependency key _ _ => key
  | .typeMismatch key _ _ => key
  | .missingDependency key _ => key
  | .reentrant key => key
  | .panicked key => key

/-- The failure that started it all: the first error behind the dependencies that is no failed
dependency itself. -/
def rootCause : ConstructionError → ConstructionError
  | .dependency _ _ source => source.rootCause
  | error => error

/-- The messages of the errors behind an error, the nearest first. -/
def causes : ConstructionError → List String
  | .failed _ reason => [reason]
  | .dependency _ _ source => source.message :: source.causes
  | _ => []

end ConstructionError

/-- Why a lookup gave no value. -/
inductive LookupError where
  /-- No entry is visible under the key. -/
  | notFound (key : Key)
  /-- The entry is there, and producing its value failed. -/
  | construction (error : ConstructionError)
deriving DecidableEq

namespace LookupError

/-- The message of a lookup error; a failed construction keeps its own message. -/
def message : LookupError → String
  | .notFound key => "no service registered for " ++ key.shown
  | .construction error => error.message

end LookupError

/-- A second entry was offered for a key that is taken. -/
structure DuplicateProvider where
  key : Key
  existing : EntryId
  rejected : EntryId
deriving DecidableEq

namespace DuplicateProvider

/-- The message of the error. -/
def message (error : DuplicateProvider) : String :=
  "duplicate provider for " ++ error.key.shown

/-- The error with all its parts. -/
def described (error : DuplicateProvider) : String :=
  "DuplicateProvider \x7b key: " ++ error.key.described ++ ", existing: EntryId(" ++
    toString error.existing.index ++ "), rejected: EntryId(" ++ toString error.rejected.index ++
    ") \x7d"

end DuplicateProvider

end Wiring
