/-!
The names by position that an assembly and its applications use: scopes and entries by their
index, accessors and factories by where they were made.
-/

namespace Wiring

/-- The position of a scope in its assembly. -/
structure ScopeId where
  index : Nat
deriving DecidableEq, Repr

namespace ScopeId

/-- The scope that every assembly starts with. -/
def root : ScopeId := ⟨0⟩

/-- A scope as messages print it. -/
def shown (scope : ScopeId) : String := "scope#" ++ toString scope.index

end ScopeId

/-- The position of an entry in its assembly. -/
structure EntryId where
  index : Nat
deriving DecidableEq, Repr

namespace EntryId

/-- An entry as messages print it. -/
def shown (entry : EntryId) : String := "#" ++ toString entry.index

end EntryId

/-- The identity of a factory: the assembly that declared it and its entry there. -/
structure FactoryId where
  assembly : Nat
  entry : Nat
deriving DecidableEq, Repr

/-- The identity of an accessor: its number in the order of compilation. -/
structure AccessorId where
  number : Nat
deriving DecidableEq, Repr

end Wiring
