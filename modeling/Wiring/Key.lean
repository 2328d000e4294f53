import Wiring.ServiceType

/-!
Service keys. A key names a value by its type and, where several values of a type are told apart,
by a qualifier. The empty qualifier is no qualifier, so a key never holds it.
-/

namespace Wiring

/-- A type and an optional qualifier, which is not empty. -/
structure Key where
  type : ServiceType
  qualifier : Option String
  proper : qualifier ≠ some ""
deriving DecidableEq

namespace Key

/-- The key of a type without a qualifier. -/
def of (type : ServiceType) : Key where
  type := type
  qualifier := none
  proper := by simp

/-- The key of the same type under the given qualifier. -/
def withQualifier (key : Key) (qualifier : String) : Key :=
  if empty : qualifier = "" then of key.type
  else ⟨key.type, some qualifier, by simpa using empty⟩

/-- The key of the same type without a qualifier. -/
def withoutQualifier (key : Key) : Key := of key.type

/-- The key of a type under the given qualifier. -/
def qualified (type : ServiceType) (qualifier : String) : Key :=
  (of type).withQualifier qualifier

/-- The key carries a qualifier. -/
def isQualified (key : Key) : Bool := key.qualifier.isSome

/-- Two keys name values of one type. -/
def sameType (left right : Key) : Bool := left.type == right.type

/-- A key as messages print it: the name of the type, and the qualifier behind an at sign. -/
def shown (key : Key) : String :=
  match key.qualifier with
  | none => key.type.name
  | some qualifier => key.type.name ++ "@" ++ qualifier

/-- A key inside the description of another thing. -/
def described (key : Key) : String := "Key(" ++ key.shown ++ ")"

@[simp] theorem of_type (type : ServiceType) : (of type).type = type := rfl

@[simp] theorem of_qualifier (type : ServiceType) : (of type).qualifier = none := rfl

@[simp] theorem withQualifier_type (key : Key) (qualifier : String) :
    (key.withQualifier qualifier).type = key.type := by
  unfold withQualifier
  split <;> rfl

@[simp] theorem withoutQualifier_type (key : Key) : key.withoutQualifier.type = key.type := rfl

theorem withQualifier_empty (key : Key) : key.withQualifier "" = of key.type := by
  simp [withQualifier]

theorem sameType_iff {left right : Key} : left.sameType right = true ↔ left.type = right.type := by
  simp [sameType]

end Key

/-- A question about a key that a filter can ask. -/
inductive KeyTest where
  | qualified (expected : Bool)
  | sameType (key : Key)
  | differs (key : Key)
  | qualifierStarts (start : String)

namespace KeyTest

/-- The answer for a key. -/
def holds (test : KeyTest) (key : Key) : Bool :=
  match test with
  | .qualified expected => key.isQualified == expected
  | .sameType other => key.sameType other
  | .differs other => key != other
  | .qualifierStarts start =>
    match key.qualifier with
    | none => false
    | some qualifier => start.toList.isPrefixOf qualifier.toList

end KeyTest

end Wiring
