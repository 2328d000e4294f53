import Wiring.Key

/-!
A stock of service types: the common types of numbers and texts, two twins that share their name,
and the types of the core bundles. Each has a word that stands for it in the path of a key.
-/

namespace Wiring

namespace ServiceType

abbrev u8 : ServiceType := ⟨3, "u8", .u8⟩

abbrev u16 : ServiceType := ⟨4, "u16", .u16⟩

abbrev u32 : ServiceType := ⟨5, "u32", .u32⟩

abbrev u64 : ServiceType := ⟨6, "u64", .u64⟩

abbrev i8 : ServiceType := ⟨7, "i8", .i8⟩

abbrev i32 : ServiceType := ⟨8, "i32", .i32⟩

abbrev i64 : ServiceType := ⟨9, "i64", .i64⟩

abbrev bool : ServiceType := ⟨10, "bool", .bool⟩

abbrev char : ServiceType := ⟨11, "char", .char⟩

abbrev string : ServiceType := ⟨12, "alloc::string::String", .string⟩

abbrev firstTwin : ServiceType := ⟨13, "oracle_driver::types::_::Twin", .i64⟩

abbrev secondTwin : ServiceType := ⟨14, "oracle_driver::types::_::Twin", .i64⟩

/-- The types of the stock under the words that stand for them. -/
def stock : List (String × ServiceType) :=
  [("u8", .u8), ("u16", .u16), ("u32", .u32), ("u64", .u64), ("i8", .i8), ("i32", .i32),
    ("i64", .i64), ("bool", .bool), ("char", .char), ("String", .string), ("unit", .unit),
    ("twin_a", .firstTwin), ("twin_b", .secondTwin), ("info", .assemblyInfo),
    ("tracing", .tracingConfig)]

/-- The type for which a word stands. -/
def ofToken? (token : String) : Option ServiceType := stock.lookup token

/-- The word that stands for a type. A type that is not in the stock goes by its name. -/
def token (type : ServiceType) : String :=
  ((stock.find? fun item => item.2 == type).map Prod.fst).getD type.name

example : firstTwin.name = secondTwin.name ∧ firstTwin ≠ secondTwin := by decide

end ServiceType

namespace Key

/-- A key as a path: the token of the type, and the qualifier behind an at sign. -/
def path (key : Key) : String :=
  match key.qualifier with
  | none => key.type.token
  | some qualifier => key.type.token ++ "@" ++ qualifier

/-- The key with the given path. The first at sign ends the token, and an empty rest is no
qualifier. -/
def ofPath? (path : String) : Option Key :=
  let (token, rest) := path.toList.span (· != '@')
  (ServiceType.ofToken? (String.ofList token)).map fun type =>
    qualified type (String.ofList (rest.drop 1))

end Key

end Wiring
