import Wiring.AssemblyInfo
import Wiring.TracingConfig

/-!
The types of the values that services provide. A type has an identity, a name that messages print,
and a carrier, which says what its values hold. There is a type of every identity, name and carrier:
which of them an application uses is its own affair. Two types can share a name and are still
different.
-/

namespace Wiring

/-- What the values of a type hold. -/
inductive Carrier where
  | u8
  | u16
  | u32
  | u64
  | i8
  | i32
  | i64
  | bool
  | char
  | string
  | unit
  | assemblyInfo
  | tracingConfig
  | pair (first second : Carrier)
  | list (item : Carrier)
deriving DecidableEq, Repr

namespace Carrier

/-- The contents that a carrier stands for. -/
abbrev Contents : Carrier → Type
  | .u8 => UInt8
  | .u16 => UInt16
  | .u32 => UInt32
  | .u64 => UInt64
  | .i8 => Int8
  | .i32 => Int32
  | .i64 => Int64
  | .bool => Bool
  | .char => Char
  | .string => String
  | .unit => Unit
  | .assemblyInfo => AssemblyInfo
  | .tracingConfig => TracingConfig
  | .pair first second => first.Contents × second.Contents
  | .list item => List item.Contents

/-- The number behind the contents, as a signed word of 64 bits. Parts are added up. -/
def number : (carrier : Carrier) → carrier.Contents → Int64
  | .u8, content => content.toUInt64.toInt64
  | .u16, content => content.toUInt64.toInt64
  | .u32, content => content.toUInt64.toInt64
  | .u64, content => content.toInt64
  | .i8, content => content.toInt64
  | .i32, content => content.toInt64
  | .i64, content => content
  | .bool, content => if content then 1 else 0
  | .char, content => Int64.ofNat content.toNat
  | .string, content => Int64.ofNat content.length
  | .unit, _ => 0
  | .assemblyInfo, content => Int64.ofNat content.name.length
  | .tracingConfig, content => Int64.ofNat content.directives.length
  | .pair first second, content => first.number content.1 + second.number content.2
  | .list item, content => (content.map item.number).foldl (· + ·) 0

/-- The text of the contents. -/
def text : (carrier : Carrier) → carrier.Contents → String
  | .u8, content => toString content.toNat
  | .u16, content => toString content.toNat
  | .u32, content => toString content.toNat
  | .u64, content => toString content.toNat
  | .i8, content => toString content.toInt
  | .i32, content => toString content.toInt
  | .i64, content => toString content.toInt
  | .bool, content => if content then "true" else "false"
  | .char, content => content.toString
  | .string, content => content
  | .unit, _ => "()"
  | .assemblyInfo, content => content.json
  | .tracingConfig, content => content.directives
  | .pair first second, content =>
    "(" ++ first.text content.1 ++ ", " ++ second.text content.2 ++ ")"
  | .list item, content => "[" ++ String.intercalate ", " (content.map item.text) ++ "]"

/-- Contents made of a number and a text: numbers keep the bits that fit, a truth value keeps the
lowest bit, a character is one of the 26 capitals, and other simple contents take the text. Both
parts of a pair, and the only item of a list, are made in the same way. -/
def content : (carrier : Carrier) → Int64 → String → carrier.Contents
  | .u8, number, _ => number.toUInt64.toUInt8
  | .u16, number, _ => number.toUInt64.toUInt16
  | .u32, number, _ => number.toUInt64.toUInt32
  | .u64, number, _ => number.toUInt64
  | .i8, number, _ => number.toInt8
  | .i32, number, _ => number.toInt32
  | .i64, number, _ => number
  | .bool, number, _ => number.toUInt64 &&& 1 == 1
  | .char, number, _ => Char.ofNat (65 + (number.toInt % 26).toNat)
  | .string, _, text => text
  | .unit, _, _ => ()
  | .assemblyInfo, _, text => .named text
  | .tracingConfig, _, text => { envFilter := some text }
  | .pair first second, number, text => (first.content number text, second.content number text)
  | .list item, number, text => [item.content number text]

end Carrier

/-- A type of service values. -/
structure ServiceType where
  identity : Nat
  name : String
  carrier : Carrier
deriving DecidableEq, Repr

namespace ServiceType

/-- The type of the contents. -/
abbrev Contents (type : ServiceType) : Type := type.carrier.Contents

/-- The type with only one value. -/
abbrev unit : ServiceType := ⟨0, "()", .unit⟩

/-- The type of the facts about an assembly. -/
abbrev assemblyInfo : ServiceType :=
  ⟨1, "lodestar_core_bundles::assembly_info::AssemblyInfo", .assemblyInfo⟩

/-- The type of a tracing configuration. -/
abbrev tracingConfig : ServiceType :=
  ⟨2, "lodestar_core_bundles::tracing_bundle::TracingConfig", .tracingConfig⟩

end ServiceType

end Wiring
