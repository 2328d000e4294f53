import Wiring.Config
import Wiring.Json.Scanner
import Wiring.TracingConfig

/-!
Reading configurations from JSON. A configuration is an object whose fields may come in any order
and of which any may be missing, or an array of at most its three parts in order. Unknown fields
are skipped; a field that comes twice is refused.
-/

namespace Wiring

open Json (Fault Scan)

namespace InstantiationMode

/-- The mode at the front of a text. -/
def scan (text : List Char) : Scan InstantiationMode :=
  Json.oneOf (all.map name) ofName? text

/-- The mode that a text names. -/
def read (text : String) : Except Fault InstantiationMode := do
  let (mode, rest) ← scan text.toList
  Json.finished rest
  return mode

end InstantiationMode

/-- The format that a text names. -/
def TracingFormat.read (text : String) : Except Fault TracingFormat := do
  let (format, rest) ← Json.oneOf (all.map name) ofName? text.toList
  Json.finished rest
  return format

/-- The fields of a configuration as far as they are known. -/
structure ConfigFields where
  name : Option String
  defaultMode : Option InstantiationMode
  allowShadowing : Option Bool

namespace ConfigFields

/-- No field is known. -/
def empty : ConfigFields where
  name := none
  defaultMode := none
  allowShadowing := none

/-- The configuration with the known fields, and otherwise the defaults. -/
def config (fields : ConfigFields) : Config :=
  let defaults : Config := {}
  { name := fields.name.getD defaults.name
    defaultMode := fields.defaultMode.getD defaults.defaultMode
    allowShadowing := fields.allowShadowing.getD defaults.allowShadowing }

/-- A field of the given name must not be known yet. -/
def refuse (field : String) (known : Bool) : Except Fault Unit :=
  if known then .error (.data ("duplicate field `" ++ field ++ "`")) else .ok ()

/-- The field of the given name, whose value comes behind a colon. -/
def readField (fields : ConfigFields) (field : String) (text : List Char) :
    Except Fault (ConfigFields × List Char) :=
  if field = "name" then do
    refuse field fields.name.isSome
    let (name, rest) ← Json.stringAs "a string" (← Json.colon text)
    return ({ fields with name := some name }, rest)
  else if field = "default_mode" then do
    refuse field fields.defaultMode.isSome
    let (mode, rest) ← InstantiationMode.scan (← Json.colon text)
    return ({ fields with defaultMode := some mode }, rest)
  else if field = "allow_shadowing" then do
    refuse field fields.allowShadowing.isSome
    let (allowed, rest) ← Json.boolean (← Json.colon text)
    return ({ fields with allowShadowing := some allowed }, rest)
  else do
    let rest ← Json.skipValue (← Json.colon text)
    return (fields, rest)

/-- The fields of an object up to its closing bracket. Each round takes a character at least. -/
def readFields : Nat → Bool → ConfigFields → List Char → Except Fault (ConfigFields × List Char)
  | 0, _, _, _ => .error .malformed
  | rounds + 1, first, fields, text =>
    let field (text : List Char) : Except Fault (ConfigFields × List Char) :=
      match text with
      | '"' :: rest => do
        let (name, rest) ← Json.stringRest rest
        let (fields, rest) ← fields.readField name rest
        readFields rounds false fields rest
      | _ => .error .malformed
    match Json.skipBlanks text with
    | '}' :: rest => .ok (fields, rest)
    | ',' :: rest => if first then .error .malformed else field (Json.skipBlanks rest)
    | other => if first then field other else .error .malformed

/-- The rest at the next item of an array, unless the array ends here. -/
def nextItem? (first : Bool) (text : List Char) : Except Fault (Option (List Char)) :=
  match Json.skipBlanks text with
  | ']' :: _ => .ok none
  | ',' :: rest =>
    if first then .error .malformed
    else
      match Json.skipBlanks rest with
      | ']' :: _ => .error .malformed
      | other => .ok (some other)
  | other => if first then .ok (some other) else .error .malformed

/-- The items of an array, and the rest behind its closing bracket. -/
def readItems (text : List Char) : Except Fault (ConfigFields × List Char) := do
  let (fields, rest) ← items text
  match Json.skipBlanks rest with
  | ']' :: rest => return (fields, rest)
  | _ => .error .malformed
where
  /-- The name, the mode and whether shadowing is allowed, as far as they are there. -/
  items (text : List Char) : Except Fault (ConfigFields × List Char) := do
    match ← nextItem? true text with
    | none => return (empty, text)
    | some item =>
      let (name, rest) ← Json.stringAs "a string" item
      let fields := { empty with name := some name }
      match ← nextItem? false rest with
      | none => return (fields, rest)
      | some item =>
        let (mode, rest) ← InstantiationMode.scan item
        let fields := { fields with defaultMode := some mode }
        match ← nextItem? false rest with
        | none => return (fields, rest)
        | some item =>
          let (allowed, rest) ← Json.boolean item
          return ({ fields with allowShadowing := some allowed }, rest)

end ConfigFields

/-- The configuration that a text holds. -/
def Config.read (text : String) : Except Fault Config := do
  let (fields, rest) ←
    match Json.skipBlanks text.toList with
    | '[' :: rest => ConfigFields.readItems rest
    | '{' :: rest => ConfigFields.readFields (rest.length + 1) true .empty rest
    | other => .error (Json.unexpected "struct AssemblyConfig" other)
  Json.finished rest
  return fields.config

end Wiring
