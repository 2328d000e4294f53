import Wiring.Text.Quoted

/-!
Texts as JSON writes them in its compact form.
-/

namespace Wiring.Json

/-- A character inside a JSON text: marks, backslashes and controls are escaped, and every other
character stands for itself. -/
def escape (character : Char) : String :=
  match character with
  | '"' => "\\\""
  | '\\' => "\\\\"
  | '\n' => "\\n"
  | '\r' => "\\r"
  | '\t' => "\\t"
  | '\x08' => "\\b"
  | '\x0c' => "\\f"
  | _ =>
    if character.toNat < 0x10 then "\\u000" ++ Text.hexadecimal character.toNat
    else if character.toNat < 0x20 then "\\u00" ++ Text.hexadecimal character.toNat
    else character.toString

/-- A text in JSON form. -/
def string (text : String) : String :=
  "\"" ++ String.join (text.toList.map escape) ++ "\""

/-- A truth value in JSON form. -/
def bool (value : Bool) : String :=
  if value then "true" else "false"

/-- An object in JSON form: the fields stay in the given order, and no blank is written. -/
def object (fields : List (String × String)) : String :=
  "\x7b" ++ String.intercalate "," (fields.map fun field => string field.1 ++ ":" ++ field.2) ++
    "\x7d"

end Wiring.Json
