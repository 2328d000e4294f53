import Wiring.Text.Invisible

/-!
Quoted texts: how a name or a description is shown between quotation marks, so that every
character of it can be read off the page.
-/

namespace Wiring.Text

/-- The digits of a number in base sixteen, in lower case and without leading zeros. -/
def hexadecimal (number : Nat) : String :=
  String.ofList (Nat.toDigits 16 number)

/-- A character between quotation marks: the mark and the backslash take a backslash, line
characters have letters of their own, and what cannot be seen is given by its code point. -/
def escape (character : Char) : String :=
  match character with
  | '"' => "\\\""
  | '\\' => "\\\\"
  | '\n' => "\\n"
  | '\r' => "\\r"
  | '\t' => "\\t"
  | '\x00' => "\\0"
  | _ =>
    if character.toNat < 0x20 || isInvisible character then
      "\\u\x7b" ++ hexadecimal character.toNat ++ "\x7d"
    else
      character.toString

/-- A text between quotation marks. -/
def quoted (text : String) : String :=
  "\"" ++ String.join (text.toList.map escape) ++ "\""

/-- An optional text, quoted when it is there. -/
def quotedOption : Option String → String
  | none => "None"
  | some text => "Some(" ++ quoted text ++ ")"

end Wiring.Text
