import Wiring.Decimal.Shortest
import Wiring.Text.Quoted

/-!
Scanning JSON. A scanner takes what it needs from the front of a text and leaves the rest. A text
that is no JSON, or that ends too soon, is a fault of syntax; JSON that does not say what is
expected is a fault of data, and whichever comes first in the text is the one that is reported.
-/

namespace Wiring.Json

/-- Why a text could not be read. -/
inductive Fault where
  | malformed
  | data (message : String)
deriving DecidableEq

/-- What a scanner gives: a result and the rest of the text, or a fault. -/
abbrev Scan (α : Type) : Type := Except Fault (α × List Char)

/-- The characters that may stand between the parts of JSON. -/
def isBlank (character : Char) : Bool :=
  character == ' ' || character == '\n' || character == '\t' || character == '\r'

/-- The text from its first character on that is not blank. -/
def skipBlanks (text : List Char) : List Char := text.dropWhile isBlank

/-- The rest of the text behind a word that must stand at its front. -/
def word (expected : List Char) (text : List Char) : Except Fault (List Char) :=
  if expected.isPrefixOf text then .ok (text.drop expected.length) else .error .malformed

/-- The value of a digit in base sixteen. -/
def hexDigit? (character : Char) : Option Nat :=
  if '0' ≤ character && character ≤ '9' then some (character.toNat - '0'.toNat)
  else if 'a' ≤ character && character ≤ 'f' then some (character.toNat - 'a'.toNat + 10)
  else if 'A' ≤ character && character ≤ 'F' then some (character.toNat - 'A'.toNat + 10)
  else none

/-- The number that four digits in base sixteen stand for. -/
def hexNumber? (a b c d : Char) : Option Nat := do
  return (((← hexDigit? a) * 16 + (← hexDigit? b)) * 16 + (← hexDigit? c)) * 16 + (← hexDigit? d)

/-- The character that a letter behind a backslash stands for. -/
def shortEscape? (letter : Char) : Option Char :=
  match letter with
  | '"' => some '"'
  | '\\' => some '\\'
  | '/' => some '/'
  | 'b' => some '\x08'
  | 'f' => some '\x0c'
  | 'n' => some '\n'
  | 'r' => some '\r'
  | 't' => some '\t'
  | _ => none

/-- One half of a character outside the basic plane. -/
def isLeadingHalf (number : Nat) : Bool := 0xD800 ≤ number && number ≤ 0xDBFF

/-- The other half of a character outside the basic plane. -/
def isTrailingHalf (number : Nat) : Bool := 0xDC00 ≤ number && number ≤ 0xDFFF

/-- The characters up to the closing mark of a string whose opening mark was taken. The halves of
a character must come together. -/
def stringBody : List Char → Scan (List Char)
  | [] => .error .malformed
  | '"' :: rest => .ok ([], rest)
  | '\\' :: 'u' :: a :: b :: c :: d :: '\\' :: 'u' :: e :: f :: g :: h :: rest =>
    match hexNumber? a b c d, hexNumber? e f g h with
    | some first, some second =>
      if isLeadingHalf first && isTrailingHalf second then
        let code := 0x10000 + (first - 0xD800) * 0x400 + (second - 0xDC00)
        (stringBody rest).map fun (characters, rest) => (Char.ofNat code :: characters, rest)
      else if isLeadingHalf first || isTrailingHalf first then .error .malformed
      else
        (stringBody ('\\' :: 'u' :: e :: f :: g :: h :: rest)).map fun (characters, rest) =>
          (Char.ofNat first :: characters, rest)
    | _, _ => .error .malformed
  | '\\' :: 'u' :: a :: b :: c :: d :: rest =>
    match hexNumber? a b c d with
    | some number =>
      if isLeadingHalf number || isTrailingHalf number then .error .malformed
      else
        (stringBody rest).map fun (characters, rest) => (Char.ofNat number :: characters, rest)
    | none => .error .malformed
  | '\\' :: letter :: rest =>
    match shortEscape? letter with
    | some character =>
      (stringBody rest).map fun (characters, rest) => (character :: characters, rest)
    | none => .error .malformed
  | character :: rest =>
    if character.toNat < 0x20 || character == '\\' then .error .malformed
    else (stringBody rest).map fun (characters, rest) => (character :: characters, rest)

/-- The string whose opening mark was taken. -/
def stringRest (text : List Char) : Scan String :=
  (stringBody text).map fun (characters, rest) => (String.ofList characters, rest)

/-- The rest behind a string whose opening mark was taken and whose contents do not matter. A half
of a character may stand alone. -/
def skipString : List Char → Except Fault (List Char)
  | [] => .error .malformed
  | '"' :: rest => .ok rest
  | '\\' :: 'u' :: a :: b :: c :: d :: rest =>
    match hexNumber? a b c d with
    | some _ => skipString rest
    | none => .error .malformed
  | '\\' :: letter :: rest =>
    match shortEscape? letter with
    | some _ => skipString rest
    | none => .error .malformed
  | character :: rest =>
    if character.toNat < 0x20 || character == '\\' then .error .malformed else skipString rest

/-- A number: a whole number of at most 64 bits, or a float. -/
inductive Number where
  | whole (value : Int)
  | float (value : Float)

/-- The greatest significand that is kept exactly; further digits only count. -/
def greatestSignificand : Nat := 0xFFFFFFFFFFFFFFFF

/-- The digits at the front of a text, and the rest. -/
def digits (text : List Char) : List Char × List Char := text.span Char.isDigit

/-- The longest run of digits that the significand can take in, and how many digits remain. -/
def accumulate (significand : Nat) : List Char → Nat × Nat
  | [] => (significand, 0)
  | digit :: rest =>
    let grown := significand * 10 + (digit.toNat - '0'.toNat)
    if greatestSignificand < grown then (significand, rest.length + 1)
    else accumulate grown rest

/-- A power of ten as a float. -/
def tenTo (exponent : Nat) : Float := Float.ofScientific 1 false exponent

/-- A significand times a power of ten as a float, unless it is out of range. -/
def scaleFloat? (significand : Nat) (exponent : Int) : Option Float :=
  let start := Float.ofNat significand
  if 0 ≤ exponent then
    if exponent ≤ 308 then
      let product := start * tenTo exponent.toNat
      if product.isInf then none else some product
    else if significand = 0 then some start
    else none
  else
    let down := (-exponent).toNat
    if down ≤ 308 then some (start / tenTo down)
    else if down ≤ 616 then some (start / tenTo 308 / tenTo (down - 308))
    else some 0

/-- A float with its sign. -/
def signedFloat (positive : Bool) (significand : Nat) (exponent : Int) : Except Fault Number :=
  match scaleFloat? significand exponent with
  | some magnitude => .ok (.float (if positive then magnitude else -magnitude))
  | none => .error .malformed

/-- The exponent behind its mark, and the rest. -/
def exponentRest (text : List Char) : Scan Int :=
  let (negative, text) :=
    match text with
    | '+' :: rest => (false, rest)
    | '-' :: rest => (true, rest)
    | _ => (false, text)
  match digits text with
  | ([], _) => .error .malformed
  | (found, rest) =>
    let value : Int := found.foldl (fun value digit => value * 10 + (digit.toNat - '0'.toNat)) 0
    .ok (if negative then -value else value, rest)

/-- A float from its significand, the exponent so far, and what may follow: an exponent. -/
def floatRest (positive : Bool) (significand : Nat) (exponent : Int) (text : List Char) :
    Except Fault (Number × List Char) :=
  match text with
  | mark :: rest =>
    if mark == 'e' || mark == 'E' then do
      let (further, rest) ← exponentRest rest
      return (← signedFloat positive significand (exponent + further), rest)
    else return (← signedFloat positive significand exponent, text)
  | [] => return (← signedFloat positive significand exponent, [])

/-- The number whose sign was taken. -/
def numberRest (positive : Bool) (text : List Char) : Scan Number :=
  match digits text with
  | ([], _) => .error .malformed
  | ('0' :: _ :: _, _) => .error .malformed
  | (found, rest) =>
    let (significand, dropped) := accumulate 0 found
    match rest with
    | '.' :: fraction =>
      match digits fraction with
      | ([], _) => .error .malformed
      | (places, rest) =>
        let (significand, ignored) := accumulate significand places
        floatRest positive significand (dropped - (places.length - ignored : Nat)) rest
    | mark :: _ =>
      if mark == 'e' || mark == 'E' || dropped ≠ 0 then floatRest positive significand dropped rest
      else .ok (wholeNumber positive significand, rest)
    | [] =>
      if dropped ≠ 0 then floatRest positive significand dropped rest
      else .ok (wholeNumber positive significand, rest)
where
  /-- A negative number that is no signed word of 64 bits, and the negative zero, are floats. -/
  wholeNumber (positive : Bool) (significand : Nat) : Number :=
    if positive then .whole significand
    else if significand = 0 || 0x8000000000000000 < significand then .float (-Float.ofNat significand)
    else .whole (-significand)

/-- The rest behind a number whose sign was taken and whose value does not matter. -/
def skipNumber (text : List Char) : Except Fault (List Char) := do
  match digits text with
  | ([], _) => .error .malformed
  | ('0' :: _ :: _, _) => .error .malformed
  | (_, rest) =>
    let rest ←
      match rest with
      | '.' :: fraction =>
        match digits fraction with
        | ([], _) => .error .malformed
        | (_, rest) => .ok rest
      | _ => .ok rest
    match rest with
    | mark :: behind =>
      if mark == 'e' || mark == 'E' then
        let (_, rest) ← exponentRest behind
        return rest
      else return rest
    | [] => return []

/-- What stands at the front of a text that should be something else, as a fault. A word, a
number or a string must be complete to be named. -/
def unexpected (expected : String) (text : List Char) : Fault :=
  let mismatch (found : String) : Fault :=
    .data ("invalid type: " ++ found ++ ", expected " ++ expected)
  let number (scan : Scan Number) : Fault :=
    match scan with
    | .error fault => fault
    | .ok (.whole value, _) => mismatch ("integer `" ++ toString value ++ "`")
    | .ok (.float value, _) => mismatch ("floating point `" ++ Decimal.text value ++ "`")
  let complete (rest : Except Fault (List Char)) (found : String) : Fault :=
    match rest with
    | .error fault => fault
    | .ok _ => mismatch found
  match text with
  | 'n' :: rest => complete (word ['u', 'l', 'l'] rest) "null"
  | 't' :: rest => complete (word ['r', 'u', 'e'] rest) "boolean `true`"
  | 'f' :: rest => complete (word ['a', 'l', 's', 'e'] rest) "boolean `false`"
  | '-' :: rest => number (numberRest false rest)
  | '"' :: rest =>
    match stringRest rest with
    | .error fault => fault
    | .ok (found, _) => mismatch ("string " ++ Text.quoted found)
  | '[' :: _ => mismatch "sequence"
  | '{' :: _ => mismatch "map"
  | character :: _ =>
    if character.isDigit then number (numberRest true text) else .malformed
  | [] => .malformed

/-- A string, with a fault that says what it is for when something else stands there. -/
def stringAs (expected : String) (text : List Char) : Scan String :=
  match skipBlanks text with
  | '"' :: rest => stringRest rest
  | other => .error (unexpected expected other)

/-- A truth value. -/
def boolean (text : List Char) : Scan Bool :=
  match skipBlanks text with
  | 't' :: rest => (word ['r', 'u', 'e'] rest).map fun rest => (true, rest)
  | 'f' :: rest => (word ['a', 'l', 's', 'e'] rest).map fun rest => (false, rest)
  | other => .error (unexpected "a boolean" other)

/-- The empty value. -/
def null (text : List Char) : Except Fault (List Char) :=
  match skipBlanks text with
  | 'n' :: rest => word ['u', 'l', 'l'] rest
  | other => .error (unexpected "unit" other)

/-- The rest behind a colon. -/
def colon (text : List Char) : Except Fault (List Char) :=
  match skipBlanks text with
  | ':' :: rest => .ok rest
  | _ => .error .malformed

/-- Nothing but blanks is left. -/
def finished (text : List Char) : Except Fault Unit :=
  if (skipBlanks text).isEmpty then .ok () else .error .malformed

/-- One of some names, in a string or as the only field of an object whose value is empty. -/
def oneOf {α : Type} (names : List String) (choose : String → Option α) (text : List Char) :
    Except Fault (α × List Char) :=
  let pick (name : String) : Except Fault α :=
    match choose name with
    | some choice => .ok choice
    | none =>
      .error (.data ("unknown variant `" ++ name ++ "`, expected one of " ++
        String.intercalate ", " (names.map fun known => "`" ++ known ++ "`")))
  match skipBlanks text with
  | '"' :: rest => do
    let (name, rest) ← stringRest rest
    return (← pick name, rest)
  | '{' :: rest =>
    match skipBlanks rest with
    | '"' :: rest => do
      let (name, rest) ← stringRest rest
      let choice ← pick name
      let rest ← null (← colon rest)
      match skipBlanks rest with
      | '}' :: rest => return (choice, rest)
      | _ => .error .malformed
    | _ => .error .malformed
  | _ => .error .malformed

/-- The value that is expected next when a value is skipped: a value, or the name of a field. -/
inductive Awaited where
  | value
  | valueOrEnd
  | field
  | fieldOrEnd
  | separatorOrEnd
deriving DecidableEq

/-- The rest behind a value that does not matter, one part at a time. The stack holds the brackets
that are open, with true for those of an object. -/
def skipParts : Nat → Awaited → List Bool → List Char → Except Fault (List Char)
  | 0, _, _, _ => .error .malformed
  | steps + 1, awaited, stack, text =>
    let behind (rest : List Char) : Except Fault (List Char) :=
      if stack.isEmpty then .ok rest else skipParts steps .separatorOrEnd stack rest
    let close (rest : List Char) : Except Fault (List Char) :=
      match stack with
      | [] => .error .malformed
      | [_] => .ok rest
      | _ :: outer => skipParts steps .separatorOrEnd outer rest
    match awaited, skipBlanks text with
    | .separatorOrEnd, ',' :: rest =>
      skipParts steps (if stack.head? = some true then .field else .value) stack rest
    | .separatorOrEnd, ']' :: rest =>
      if stack.head? = some false then close rest else .error .malformed
    | .separatorOrEnd, '}' :: rest =>
      if stack.head? = some true then close rest else .error .malformed
    | .separatorOrEnd, _ => .error .malformed
    | .valueOrEnd, ']' :: rest => close rest
    | .fieldOrEnd, '}' :: rest => close rest
    | .field, '"' :: rest => do
      skipParts steps .value stack (← colon (← skipString rest))
    | .fieldOrEnd, '"' :: rest => do
      skipParts steps .value stack (← colon (← skipString rest))
    | .field, _ => .error .malformed
    | .fieldOrEnd, _ => .error .malformed
    | _, 'n' :: rest => do behind (← word ['u', 'l', 'l'] rest)
    | _, 't' :: rest => do behind (← word ['r', 'u', 'e'] rest)
    | _, 'f' :: rest => do behind (← word ['a', 'l', 's', 'e'] rest)
    | _, '-' :: rest => do behind (← skipNumber rest)
    | _, '"' :: rest => do behind (← skipString rest)
    | _, '[' :: rest => skipParts steps .valueOrEnd (false :: stack) rest
    | _, '{' :: rest => skipParts steps .fieldOrEnd (true :: stack) rest
    | _, character :: rest =>
      if character.isDigit then do behind (← skipNumber (character :: rest)) else .error .malformed
    | _, [] => .error .malformed

/-- The rest behind a value that does not matter. Each part takes a character at least. -/
def skipValue (text : List Char) : Except Fault (List Char) :=
  skipParts (text.length + 1) .value [] text

end Wiring.Json
