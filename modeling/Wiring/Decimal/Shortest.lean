/-!
The shortest decimal for a float of 64 bits: the fewest digits that read back as the float, and
among those the nearest to it. Of two that are equally near, the one whose last digit is even is
taken. The search is exact: a float is a whole number times a power of two, and the numbers that
round to it form an interval with known ends.
-/

namespace Wiring.Decimal

/-- A positive float as a whole number times a power of two. The step below a float is half as
wide as the step above it when the whole number is the least of its binade. -/
structure Binary where
  mantissa : Nat
  exponent : Int
  narrowBelow : Bool

/-- The finite float with the given bits, without its sign. -/
def Binary.ofBits (bits : Nat) : Binary :=
  let leading : Nat := 0x10000000000000
  let fraction : Nat := bits % leading
  let biased : Nat := bits / leading % 0x800
  if biased = 0 then ⟨fraction, -1074, false⟩
  else ⟨leading + fraction, (biased : Int) - 1075, fraction = 0 && biased ≠ 1⟩

/-- A power of two. -/
def twoTo (exponent : Nat) : Nat := Nat.pow 2 exponent

/-- A power of ten. -/
def tenTo (exponent : Nat) : Nat := Nat.pow 10 exponent

/-- A whole number times a power of two, as a numerator and a denominator. -/
def scaled (whole : Nat) (exponent : Int) : Nat × Nat :=
  if 0 ≤ exponent then (whole * twoTo exponent.toNat, 1) else (whole, twoTo (-exponent).toNat)

/-- A decimal: a whole number times a power of ten. -/
structure Numeral where
  digits : Nat
  exponent : Int

/-- What stands on the two sides when a decimal is compared with a fraction of the given
denominator: the whole number on its own side, and the factor of the fraction's numerator. -/
def Numeral.crossed (decimal : Numeral) (denominator : Nat) : Nat × Nat :=
  if 0 ≤ decimal.exponent then
    (decimal.digits * tenTo decimal.exponent.toNat * denominator, 1)
  else (decimal.digits * denominator, tenTo (-decimal.exponent).toNat)

/-- The decimal rounds to the float. The ends of the interval belong to it when the whole number
of the float is even. -/
def Binary.accepts (float : Binary) (decimal : Numeral) : Bool :=
  let below := if float.narrowBelow then 1 else 2
  let (low, denominator) := scaled (4 * float.mantissa - below) (float.exponent - 2)
  let (high, _) := scaled (4 * float.mantissa + 2) (float.exponent - 2)
  let (whole, factor) := decimal.crossed denominator
  if float.mantissa % 2 = 0 then low * factor ≤ whole && whole ≤ high * factor
  else low * factor < whole && whole < high * factor

/-- The distance between the float and the decimal, on a scale that depends only on the float and
the exponent of the decimal. -/
def Binary.distance (float : Binary) (decimal : Numeral) : Nat :=
  let (exact, denominator) := scaled float.mantissa float.exponent
  let (whole, factor) := decimal.crossed denominator
  (exact * factor - whole) + (whole - exact * factor)

/-- The whole number of units of a power of ten in the float. -/
def Binary.units (float : Binary) (exponent : Int) : Nat :=
  let (exact, denominator) := scaled float.mantissa float.exponent
  if 0 ≤ exponent then exact / (denominator * tenTo exponent.toNat)
  else exact * tenTo (-exponent).toNat / denominator

/-- The decimal below the float is nearer than the decimal above it, or as near and even. -/
def Binary.prefersLower (float : Binary) (lower upper : Numeral) : Bool :=
  let below := float.distance lower
  let above := float.distance upper
  below < above || below = above && lower.digits % 2 = 0

/-- The nearest of the two decimals next to the float on a grid, if it rounds to the float. A tie
goes to the even one. -/
def Binary.onGrid? (float : Binary) (exponent : Int) : Option Numeral :=
  let lower : Numeral := ⟨float.units exponent, exponent⟩
  let upper : Numeral := ⟨float.units exponent + 1, exponent⟩
  match float.accepts lower, float.accepts upper with
  | false, false => none
  | true, false => some lower
  | false, true => some upper
  | true, true => if float.prefersLower lower upper then some lower else some upper

/-- The decimal without the zeros at its end. -/
def Numeral.stripped : Nat → Numeral → Numeral
  | 0, decimal => decimal
  | steps + 1, decimal =>
    if decimal.digits ≠ 0 && decimal.digits % 10 = 0 then
      stripped steps ⟨decimal.digits / 10, decimal.exponent + 1⟩
    else decimal

/-- The exponent of the leading digit of the float. -/
def Binary.magnitude (float : Binary) : Int :=
  let (exact, denominator) := scaled float.mantissa float.exponent
  if denominator ≤ exact then
    ((Nat.toDigits 10 (exact / denominator)).length : Int) - 1
  else
    let shifted := exact * tenTo 330 / denominator
    ((Nat.toDigits 10 shifted).length : Int) - 331

/-- The shortest decimal that rounds to the float. -/
def Binary.shortest (float : Binary) : Numeral :=
  let grids := (List.range 18).map fun (count : Nat) => float.magnitude - count
  Numeral.stripped 400 ((grids.findSome? float.onGrid?).getD ⟨0, 0⟩)

/-- The positional text of digits with the point behind the given number of them. -/
def positional (digits : List Char) (point : Int) : List Char :=
  if point ≤ 0 then
    '0' :: '.' :: (List.replicate (-point).toNat '0' ++ digits)
  else if digits.length ≤ point.toNat then
    digits ++ List.replicate (point.toNat - digits.length) '0' ++ ['.', '0']
  else digits.take point.toNat ++ '.' :: digits.drop point.toNat

/-- The text of an exponent, which always shows its sign. -/
def signed (exponent : Int) : List Char :=
  if exponent < 0 then (toString exponent).toList else '+' :: (toString exponent).toList

/-- The text of digits with an exponent. -/
def scientific (digits : List Char) (point : Int) : List Char :=
  let mantissa :=
    match digits with
    | [] => []
    | [digit] => [digit]
    | digit :: rest => digit :: '.' :: rest
  mantissa ++ 'e' :: signed (point - 1)

/-- The text of a decimal: positional while the point stands at most sixteen places behind the
first digit and at most four places before it, and otherwise with an exponent. -/
def Numeral.text (decimal : Numeral) : List Char :=
  let digits := Nat.toDigits 10 decimal.digits
  let point := decimal.exponent + digits.length
  if -5 < point && point ≤ 16 then positional digits point else scientific digits point

/-- The text of a finite float. -/
def text (float : Float) : String :=
  let bits := float.toBits.toNat
  let sign := if 0x8000000000000000 ≤ bits then "-" else ""
  let binary := Binary.ofBits bits
  if binary.mantissa = 0 then sign ++ "0.0"
  else sign ++ String.ofList binary.shortest.text

end Wiring.Decimal
