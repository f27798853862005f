import PipeLang.Number.Shortest

/-!
# Laying out a decimal

The digits of a decimal can be written positionally, with as many zeros as it takes, or
with an exponent. `Decimal.positional` and `Decimal.scientific` are the two layouts, and
`Number.plain` is the language's text of a number that needs no other rule : the shortest
digits, positionally, never with an exponent.
-/

namespace PipeLang

namespace Decimal

/-- A run of zeros. -/
def zeros (n : Nat) : String := String.ofList (List.replicate n '0')

/-- The digits, without sign or point. -/
def digitChars (d : Decimal) : List Char := Nat.toDigits 10 d.digits

/-- The exponent of the first digit : `3` for `4567.8`. -/
def exponent (d : Decimal) : Int := d.digitChars.length - 1 + d.power

/-- Whether nothing stands behind the point. -/
def isWhole (d : Decimal) : Bool := 0 ≤ d.power

/-- Every digit in its place : `4567.8`, `0.0045`, `4500`. -/
def positional (d : Decimal) : String :=
  let cs := d.digitChars
  let places := (-d.power).toNat
  if d.isWhole then String.ofList cs ++ zeros d.power.toNat
  else if places < cs.length then
    String.ofList (cs.take (cs.length - places)) ++ "."
      ++ String.ofList (cs.drop (cs.length - places))
  else "0." ++ zeros (places - cs.length) ++ String.ofList cs

/-- One digit before the point and a signed exponent : `4.5678e+3`, `5e-324`. -/
def scientific (d : Decimal) : String :=
  let head := String.ofList (d.digitChars.take 1)
  let tail := String.ofList (d.digitChars.drop 1)
  let power := (if d.exponent < 0 then "e-" else "e+") ++ toString d.exponent.natAbs
  (if tail.isEmpty then head else head ++ "." ++ tail) ++ power

end Decimal

namespace Number

/-- A text with the sign of the number before it. -/
def signed (negative : Bool) (text : String) : String :=
  if negative then "-" ++ text else text

/-- The shortest digits that read back, of two as near the greater, never with an exponent. -/
def plain (x : Float) : String :=
  match Binary.ofFloat x with
  | .nan => "NaN"
  | .infinite negative => signed negative "inf"
  | .finite negative m e => signed negative (Decimal.shortest .greater m e).positional

/-- The integer a number denotes, when it denotes one and lies strictly between `-10 ^ 15`
and `10 ^ 15`. -/
def smallInteger? (x : Float) : Option Int :=
  (Binary.ofFloat x).integer?.filter fun k => k.natAbs < pow10 15

end Number

end PipeLang
