/-!
# What the bits of a number denote

A number of the language is a double. `Binary.ofFloat` reads its bits : not a number, an
infinity, or `± mantissa · 2 ^ exponent` with natural `mantissa`. The rest of the library
computes number texts on these naturals, so that no text depends on a float operation.

`Binary.integer?` is the integer a finite value denotes, when it denotes one.
-/

namespace PipeLang

/-- The power `2 ^ n`. -/
def pow2 (n : Nat) : Nat := Nat.pow 2 n

/-- The power `10 ^ n`. -/
def pow10 (n : Nat) : Nat := Nat.pow 10 n

/-- What a double denotes. A finite one is `± mantissa · 2 ^ exponent`. -/
inductive Binary where
  | nan
  | infinite (negative : Bool)
  | finite (negative : Bool) (mantissa : Nat) (exponent : Int)
deriving DecidableEq

namespace Binary

/-- One sign bit, eleven bits of biased exponent, fifty-two bits of fraction. The least
exponent has no hidden bit, the greatest marks infinities and what is not a number. -/
def ofBits (bits : Nat) : Binary :=
  let negative := bits / pow2 63 % 2 == 1
  let biased : Nat := bits / pow2 52 % pow2 11
  let fraction : Nat := bits % pow2 52
  if biased = 2047 then
    if fraction = 0 then infinite negative else nan
  else if biased = 0 then finite negative fraction (-1074)
  else finite negative (pow2 52 + fraction) ((biased : Int) - 1075)

/-- What the double `x` denotes. -/
def ofFloat (x : Float) : Binary := ofBits x.toBits.toNat

/-- Whether the sign bit is set. -/
def negative : Binary → Bool
  | nan => false
  | infinite n => n
  | finite n _ _ => n

/-- The natural `m · 2 ^ e`, if it is one. -/
def scaled? (m : Nat) (e : Int) : Option Nat :=
  if 0 ≤ e then some (m * pow2 e.toNat)
  else if m % pow2 (-e).toNat = 0 then some (m / pow2 (-e).toNat)
  else none

/-- The integer a value denotes. A zero of either sign denotes `0`. -/
def integer? : Binary → Option Int
  | finite n m e => (scaled? m e).map fun k => if n then -(k : Int) else k
  | _ => none

end Binary

end PipeLang
