import PipeLang.Number.Binary

/-!
# The shortest decimal that reads back

The reals that round to a double form an interval around it. `Decimal.shortest` is the
decimal in that interval with the fewest digits, and of those the nearest to the double. A
double halfway between two of them is settled by the caller's rule (`Tie`).

On the grid of multiples of `10 ^ p` only the two neighbours of the value matter : if any
multiple lies in the interval, one of them does. So the search tries the grids that give
one digit, two digits and so on, and on each grid tests two candidates with natural
arithmetic. Seventeen digits always suffice.
-/

namespace PipeLang

/-- The decimal `digits · 10 ^ power`. -/
structure Decimal where
  digits : Nat
  power : Int
deriving DecidableEq

/-- Which of two decimals a value halfway between them takes : the greater one, or the one
whose last digit is even. -/
inductive Tie where
  | greater
  | even
deriving DecidableEq

/-- The reals that round to a positive double : from `low / unit` to `high / unit` around
`value / unit`, with the ends when `closed`. -/
structure Rounding where
  low : Nat
  value : Nat
  high : Nat
  unit : Nat
  closed : Bool

namespace Rounding

/-- Half a step on either side, a quarter below a power of two, where the steps below are
half as long. An even mantissa wins ties, so the ends belong to it. -/
def ofFinite (mantissa : Nat) (exponent : Int) : Rounding :=
  let scale := pow2 (exponent - 2).toNat
  let below := if mantissa = pow2 52 ∧ exponent ≠ -1074 then 1 else 2
  { low := (4 * mantissa - below) * scale
    value := 4 * mantissa * scale
    high := (4 * mantissa + 2) * scale
    unit := pow2 (2 - exponent).toNat
    closed := mantissa % 2 == 0 }

/-- The decimal `d` lies in the interval. -/
def contains (r : Rounding) (d : Decimal) : Bool :=
  let point := d.digits * pow10 d.power.toNat * r.unit
  let scale := pow10 (-d.power).toNat
  if r.closed then r.low * scale ≤ point && point ≤ r.high * scale
  else r.low * scale < point && point < r.high * scale

/-- The greatest multiple of `10 ^ p` that is at most the value, as a count. -/
def below (r : Rounding) (p : Int) : Nat :=
  r.value * pow10 (-p).toNat / (r.unit * pow10 p.toNat)

/-- Of the neighbouring multiples `n` and `n + 1` of `10 ^ p`, the value takes the upper one :
it is nearer, or as near and the rule for ties says so. -/
def takesUpper (r : Rounding) (tie : Tie) (p : Int) (n : Nat) : Bool :=
  let twice := 2 * r.value * pow10 (-p).toNat
  let middle := (2 * n + 1) * pow10 p.toNat * r.unit
  match tie with
  | .greater => middle ≤ twice
  | .even => if n % 2 = 0 then middle < twice else middle ≤ twice

/-- The multiple of `10 ^ p` in the interval that is nearest to the value. -/
def nearest? (r : Rounding) (tie : Tie) (p : Int) : Option Decimal :=
  let n := r.below p
  let lower : Decimal := ⟨n, p⟩
  let upper : Decimal := ⟨n + 1, p⟩
  match r.contains lower, r.contains upper with
  | false, false => none
  | true, false => some lower
  | false, true => some upper
  | true, true => some (if r.takesUpper tie p n then upper else lower)

/-- How many digits stand before the point : the value is below `10 ^ magnitude` and, for a
positive value, at least a tenth of that. -/
def magnitude (r : Rounding) : Int :=
  let whole := r.value / r.unit
  if whole = 0 then
    1 - ((Nat.toDigits 10 ((r.unit + r.value - 1) / r.value - 1)).length : Int)
  else (Nat.toDigits 10 whole).length

end Rounding

namespace Decimal

/-- A power of ten is written with the single digit `1`. -/
def carried (n : Nat) (d : Decimal) : Decimal :=
  if d.digits = pow10 n then ⟨1, d.power + n⟩ else d

/-- The fewest digits that read back as `mantissa · 2 ^ exponent`. Zero is `0 · 10 ^ 0`. -/
def shortest (tie : Tie) (mantissa : Nat) (exponent : Int) : Decimal :=
  if mantissa = 0 then ⟨0, 0⟩
  else
    let r := Rounding.ofFinite mantissa exponent
    let finest := r.magnitude - 17
    let candidate? (n : Nat) := (r.nearest? tie (r.magnitude - n)).map (carried n)
    ((List.range' 1 17).findSome? candidate?).getD ⟨r.below finest, finest⟩

end Decimal

end PipeLang
