/-!
# Decimal text of binary floating-point numbers

A finite number is `m · 2^q`. Every real closer to it than to its neighbours stands for it, and so does a real half way to
a neighbour when `m` is even. `Decimal.shortest` finds the coarsest power of ten with a multiple among those reals, and of
two multiples the one closer to the number, the larger on a tie. The text is positional and has no more digits than that.
-/

namespace ClassLift

namespace Decimal

/-- The reals that stand for a number, in units of a quarter of the last place: from `low` to `high` around `exact`, the
ends included if `closed`. The unit is `numerator / denominator`. -/
structure Interval where
  low : Nat
  exact : Nat
  high : Nat
  closed : Bool
  numerator : Nat
  denominator : Nat

/-- The interval of `m · 2^q`. Below a power of two the neighbour is only half as far away. -/
def Interval.around (m : Nat) (q : Int) (halved : Bool) : Interval where
  low := 4 * m - (if halved then 1 else 2)
  exact := 4 * m
  high := 4 * m + 2
  closed := m % 2 == 0
  numerator := Nat.pow 2 (q - 2).toNat
  denominator := Nat.pow 2 (2 - q).toNat

namespace Interval

/-- Multiplying by `scale interval power` turns units of the interval into multiples of `10 ^ power`, over `step`. -/
def scale (interval : Interval) (power : Int) : Nat := interval.numerator * Nat.pow 10 (-power).toNat

def step (interval : Interval) (power : Int) : Nat := interval.denominator * Nat.pow 10 power.toNat

def contains (interval : Interval) (power : Int) (digits : Nat) : Bool :=
  let value := digits * interval.step power
  let low := interval.low * interval.scale power
  let high := interval.high * interval.scale power
  if interval.closed then low ≤ value && value ≤ high else low < value && value < high

/-- The multiple of `10 ^ power` in the interval next to the exact number. -/
def nearest? (interval : Interval) (power : Int) : Option Nat :=
  let exact := interval.exact * interval.scale power
  let step := interval.step power
  let below := exact / step
  match interval.contains power below, interval.contains power (below + 1) with
  | true, true => some (if 2 * (exact % step) ≥ step then below + 1 else below)
  | true, false => some below
  | false, true => some (below + 1)
  | false, false => none

end Interval

def search (interval : Interval) : Nat → Int → Nat × Int
  | 0, power => (0, power)
  | tries + 1, power =>
      match interval.nearest? power with
      | some digits => (digits, power)
      | none => search interval tries (power - 1)

/-- The digits and the power of ten of the shortest decimal for `m · 2^q`. No multiple of a power of ten beyond the size of
the number comes first, and some power down to the last binary place divides it. -/
def shortest (m : Nat) (q : Int) (halved : Bool) : Nat × Int :=
  let top := (Nat.toDigits 10 (m * Nat.pow 2 q.toNat)).length
  search (.around m q halved) (top + (2 - q).toNat + 1) top

def positional (digits : Nat) (power : Int) : String :=
  let text := Nat.toDigits 10 digits
  if 0 ≤ power then .ofList (text ++ List.replicate power.toNat '0')
  else
    let places := (-power).toNat
    let padded := List.replicate (places + 1 - text.length) '0' ++ text
    .ofList (padded.take (padded.length - places) ++ '.' :: padded.drop (padded.length - places))

structure Format where
  fractionBits : Nat
  exponentBits : Nat

def single : Format := ⟨23, 8⟩

def double : Format := ⟨52, 11⟩

namespace Format

def fraction (format : Format) (bits : Nat) : Nat := bits % Nat.pow 2 format.fractionBits

def exponent (format : Format) (bits : Nat) : Nat :=
  bits / Nat.pow 2 format.fractionBits % Nat.pow 2 format.exponentBits

def isNegative (format : Format) (bits : Nat) : Bool :=
  bits / Nat.pow 2 (format.fractionBits + format.exponentBits) % 2 == 1

def least (format : Format) : Int := 2 - Nat.pow 2 (format.exponentBits - 1) - format.fractionBits

def magnitude (format : Format) (bits : Nat) : String :=
  let fraction := format.fraction bits
  let exponent := format.exponent bits
  if fraction = 0 ∧ exponent = 0 then "0"
  else
    let (digits, power) :=
      if exponent = 0 then shortest fraction format.least false
      else shortest (Nat.pow 2 format.fractionBits + fraction) (format.least + (exponent - 1)) (fraction = 0 ∧ exponent > 1)
    positional digits power

/-- The text of the number with the given bits: no exponent, no point in whole numbers, a sign also on zero. -/
def text (format : Format) (bits : Nat) : String :=
  let sign := if format.isNegative bits then "-" else ""
  if format.exponent bits + 1 = Nat.pow 2 format.exponentBits then
    if format.fraction bits = 0 then sign ++ "inf" else "NaN"
  else sign ++ format.magnitude bits

end Format

end Decimal

end ClassLift
