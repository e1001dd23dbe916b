import EventLoop.Number.Dyadic

set_option autoImplicit false

/-!
# Shortest decimals

The decimals that round to a double form an interval. The shortest one inside it is found by looking
at the two neighbours of the value on coarser and then finer decimal grids.
-/

namespace EventLoop.Number

structure Decimal where
  digits : Nat
  exponent : Int
deriving DecidableEq, Repr

def tenTo (exponent : Nat) : Nat := Nat.pow 10 exponent

inductive Tie where
  | up
  | even
deriving DecidableEq, Repr

structure Interval where
  low : Nat
  value : Nat
  high : Nat
  denominator : Nat
  closed : Bool

/-- The interval reaches half way to both neighbours; below a power of two the neighbour is
nearer. Its ends round to the double when the mantissa is even. -/
def Dyadic.interval (x : Dyadic) : Interval :=
  let scale := 1 <<< (x.exponent - 2).toNat
  let below := if x.mantissa = leadingBit ∧ leastExponent < x.exponent then 1 else 2
  { low := (4 * x.mantissa - below) * scale
    value := 4 * x.mantissa * scale
    high := (4 * x.mantissa + 2) * scale
    denominator := 1 <<< (2 - x.exponent).toNat
    closed := x.mantissa % 2 == 0 }

def decimalLength (n : Nat) : Nat := (Nat.toDigits 10 n).length

def magnitude (numerator denominator : Nat) : Int :=
  if denominator ≤ numerator then (decimalLength (numerator / denominator) : Int) - 1
  else - (decimalLength ((denominator - 1) / numerator) : Int)

namespace Interval

def contains (interval : Interval) (digits : Nat) (exponent : Int) : Bool :=
  let point := digits * tenTo exponent.toNat * interval.denominator
  let unit := tenTo (-exponent).toNat
  if interval.closed then interval.low * unit ≤ point && point ≤ interval.high * unit
  else interval.low * unit < point && point < interval.high * unit

def nearest? (interval : Interval) (tie : Tie) (exponent : Int) : Option Decimal :=
  let step := tenTo exponent.toNat * interval.denominator
  let value := interval.value * tenTo (-exponent).toNat
  let below := value / step
  let above := below + 1
  match interval.contains below exponent, interval.contains above exponent with
  | false, false => none
  | true, false => some ⟨below, exponent⟩
  | false, true => some ⟨above, exponent⟩
  | true, true =>
      match compare (2 * (value % step)) step with
      | .lt => some ⟨below, exponent⟩
      | .gt => some ⟨above, exponent⟩
      | .eq => some ⟨if tie = .even ∧ below % 2 = 0 then below else above, exponent⟩

def search (interval : Interval) (tie : Tie) : Nat → Int → Decimal
  | 0, exponent => ⟨interval.value / interval.denominator, exponent⟩
  | more + 1, exponent =>
      match interval.nearest? tie exponent with
      | some decimal => decimal
      | none => search interval tie more (exponent - 1)

end Interval

def Decimal.carry (decimal : Decimal) : Decimal :=
  if decimal.digits = 10 then ⟨1, decimal.exponent + 1⟩ else decimal

/-- The decimal with the fewest digits that reads back as the positive value; of those the nearest.
Seventeen digits always suffice. -/
def Dyadic.shortest (tie : Tie) (x : Dyadic) : Decimal :=
  let interval := x.interval
  (interval.search tie 17 (magnitude interval.value interval.denominator)).carry

end EventLoop.Number
