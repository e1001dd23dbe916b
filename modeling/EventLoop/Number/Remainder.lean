import EventLoop.Number.Dyadic

set_option autoImplicit false

namespace EventLoop.Number

def Dyadic.remainder (left right : Dyadic) : Dyadic :=
  let exponent := min left.exponent right.exponent
  { negative := left.negative
    mantissa := (left.mantissa <<< (left.exponent - exponent).toNat) %
      (right.mantissa <<< (right.exponent - exponent).toNat)
    exponent := exponent }

/-- The remainder of a truncated division, which is exact and has the sign of the dividend. It is
NaN for an infinite dividend and for a zero divisor; an infinite divisor leaves the dividend. -/
def remainder (left right : Float) : Float :=
  match Dyadic.ofFloat? left, Dyadic.ofFloat? right with
  | some dividend, some divisor =>
      if divisor.mantissa = 0 then notANumber else (dividend.remainder divisor).toFloat
  | some _, none => if right.isNaN then notANumber else left
  | none, _ => notANumber

end EventLoop.Number
