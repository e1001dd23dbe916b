set_option autoImplicit false

namespace EventLoop.Number

def notANumber : Float := Float.ofBits 0x7FF8000000000000

def infinity : Float := Float.ofBits 0x7FF0000000000000

structure Dyadic where
  negative : Bool
  mantissa : Nat
  exponent : Int
deriving DecidableEq, Repr

def leadingBit : Nat := 0x10000000000000

def signBit : Nat := 0x8000000000000000

def leastExponent : Int := -1074

def Dyadic.ofFloat? (x : Float) : Option Dyadic :=
  let bits := x.toBits.toNat
  let negative := signBit ≤ bits
  let biased := bits / leadingBit % 2048
  let fraction := bits % leadingBit
  if biased = 2047 then none
  else if biased = 0 then some ⟨negative, fraction, leastExponent⟩
  else some ⟨negative, leadingBit + fraction, leastExponent + (biased - 1 : Nat)⟩

/-- The double of a value with a mantissa below `2 ^ 53` and an exponent that is not below the
least one nor too large: nothing is rounded. -/
def Dyadic.toFloat (value : Dyadic) : Float :=
  let lift := min (52 - value.mantissa.log2) (value.exponent - leastExponent).toNat
  let mantissa := value.mantissa <<< lift
  let biased := (value.exponent - lift - leastExponent + 1).toNat
  let magnitude :=
    if mantissa < leadingBit then mantissa else biased * leadingBit + (mantissa - leadingBit)
  Float.ofBits (UInt64.ofNat (magnitude + if value.negative then signBit else 0))

def isWhole (x : Float) : Bool :=
  match Dyadic.ofFloat? x with
  | none => false
  | some value => 0 ≤ value.exponent || value.mantissa % (1 <<< (-value.exponent).toNat) == 0

def toNat (x : Float) : Nat :=
  match Dyadic.ofFloat? x with
  | none => 0
  | some value =>
      if value.negative then 0
      else (value.mantissa <<< value.exponent.toNat) >>> (-value.exponent).toNat

end EventLoop.Number
