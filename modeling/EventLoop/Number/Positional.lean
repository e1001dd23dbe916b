import EventLoop.Number.Shortest

set_option autoImplicit false

namespace EventLoop.Number

def Decimal.positional (decimal : Decimal) : String :=
  let digits := Nat.toDigits 10 decimal.digits
  let point := decimal.exponent + digits.length
  String.ofList <|
    if 0 ≤ decimal.exponent then digits ++ List.replicate decimal.exponent.toNat '0'
    else if 0 < point then digits.take point.toNat ++ '.' :: digits.drop point.toNat
    else '0' :: '.' :: List.replicate (-point).toNat '0' ++ digits

def text (x : Float) : String :=
  match Dyadic.ofFloat? x with
  | none => if x.isNaN then "NaN" else if x < 0 then "-Infinity" else "Infinity"
  | some value =>
      if value.mantissa = 0 then "0"
      else (if value.negative then "-" else "") ++ (value.shortest .up).positional

end EventLoop.Number
