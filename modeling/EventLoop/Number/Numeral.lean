import EventLoop.Number.Shortest
import EventLoop.Text.Classes

set_option autoImplicit false

namespace EventLoop.Number

def Decimal.toFloat (decimal : Decimal) : Float :=
  let leading := decimal.exponent + decimalLength decimal.digits
  if decimal.digits = 0 ∨ leading < -330 then 0
  else if 310 < leading then infinity
  else Float.ofScientific decimal.digits (decimal.exponent < 0) decimal.exponent.natAbs

structure Numeral where
  whole : List Char
  fraction : List Char
  exponentNegative : Bool
  exponent : List Char
deriving DecidableEq, Repr

def exponentValue (digits : List Char) : Nat :=
  digits.foldl
    (fun value c => if value < 0x10000 then 10 * value + Text.digitsValue 10 [c] else value) 0

def Numeral.decimal (numeral : Numeral) : Decimal :=
  let exponent : Int := exponentValue numeral.exponent
  { digits := Text.digitsValue 10 (numeral.whole ++ numeral.fraction)
    exponent := (if numeral.exponentNegative then -exponent else exponent) -
      numeral.fraction.length }

def Numeral.toFloat (numeral : Numeral) : Float := numeral.decimal.toFloat

def isDigit (c : Char) : Bool := Text.isDigitOf 10 c

def readExponent? (whole fraction : List Char) : List Char → Option Numeral
  | '+' :: digits => if digits.isEmpty || !digits.all isDigit then none
      else some ⟨whole, fraction, false, digits⟩
  | '-' :: digits => if digits.isEmpty || !digits.all isDigit then none
      else some ⟨whole, fraction, true, digits⟩
  | digits => if digits.isEmpty || !digits.all isDigit then none
      else some ⟨whole, fraction, false, digits⟩

def readNumeral? (text : List Char) : Option Numeral :=
  let whole := text.takeWhile isDigit
  let (fraction, rest) := match text.dropWhile isDigit with
    | '.' :: rest => (rest.takeWhile isDigit, rest.dropWhile isDigit)
    | rest => ([], rest)
  if whole.isEmpty && fraction.isEmpty then none
  else match rest with
    | [] => some ⟨whole, fraction, false, []⟩
    | mark :: rest =>
        if mark == 'e' || mark == 'E' then readExponent? whole fraction rest else none

def readUnsigned? (text : List Char) : Option Float :=
  match String.ofList (text.map Char.toLower) with
  | "inf" => some infinity
  | "infinity" => some infinity
  | "nan" => some notANumber
  | _ => (readNumeral? text).map Numeral.toFloat

def readSigned? : List Char → Option Float
  | '+' :: text => readUnsigned? text
  | '-' :: text => (readUnsigned? text).map Float.neg
  | text => readUnsigned? text

end EventLoop.Number
