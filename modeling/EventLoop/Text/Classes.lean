import EventLoop.Text.Alphabetic
import EventLoop.Text.Numeric

set_option autoImplicit false

namespace EventLoop.Text

def whiteSpace : Ranges :=
  [(0x9, 0xD), (0x20, 0x20), (0x85, 0x85), (0xA0, 0xA0), (0x1680, 0x1680), (0x2000, 0x200A),
   (0x2028, 0x2029), (0x202F, 0x202F), (0x205F, 0x205F), (0x3000, 0x3000)]

def isWhiteSpace (c : Char) : Bool := whiteSpace.holds c.toNat

/-- A line ends at a line feed or at one of the two Unicode separators. A carriage return is only
blank. -/
def isLineTerminator (c : Char) : Bool := c == '\n' || c == '\u2028' || c == '\u2029'

def isBlank (c : Char) : Bool := isWhiteSpace c || c == '\ufeff'

def isWordStart (c : Char) : Bool := isAlphabetic c || c == '_' || c == '$'

def isWordPart (c : Char) : Bool := isAlphabetic c || isNumeric c || c == '_' || c == '$'

theorem isWordPart_of_isWordStart {c : Char} (h : isWordStart c) : isWordPart c := by
  simp only [isWordStart, isWordPart, Bool.or_eq_true] at *
  rcases h with (h | h) | h <;> simp [h]

def trim (text : List Char) : List Char :=
  ((text.dropWhile isWhiteSpace).reverse.dropWhile isWhiteSpace).reverse

def digitValue? (base : Nat) (c : Char) : Option Nat :=
  let value :=
    if '0' ≤ c ∧ c ≤ '9' then c.toNat - '0'.toNat
    else if 'a' ≤ c ∧ c ≤ 'f' then c.toNat - 'a'.toNat + 10
    else if 'A' ≤ c ∧ c ≤ 'F' then c.toNat - 'A'.toNat + 10
    else base
  if value < base then some value else none

def isDigitOf (base : Nat) (c : Char) : Bool := (digitValue? base c).isSome

def countLimit : Nat := 0x10000000000000000

def digitsValue (base : Nat) (digits : List Char) : Nat :=
  digits.foldl (fun value c => (digitValue? base c).elim value (base * value + ·)) 0

end EventLoop.Text
