import EventLoop.Text.Classes

set_option autoImplicit false

namespace EventLoop.CommandLine

def isInk (c : Char) : Bool := !Text.isWhiteSpace c

def words : List Char → List (List Char)
  | [] => []
  | c :: rest =>
      if isInk c then (c :: rest.takeWhile isInk) :: words (rest.dropWhile isInk) else words rest
termination_by text => text.length
decreasing_by
  · have shorter := (List.dropWhile_sublist (l := rest) isInk).length_le
    simp only [List.length_cons]
    omega
  · simp

def lines (text : String) : List String :=
  let pieces := text.splitOn "\n"
  if pieces.getLast? = some "" then pieces.dropLast else pieces

/-- A count of at most sixty-four bits, in decimal digits that a plus sign may precede. -/
def count? (word : List Char) : Option Nat :=
  let digits := if word.head? = some '+' then word.drop 1 else word
  let value := Text.digitsValue 10 digits
  if digits ≠ [] ∧ digits.all (Text.isDigitOf 10) ∧
    value < Text.countLimit then some value else none

end EventLoop.CommandLine
