import EventLoop.Number.Positional

set_option autoImplicit false

/-!
# Structured output

Documents and their text: two blanks for each level, each item and field on a line of its own.
-/

namespace EventLoop

inductive Document where
  | null
  | flag (value : Bool)
  | count (value : Nat)
  | number (value : Float)
  | text (value : String)
  | list (items : List Document)
  | object (fields : List (String × Document))
deriving Inhabited

namespace Document

def ofList {α : Type} (encode : α → Document) (items : List α) : Document :=
  .list (items.map encode)

def ofOption {α : Type} (encode : α → Document) (item : Option α) : Document :=
  item.elim .null encode

def isPositional (leading : Int) : Bool := -5 ≤ leading && leading ≤ 15

def decimalText (decimal : Number.Decimal) : String :=
  let digits := Nat.toDigits 10 decimal.digits
  let leading := decimal.exponent + digits.length - 1
  if isPositional leading then
    decimal.positional ++ if 0 ≤ decimal.exponent then ".0" else ""
  else
    let fraction := if digits.length = 1 then [] else '.' :: digits.drop 1
    String.ofList (digits.take 1 ++ fraction) ++ (if leading < 0 then "e-" else "e+") ++
      toString leading.natAbs

def numberText (x : Float) : String :=
  match Number.Dyadic.ofFloat? x with
  | none => "null"
  | some value =>
      let sign := if value.negative then "-" else ""
      if value.mantissa = 0 then sign ++ "0.0"
      else sign ++ decimalText (value.shortest .even)

def escape (c : Char) : List Char :=
  match c with
  | '\x22' => ['\\', '\x22']
  | '\\' => ['\\', '\\']
  | '\x08' => ['\\', 'b']
  | '\t' => ['\\', 't']
  | '\n' => ['\\', 'n']
  | '\x0c' => ['\\', 'f']
  | '\r' => ['\\', 'r']
  | c =>
      if c < ' ' then
        ['\\', 'u', '0', '0', Nat.digitChar (c.toNat / 16), Nat.digitChar (c.toNat % 16)]
      else [c]

def quoted (text : String) : String :=
  "\"" ++ String.ofList (text.toList.flatMap escape) ++ "\""

def newline (level : Nat) : String := "\n" ++ String.ofList (List.replicate (2 * level) ' ')

mutual

def write (level : Nat) (written : String) : Document → String
  | .null => written ++ "null"
  | .flag value => written ++ if value then "true" else "false"
  | .count value => written ++ toString value
  | .number value => written ++ numberText value
  | .text value => written ++ quoted value
  | .list [] => written ++ "[]"
  | .list (item :: items) =>
      let first := written ++ "[" ++ newline (level + 1)
      writeItems level (item.write (level + 1) first) items ++ newline level ++ "]"
  | .object [] => written ++ "\x7b\x7d"
  | .object ((name, value) :: fields) =>
      let first := written ++ "\x7b" ++ newline (level + 1) ++ quoted name ++ ": "
      writeFields level (value.write (level + 1) first) fields ++ newline level ++ "\x7d"

def writeItems (level : Nat) (written : String) : List Document → String
  | [] => written
  | item :: items =>
      writeItems level (item.write (level + 1) (written ++ "," ++ newline (level + 1))) items

def writeFields (level : Nat) (written : String) : List (String × Document) → String
  | [] => written
  | (name, value) :: fields =>
      let next := written ++ "," ++ newline (level + 1) ++ quoted name ++ ": "
      writeFields level (value.write (level + 1) next) fields

end

def render (document : Document) : String := document.write 0 ""

end Document

end EventLoop
