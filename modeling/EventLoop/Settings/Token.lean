import EventLoop.Text.Classes

set_option autoImplicit false

namespace EventLoop

inductive SettingsToken where
  | openBrace
  | closeBrace
  | openBracket
  | closeBracket
  | comma
  | colon
  | text (value : String)
  | count (value : Nat)
  | flag (value : Bool)
deriving DecidableEq, Repr, Inhabited

namespace SettingsToken

def isBlank (c : Char) : Bool := c == ' ' || c == '\n' || c == '\t' || c == '\r'

def count? (digits : List Char) : Option SettingsToken :=
  let value := Text.digitsValue 10 digits
  if digits.head? = some '0' ∧ digits ≠ ['0'] then none
  else if value < Text.countLimit then some (.count value)
  else none

def escaped? : Char → Option Char
  | '\x22' => some '\x22'
  | '\\' => some '\\'
  | '/' => some '/'
  | 'b' => some '\x08'
  | 'f' => some '\x0c'
  | 'n' => some '\n'
  | 'r' => some '\r'
  | 't' => some '\t'
  | _ => none

def scalar? (digits : List Char) : Option Char :=
  let value := Text.digitsValue 16 digits
  if digits.all (Text.isDigitOf 16) && value.isValidChar then some (Char.ofNat value) else none

def quoted? (read : List Char) (count : Nat) : List Char → Option (SettingsToken × Nat)
  | '\x22' :: _ => some (.text (String.ofList read.reverse), count + 1)
  | '\\' :: 'u' :: a :: b :: c :: d :: rest => do
      quoted? ((← scalar? [a, b, c, d]) :: read) (count + 6) rest
  | '\\' :: letter :: rest => do quoted? ((← escaped? letter) :: read) (count + 2) rest
  | c :: rest => if c < ' ' then none else quoted? (c :: read) (count + 1) rest
  | [] => none

def read? (c : Char) (rest : List Char) : Option (SettingsToken × Nat) :=
  match c with
  | '\x7b' => some (.openBrace, 0)
  | '\x7d' => some (.closeBrace, 0)
  | '[' => some (.openBracket, 0)
  | ']' => some (.closeBracket, 0)
  | ',' => some (.comma, 0)
  | ':' => some (.colon, 0)
  | '\x22' => quoted? [] 0 rest
  | 't' => if ['r', 'u', 'e'].isPrefixOf rest then some (.flag true, 3) else none
  | 'f' => if ['a', 'l', 's', 'e'].isPrefixOf rest then some (.flag false, 4) else none
  | c =>
      if Text.isDigitOf 10 c then
        let more := rest.takeWhile (Text.isDigitOf 10)
        (count? (c :: more)).map (·, more.length)
      else none

def all? : List Char → Option (List SettingsToken)
  | [] => some []
  | c :: rest =>
      if isBlank c then all? rest
      else do
        let (token, more) ← read? c rest
        return token :: (← all? (rest.drop more))
termination_by text => text.length
decreasing_by all_goals simp only [List.length_cons, List.length_drop]; omega

end SettingsToken

end EventLoop
