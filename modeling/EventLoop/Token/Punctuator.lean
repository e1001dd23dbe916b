set_option autoImplicit false

namespace EventLoop

inductive Punctuator where
  | unsignedShiftRightAssign
  | strictEqual
  | strictNotEqual
  | powerAssign
  | shiftLeftAssign
  | shiftRightAssign
  | unsignedShiftRight
  | ellipsis
  | andAssign
  | orAssign
  | coalesceAssign
  | arrow
  | equal
  | notEqual
  | lessEqual
  | greaterEqual
  | logicalAnd
  | logicalOr
  | coalesce
  | optionalChain
  | increment
  | decrement
  | plusAssign
  | minusAssign
  | timesAssign
  | slashAssign
  | percentAssign
  | ampersandAssign
  | barAssign
  | caretAssign
  | power
  | shiftLeft
  | shiftRight
  | braceOpen
  | braceClose
  | parenOpen
  | parenClose
  | bracketOpen
  | bracketClose
  | semicolon
  | comma
  | colon
  | question
  | dot
  | assign
  | less
  | greater
  | plus
  | minus
  | times
  | slash
  | percent
  | ampersand
  | bar
  | caret
  | bang
  | tilde
deriving DecidableEq, Repr, Inhabited

namespace Punctuator

def all : List Punctuator :=
  [.unsignedShiftRightAssign, .strictEqual, .strictNotEqual, .powerAssign, .shiftLeftAssign,
    .shiftRightAssign, .unsignedShiftRight, .ellipsis, .andAssign, .orAssign, .coalesceAssign,
    .arrow, .equal, .notEqual, .lessEqual, .greaterEqual, .logicalAnd, .logicalOr, .coalesce,
    .optionalChain, .increment, .decrement, .plusAssign, .minusAssign, .timesAssign, .slashAssign,
    .percentAssign, .ampersandAssign, .barAssign, .caretAssign, .power, .shiftLeft, .shiftRight,
    .braceOpen, .braceClose, .parenOpen, .parenClose, .bracketOpen, .bracketClose, .semicolon,
    .comma, .colon, .question, .dot, .assign, .less, .greater, .plus, .minus, .times, .slash,
    .percent, .ampersand, .bar, .caret, .bang, .tilde]

theorem mem_all (punctuator : Punctuator) : punctuator ∈ all := by
  cases punctuator <;> decide

def chars : Punctuator → List Char
  | .unsignedShiftRightAssign => ['>', '>', '>', '=']
  | .strictEqual => ['=', '=', '=']
  | .strictNotEqual => ['!', '=', '=']
  | .powerAssign => ['*', '*', '=']
  | .shiftLeftAssign => ['<', '<', '=']
  | .shiftRightAssign => ['>', '>', '=']
  | .unsignedShiftRight => ['>', '>', '>']
  | .ellipsis => ['.', '.', '.']
  | .andAssign => ['&', '&', '=']
  | .orAssign => ['|', '|', '=']
  | .coalesceAssign => ['?', '?', '=']
  | .arrow => ['=', '>']
  | .equal => ['=', '=']
  | .notEqual => ['!', '=']
  | .lessEqual => ['<', '=']
  | .greaterEqual => ['>', '=']
  | .logicalAnd => ['&', '&']
  | .logicalOr => ['|', '|']
  | .coalesce => ['?', '?']
  | .optionalChain => ['?', '.']
  | .increment => ['+', '+']
  | .decrement => ['-', '-']
  | .plusAssign => ['+', '=']
  | .minusAssign => ['-', '=']
  | .timesAssign => ['*', '=']
  | .slashAssign => ['/', '=']
  | .percentAssign => ['%', '=']
  | .ampersandAssign => ['&', '=']
  | .barAssign => ['|', '=']
  | .caretAssign => ['^', '=']
  | .power => ['*', '*']
  | .shiftLeft => ['<', '<']
  | .shiftRight => ['>', '>']
  | .braceOpen => ['\x7b']
  | .braceClose => ['\x7d']
  | .parenOpen => ['(']
  | .parenClose => [')']
  | .bracketOpen => ['[']
  | .bracketClose => [']']
  | .semicolon => [';']
  | .comma => [',']
  | .colon => [':']
  | .question => ['?']
  | .dot => ['.']
  | .assign => ['=']
  | .less => ['<']
  | .greater => ['>']
  | .plus => ['+']
  | .minus => ['-']
  | .times => ['*']
  | .slash => ['/']
  | .percent => ['%']
  | .ampersand => ['&']
  | .bar => ['|']
  | .caret => ['^']
  | .bang => ['!']
  | .tilde => ['~']

def text (punctuator : Punctuator) : String := String.ofList punctuator.chars

/-- Whether a text starts with the punctuator. An optional chain is not followed by a digit: that
is a conditional and a number that starts with its point. -/
def starts (punctuator : Punctuator) (text : List Char) : Bool :=
  punctuator.chars.isPrefixOf text &&
    !(punctuator == .optionalChain && (text.drop 2).head?.any Char.isDigit)

def first? (text : List Char) : Option Punctuator := all.find? (·.starts text)

theorem chars_prefix_of_first? {punctuator : Punctuator} {text : List Char}
    (found : first? text = some punctuator) : punctuator.chars <+: text := by
  have starts := List.find?_some found
  rw [Punctuator.starts, Bool.and_eq_true] at starts
  exact List.isPrefixOf_iff_prefix.mp starts.1

def isOpening : Punctuator → Bool
  | .parenOpen | .bracketOpen | .braceOpen => true
  | _ => false

def isClosing : Punctuator → Bool
  | .parenClose | .bracketClose | .braceClose => true
  | _ => false

end Punctuator

end EventLoop
