import EventLoop.Token.Basic

set_option autoImplicit false

namespace EventLoop

inductive Expected where
  | statement
  | expression
  | identifier
  | propertyName
  | functionName
  | keyword (keyword : Keyword)
  | punctuator (punctuator : Punctuator)
deriving DecidableEq, Repr, Inhabited

def Expected.text : Expected → String
  | .statement => "statement"
  | .expression => "expression"
  | .identifier => "identifier"
  | .propertyName => "property name"
  | .functionName => "function name"
  | .keyword word => "'" ++ word.text ++ "'"
  | .punctuator mark => "'" ++ mark.text ++ "'"

inductive SyntaxFault where
  | unexpected (kind : TokenKind) (text : List Char) (expected : Expected)
  | tooDeep
  | unclosedBlock
  | unclosedStatement
  | unclosedGroup
  | unclosedClass
  | unclosedRegexp
  | unsupportedParameter
  -- A repetition whose round reads nothing is given up.
  | stalled
deriving Repr, Inhabited

structure SyntaxError where
  fault : SyntaxFault
  line : Nat
  column : Nat
deriving Repr, Inhabited

def unexpectedText (kind : TokenKind) (text : List Char) (expected : Expected) : String :=
  match kind with
  | .invalid c => "Invalid or unexpected token '" ++ String.ofList [c] ++ "'"
  | .unterminated '\x60' => "Unterminated template literal"
  | .unterminated '/' => "Unterminated regular expression"
  | .unterminated _ => "Unterminated string literal"
  | .endOfInput => "Unexpected end of input, expected " ++ expected.text
  | _ => "Unexpected token '" ++ String.ofList text ++ "', expected " ++ expected.text

def SyntaxFault.message : SyntaxFault → String
  | .unexpected kind text expected => unexpectedText kind text expected
  | .tooDeep => "Nesting too deep"
  | .unclosedBlock => "Unexpected end of input, expected '\x7d'"
  | .unclosedStatement => "Unexpected end of input"
  | .unclosedGroup => "Unexpected end of input, unbalanced brackets"
  | .unclosedClass => "Unexpected end of input in class expression"
  | .unclosedRegexp => "Unterminated regular expression"
  | .unsupportedParameter =>
      "Only plain identifier parameters are supported (no defaults, rest or destructuring)"
  | .stalled => "No progress"

def SyntaxError.message (error : SyntaxError) : String :=
  s!"SyntaxError: {error.fault.message} at {error.line}:{error.column}"

end EventLoop
