import EventLoop.Parsing.Stream

set_option autoImplicit false

namespace EventLoop

def reservedWords : List String :=
  ["if", "else", "for", "while", "do", "switch", "case", "default", "try", "catch", "finally",
   "throw", "class", "extends", "import", "export", "break", "continue", "debugger", "this",
   "super", "yield", "with", "enum"]

def isReserved (word : String) : Bool := reservedWords.contains word

def skippedStatement? : String → Option NodeKind
  | "if" => some .ifStatement
  | "for" => some .forStatement
  | "while" => some .whileStatement
  | "do" => some .doWhileStatement
  | "switch" => some .switchStatement
  | "try" => some .tryStatement
  | "throw" => some .throwStatement
  | "class" => some .classDeclaration
  | "import" => some .importDeclaration
  | "export" => some .exportDeclaration
  | "break" => some .breakStatement
  | "continue" => some .continueStatement
  | "debugger" => some .debuggerStatement
  | _ => none

def reservedOperand? : String → Option NodeKind
  | "this" => some .thisExpression
  | "super" => some .superExpression
  | "import" => some .importExpression
  | "class" => some .classExpression
  | _ => none

namespace TokenStream

def word? (stream : TokenStream) : Option String :=
  match stream.current.kind with
  | .identifier name => some name
  | _ => none

def isAtIdentifier (stream : TokenStream) : Bool := stream.word?.any (!isReserved ·)

end TokenStream

namespace Parser

variable {m : Type → Type} [TokenParser m]

def isAtIdentifier : m Bool := return (← look).isAtIdentifier

def identifier : m Identifier := do
  let stream ← look
  match stream.current.kind with
  | .identifier name =>
      if isReserved name then unexpected .identifier
      else
        advance
        return ⟨name, stream.current.span⟩
  | _ => unexpected .identifier

def propertyName : m Identifier := do
  let stream ← look
  match stream.current.kind with
  | .identifier name =>
      advance
      return ⟨name, stream.current.span⟩
  | .keyword keyword =>
      advance
      return ⟨keyword.text, stream.current.span⟩
  | _ => unexpected .propertyName

/-- A statement ends at a semicolon. None is needed before a closing brace, at the end, or after a
line break. -/
def endStatement : m Unit := do
  if ← eat .semicolon then return
  let stream ← look
  unless stream.isAt .braceClose || stream.isAtEnd || stream.current.newlineBefore do
    unexpected (.punctuator .semicolon)

end Parser

end EventLoop
