import EventLoop.Proofs.LoggedGrammar
import EventLoop.Proofs.NestedStatements

set_option autoImplicit false

/-!
# The limit of nesting

A program that is accepted is a tree of limited height, and the counter that sets the limit is the
same before and after each of its parts.
-/

namespace EventLoop

theorem deepest_maxNesting_le : deepest maxNesting ≤ maxNesting ^ 2 := by decide +kernel

theorem Program.height_le {source : String} {program : Program}
    (parsed : parse source = .ok program) {statement : Statement}
    (member : statement ∈ program.body) : statement.tree.height ≤ maxNesting ^ 2 := by
  obtain ⟨rest, read⟩ := readFrom_of_parse parsed
  have low := read.fits.heightOfAll_le
  have listed : statement.tree ∈ program.body.map Statement.tree := List.mem_map_of_mem member
  exact (SyntaxTree.height_le_heightOfAll listed).trans (low.trans deepest_maxNesting_le)

inductive GrammarRule : Type → Type 1 where
  | nestedStatement : GrammarRule Statement
  | nestedAssignment : GrammarRule Expr
  | nestedUnary : GrammarRule Expr
  | statement : GrammarRule Statement
  | plainStatement : GrammarRule Statement
  | variableDeclaration (kind : VariableKind) : GrammarRule Statement
  | declarators : GrammarRule (List Declarator)
  | declarator : GrammarRule Declarator
  | returnArgument : GrammarRule (Option Expr)
  | returns : GrammarRule Statement
  | expressionStatement : GrammarRule Statement
  | skipStatement (kind : NodeKind) (start : Span) : GrammarRule Statement
  | endStatement : GrammarRule Unit
  | block : GrammarRule (List Statement × Span)
  | params : GrammarRule (List Identifier)
  | functionName (form : FunctionForm) : GrammarRule (Option Identifier)
  | function (form : FunctionForm) : GrammarRule FunctionNode
  | functionRest (form : FunctionForm) (start : Span) : GrammarRule FunctionNode
  | arrowParams : GrammarRule (List Identifier)
  | arrowBody : GrammarRule FunctionBody
  | arrowFunction : GrammarRule FunctionNode
  | expression : GrammarRule Expr
  | assignment : GrammarRule Expr
  | asyncExpression (start : Span) : GrammarRule Expr
  | conditionalTail (test : Expr) (start : Span) : GrammarRule Expr
  | assignmentTail (left : Expr) (start : Span) : GrammarRule Expr
  | binary (minimum : Nat) : GrammarRule Expr
  | operators (left : Expr) (minimum : Nat) (start : Span) : GrammarRule Expr
  | unary : GrammarRule Expr
  | postfixed (start : Span) : GrammarRule Expr
  | update (op : UpdateOp) (order : UpdateOrder) (target : Expr) (start : Span) : GrammarRule Expr
  | leftHandSide : GrammarRule Expr
  | members : GrammarRule Unit
  | links (operand : Expr) (start : Span) : GrammarRule Expr
  | argument : GrammarRule Expr
  | arguments : GrammarRule (List Expr)
  | optionalLink : GrammarRule Unit
  | primary : GrammarRule Expr
  | functionExpression : GrammarRule Expr
  | parenthesised : GrammarRule Expr
  | wordOperand (name : String) : GrammarRule Expr
  | literal (value : Literal) : GrammarRule Expr
  | regexp : GrammarRule Expr
  | group (kind : NodeKind) (start : Span) : GrammarRule Expr
  | skipGroup : GrammarRule Unit
  | classHead : GrammarRule Unit
  | identifier : GrammarRule Identifier
  | propertyName : GrammarRule Identifier
  | eat (mark : Punctuator) : GrammarRule Bool
  | expect (mark : Punctuator) : GrammarRule Unit

/-- The parser of a rule, given those for what is nested in it. Chains are taken with what sets the
counter back at their end. -/
def GrammarRule.parser {m : Type → Type} [NestedParser m] (level : Level m) {α : Type} :
    GrammarRule α → m α
  | nestedStatement => level.statement
  | nestedAssignment => level.assignment
  | nestedUnary => level.unary
  | statement => Parser.statement level
  | plainStatement => Parser.plainStatement level
  | variableDeclaration kind => Parser.variableDeclaration level kind
  | declarators => Parser.declarators level
  | declarator => Parser.declarator level
  | returnArgument => Parser.returnArgument level
  | returns => Parser.returns level
  | expressionStatement => Parser.expressionStatement level
  | skipStatement kind start => Parser.skipStatement kind start
  | endStatement => Parser.endStatement
  | block => Parser.block level
  | params => Parser.params
  | functionName form => Parser.functionName form
  | function form => Parser.function level form
  | functionRest form start => Parser.functionRest level form start
  | arrowParams => Parser.arrowParams
  | arrowBody => Parser.arrowBody level
  | arrowFunction => Parser.arrowFunction level
  | expression => Parser.expression level
  | assignment => Parser.assignment level
  | asyncExpression start => Parser.asyncExpression level start
  | conditionalTail test start => Parser.conditionalTail level test start
  | assignmentTail left start => Parser.assignmentTail level left start
  | binary minimum => Parser.binary level minimum
  | operators left minimum start => Parser.chain (level.operators left minimum start)
  | unary => Parser.unary level
  | postfixed start => Parser.postfixed level start
  | update op order target start => Parser.update op order target start
  | leftHandSide => Parser.leftHandSide level
  | members => Parser.chain level.members
  | links operand start => Parser.chain (level.links operand start)
  | argument => Parser.argument level.assignment
  | arguments => Parser.arguments level.assignment
  | optionalLink => Parser.optionalLink level.assignment
  | primary => Parser.primary level
  | functionExpression => Parser.functionExpression level
  | parenthesised => Parser.parenthesised level
  | wordOperand name => Parser.wordOperand name
  | literal value => Parser.literal value
  | regexp => Parser.regexp
  | group kind start => Parser.group kind start
  | skipGroup => Parser.skipGroup
  | classHead => Parser.classHead
  | identifier => Parser.identifier
  | propertyName => Parser.propertyName
  | eat mark => Parser.eat mark
  | expect mark => Parser.expect mark

open LoggedParser

-- Brackets are not asked for here, so nothing has to be known of the token at which a rule starts.
theorem LoggedParser.eat_agrees {stream : TokenStream} {depth : Nat} (mark : Punctuator) :
    Agrees False (Parser.eat mark) (Parser.eat mark) stream depth := by
  refine fun opened => .isAt (.ite (fun _ => ?_) fun _ => .pure ⟨rfl, rfl⟩)
  exact .advance nofun (.pure ⟨rfl, rfl⟩)

theorem GrammarRule.agrees {logged : Level LoggedParser} {level : Level Parser} {depth : Nat}
    (levels : Level.Agrees False logged level depth) {α : Type} (rule : GrammarRule α)
    (stream : TokenStream) :
    Agrees False (rule.parser logged) (rule.parser level) stream depth := by
  cases rule with
  | nestedStatement => exact levels.statement stream
  | nestedAssignment => exact levels.assignment stream
  | nestedUnary => exact levels.unary stream
  | statement => exact statement_agrees levels
  | plainStatement => exact plainStatement_agrees levels
  | variableDeclaration kind =>
    have asked : False → stream.current.kind = .keyword .varWord := nofun
    exact variableDeclaration_agrees levels kind asked
  | declarators => exact declarators_agrees levels
  | declarator => exact declarator_agrees levels
  | returnArgument => exact returnArgument_agrees levels
  | returns => exact returns_agrees levels nofun
  | expressionStatement => exact expressionStatement_agrees levels
  | skipStatement kind start => exact skipStatement_agrees kind start
  | endStatement => exact endStatement_agrees
  | block => exact block_agrees levels
  | params => exact params_agrees
  | functionName form => exact functionName_agrees form
  | function form => exact function_agrees levels form
  | functionRest form start => exact functionRest_agrees levels form start
  | arrowParams => exact arrowParams_agrees
  | arrowBody => exact arrowBody_agrees levels
  | arrowFunction => exact arrowFunction_agrees levels
  | expression => exact expression_agrees levels
  | assignment => exact assignment_agrees levels
  | asyncExpression start => exact asyncExpression_agrees levels nofun start
  | conditionalTail test start => exact conditionalTail_agrees levels test start
  | assignmentTail left start => exact assignmentTail_agrees levels left start
  | binary minimum => exact binary_agrees levels minimum
  | operators left minimum start => exact (levels.operators left minimum start stream).chain
  | unary => exact unary_agrees levels
  | postfixed start => exact postfixed_agrees levels start
  | update op order target start => exact update_agrees op order target start
  | leftHandSide => exact leftHandSide_agrees levels
  | members => exact (levels.members stream).chain
  | links operand start => exact (levels.links operand start stream).chain
  | argument => exact argument_agrees levels.assignment
  | arguments => exact arguments_agrees levels.assignment
  | optionalLink => exact optionalLink_agrees levels.assignment
  | primary => exact primary_agrees levels
  | functionExpression => exact functionExpression_agrees levels nofun
  | parenthesised => exact parenthesised_agrees levels nofun
  | wordOperand name => exact wordOperand_agrees nofun
  | literal value => exact literal_agrees value nofun
  | regexp => exact regexp_agrees nofun
  | group kind start =>
    have asked : False → stream.current.kind = .punctuator .bracketOpen := nofun
    exact group_agrees asked rfl kind start
  | skipGroup =>
    have asked : False → stream.current.kind = .punctuator .bracketOpen := nofun
    exact skipGroup_agrees asked rfl
  | classHead =>
    exact fun opened => classHead_follows.mono (fun _ _ _ _ kept => kept.1) fun _ same => same
  | identifier => exact identifier_agrees
  | propertyName => exact propertyName_agrees
  | eat mark => exact eat_agrees mark
  | expect mark =>
    refine fun opened => (eat_agrees mark).bind rfl fun here _ => ?_
    cases here with
    | true => exact .pure ⟨rfl, rfl⟩
    | false => exact .unexpected _ rfl

/-- On every way down the tree of a program there are at most so many statements, functions and
expressions. Every rule leaves the counter as it found it, whether it fails or not, and never raises
it above the limit; a program read with the counter is the program that is accepted, and what one
statement does to the counter makes no difference to the next. -/
theorem Program.nesting_limited :
    (∀ (source : String) (program : Program), parse source = .ok program →
      ∀ statement ∈ program.body, ∀ path, statement.tree.Path path →
        path.countP (·.role.counts) ≤ maxNesting ^ 2) ∧
    (∀ depth left spare : Nat, depth + left = maxNesting →
      ∀ (α : Type) (rule : GrammarRule α) (stream : TokenStream) (peak : Nat) (pieces : List Piece),
        peak ≤ maxNesting → ∃ highest ≤ maxNesting, ∃ more,
          rule.parser (m := LoggedParser) (.above (left + spare)) stream ⟨depth, peak, pieces⟩ =
            (rule.parser (m := Parser) (.above left) stream, ⟨depth, highest, pieces ++ more⟩)) ∧
    (∀ source : String, ∃ highest ≤ maxNesting, ∃ pieces,
      readLogged source =
        ((Parser.program : Parser Program) (.ofText source), ⟨0, highest, pieces⟩)) ∧
    ∀ first second : TokenStream,
      let statement := (Level.above (m := LoggedParser) maxNesting).statement
      (statement second (statement first .empty).2).1 = (statement second .empty).1 := by
  refine ⟨?_, ?_, ?_, ?_⟩
  · intro source program parsed statement member path way
    exact way.count_le_height.trans (height_le parsed member)
  · intro depth left spare sum α rule stream peak pieces low
    have levels : Level.Agrees False (.above (left + spare)) (.above left) depth :=
      Level.above_agrees sum spare
    exact (rule.agrees levels stream).exists_eq low pieces
  · intro source
    exact (program_agrees False source).exists_eq (Nat.zero_le _) []
  · intro first second
    have levels : Level.Agrees False (.above maxNesting) (.above maxNesting) 0 :=
      Level.above_agrees (Nat.zero_add _) 0
    obtain ⟨peak, bound, pieces, read⟩ := (levels.statement first).exists_eq (Nat.zero_le _) []
    obtain ⟨_, -, _, again⟩ := (levels.statement second).exists_eq bound pieces
    obtain ⟨_, -, _, alone⟩ := (levels.statement second).exists_eq (Nat.zero_le _) []
    rw [List.nil_append] at read
    dsimp only [ReadingLog.empty]
    rw [read, again, alone]

end EventLoop
