set_option autoImplicit false

namespace EventLoop

inductive NodeKind where
  | variableDeclaration
  | functionDeclaration
  | expressionStatement
  | returnStatement
  | blockStatement
  | emptyStatement
  | literal
  | identifier
  | functionExpression
  | arrowFunctionExpression
  | unaryExpression
  | binaryExpression
  | logicalExpression
  | conditionalExpression
  | assignmentExpression
  | updateExpression
  | sequenceExpression
  | memberExpression
  | callExpression
  | ifStatement
  | forStatement
  | whileStatement
  | doWhileStatement
  | switchStatement
  | tryStatement
  | throwStatement
  | classDeclaration
  | importDeclaration
  | exportDeclaration
  | breakStatement
  | continueStatement
  | debuggerStatement
  | labeledStatement
  | generatorFunctionDeclaration
  | asyncFunctionDeclaration
  | asyncFunctionExpression
  | asyncArrowFunctionExpression
  | generatorFunctionExpression
  | awaitExpression
  | newExpression
  | chainExpression
  | taggedTemplateExpression
  | spreadElement
  | arrayExpression
  | objectExpression
  | templateLiteral
  | regExpLiteral
  | thisExpression
  | superExpression
  | importExpression
  | classExpression
deriving DecidableEq, Repr, Inhabited

def NodeKind.name : NodeKind → String
  | .variableDeclaration => "VariableDeclaration"
  | .functionDeclaration => "FunctionDeclaration"
  | .expressionStatement => "ExpressionStatement"
  | .returnStatement => "ReturnStatement"
  | .blockStatement => "BlockStatement"
  | .emptyStatement => "EmptyStatement"
  | .literal => "Literal"
  | .identifier => "Identifier"
  | .functionExpression => "FunctionExpression"
  | .arrowFunctionExpression => "ArrowFunctionExpression"
  | .unaryExpression => "UnaryExpression"
  | .binaryExpression => "BinaryExpression"
  | .logicalExpression => "LogicalExpression"
  | .conditionalExpression => "ConditionalExpression"
  | .assignmentExpression => "AssignmentExpression"
  | .updateExpression => "UpdateExpression"
  | .sequenceExpression => "SequenceExpression"
  | .memberExpression => "MemberExpression"
  | .callExpression => "CallExpression"
  | .ifStatement => "IfStatement"
  | .forStatement => "ForStatement"
  | .whileStatement => "WhileStatement"
  | .doWhileStatement => "DoWhileStatement"
  | .switchStatement => "SwitchStatement"
  | .tryStatement => "TryStatement"
  | .throwStatement => "ThrowStatement"
  | .classDeclaration => "ClassDeclaration"
  | .importDeclaration => "ImportDeclaration"
  | .exportDeclaration => "ExportDeclaration"
  | .breakStatement => "BreakStatement"
  | .continueStatement => "ContinueStatement"
  | .debuggerStatement => "DebuggerStatement"
  | .labeledStatement => "LabeledStatement"
  | .generatorFunctionDeclaration => "GeneratorFunctionDeclaration"
  | .asyncFunctionDeclaration => "AsyncFunctionDeclaration"
  | .asyncFunctionExpression => "AsyncFunctionExpression"
  | .asyncArrowFunctionExpression => "AsyncArrowFunctionExpression"
  | .generatorFunctionExpression => "GeneratorFunctionExpression"
  | .awaitExpression => "AwaitExpression"
  | .newExpression => "NewExpression"
  | .chainExpression => "ChainExpression"
  | .taggedTemplateExpression => "TaggedTemplateExpression"
  | .spreadElement => "SpreadElement"
  | .arrayExpression => "ArrayExpression"
  | .objectExpression => "ObjectExpression"
  | .templateLiteral => "TemplateLiteral"
  | .regExpLiteral => "RegExpLiteral"
  | .thisExpression => "ThisExpression"
  | .superExpression => "Super"
  | .importExpression => "ImportExpression"
  | .classExpression => "ClassExpression"

end EventLoop
