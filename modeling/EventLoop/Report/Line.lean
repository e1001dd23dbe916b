import EventLoop.Session

set_option autoImplicit false

namespace EventLoop

namespace Report

def alignRight (width : Nat) (text : String) : String :=
  String.ofList (List.replicate (width - text.length) ' ') ++ text

def alignLeft (width : Nat) (text : String) : String :=
  text ++ String.ofList (List.replicate (width - text.length) ' ')

def unlines (lines : List String) : String := lines.foldl (· ++ · ++ "\n") ""

def titled (title : String) : List String → List String
  | [] => []
  | lines => ["", title ++ ":"] ++ lines.map ("  " ++ ·)

end Report

def TaskEntry.text (task : TaskEntry) : String :=
  task.name ++ "(" ++ Number.text task.delay ++ ")"

def NodeRef.text (node : NodeRef) : String :=
  s!"{node.kind.name} {node.span.line}:{node.span.column}"

def Step.line (index : Nat) (step : Step) : String :=
  let names (title : String) (items : List String) : String :=
    " " ++ title ++ "=[" ++ String.intercalate ", " items ++ "]"
  Report.alignRight 4 (toString index) ++ "  " ++ Report.alignLeft 32 step.event.label ++
    names "stack" step.stack.reverse ++ names "tasks" (step.tasks.map TaskEntry.text) ++
    names "microtasks" step.microtasks ++
    step.node.elim "" fun node => " @ " ++ node.text

def ConsoleLine.line (line : ConsoleLine) : String := "[" ++ line.level.name ++ "] " ++ line.text

def Diagnostic.line (diagnostic : Diagnostic) : String :=
  s!"step {diagnostic.step}: {diagnostic.text}"

def Run.stepLines (run : Run) : List String :=
  run.trace.toList.zipIdx.map fun (step, index) => step.line index

def Run.lines (run : Run) (showConsole : Bool) : List String :=
  let console := if showConsole then run.console.toList.map ConsoleLine.line else []
  run.stepLines ++ Report.titled "console" console ++
    Report.titled "diagnostics" (run.diagnostics.toList.map Diagnostic.line) ++
    if run.truncated then ["", "(trace truncated)"] else []

def Session.lines (session : Session) : List String :=
  let shown := session.current?.elim "(no trace, use 'run')" (Step.line session.stepIndex)
  if session.status = .running then [shown] else [shown, "status: " ++ session.status.name]

end EventLoop
