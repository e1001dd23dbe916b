import EventLoop.Report.Document
import EventLoop.Session

set_option autoImplicit false

namespace EventLoop

def Span.document (span : Span) : Document :=
  .object [("start", .count span.start), ("end", .count span.stop), ("line", .count span.line),
    ("column", .count span.column)]

def NodeRef.document (node : NodeRef) : Document :=
  .object [("kind", .text node.kind.name), ("span", node.span.document)]

def Event.document : Event → Document
  | .start => .object [("type", .text "Start")]
  | .push frame => .object [("type", .text "Push"), ("frame", .text frame)]
  | .pop frame => .object [("type", .text "Pop"), ("frame", .text frame)]
  | .taskEnqueued name delay =>
      .object [("type", .text "TaskEnqueued"), ("name", .text name), ("delay", .number delay)]
  | .taskCancelled name => .object [("type", .text "TaskCancelled"), ("name", .text name)]
  | .microtaskEnqueued name => .object [("type", .text "MicrotaskEnqueued"), ("name", .text name)]
  | .microtaskRun name firstStep =>
      .object [("type", .text "MicrotaskRun"), ("name", .text name),
        ("first_step", .count firstStep)]
  | .taskRun name firstStep =>
      .object [("type", .text "TaskRun"), ("name", .text name), ("first_step", .count firstStep)]

def TaskEntry.document (task : TaskEntry) : Document :=
  .object [("name", .text task.name), ("delay", .number task.delay)]

def Step.document (step : Step) : Document :=
  .object [("event", step.event.document), ("call_stack", .ofList .text step.stack.reverse),
    ("tasks", .ofList TaskEntry.document step.tasks), ("microtasks", .ofList .text step.microtasks),
    ("node", .ofOption NodeRef.document step.node), ("clock", .number step.clock)]

def Problem.field : Problem → String × Document
  | .unhandledNode kind => ("kind", .text kind.name)
  | .unresolvedCallee callee => ("name", .text callee)
  | .unsupportedOperator operator => ("operator", .text operator)
  | .invalidCallback source => ("source", .text source)
  | .callDepthExceeded depth => ("depth", .count depth)
  | .stepLimitReached limit => ("limit", .count limit)

def Diagnostic.document (diagnostic : Diagnostic) : Document :=
  .object [("type", .text diagnostic.problem.name), diagnostic.problem.field,
    ("message", .text diagnostic.problem.message),
    ("span", .ofOption Span.document diagnostic.span), ("step", .count diagnostic.step)]

def ConsoleLine.document (line : ConsoleLine) : Document :=
  .object [("level", .text line.level.name), ("text", .text line.text), ("step", .count line.step)]

def Run.outcomeName (run : Run) : String := if run.truncated then "truncated" else "completed"

def Run.document (run : Run) : Document :=
  .object [("trace", .ofList Step.document run.trace.toList),
    ("diagnostics", .ofList Diagnostic.document run.diagnostics.toList),
    ("console", .ofList ConsoleLine.document run.console.toList),
    ("outcome", .text run.outcomeName), ("clock", .number run.clock)]

def Session.document (session : Session) : Document :=
  .object [("status", .text session.status.name.toLower),
    ("running", .flag (session.status = .running)), ("step", .count session.stepIndex),
    ("total_steps", .count session.totalSteps),
    ("current", .ofOption Step.document session.current?),
    ("diagnostics", .ofList Diagnostic.document session.diagnostics.toList),
    ("console", .ofList ConsoleLine.document session.console.toList)]

end EventLoop
