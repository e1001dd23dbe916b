import EventLoop.CommandLine.Options
import EventLoop.CommandLine.Prompt
import EventLoop.Report.Records
import EventLoop.Settings.Reader

set_option autoImplicit false

/-!
# The command line

A command line is carried out as a function of its arguments, the files that it names and the
standard input. Reading and printing are left to the program around it.
-/

namespace EventLoop.CommandLine

inductive FileError where
  | missing
  | directory
  | other (message : String)
deriving DecidableEq, Repr, Inhabited

def FileError.message : FileError → String
  | .missing => "No such file or directory (os error 2)"
  | .directory => "Is a directory (os error 21)"
  | .other message => message

inductive Failure where
  | usage (error : UsageError)
  | settingsFile (error : FileError)
  | settingsText (error : SettingsTextError)
  | settings (error : SettingsError)
  | sourceFile (path : String) (error : FileError)
  | run (error : RunError)
deriving Repr, Inhabited

def Failure.message (program : String) : Failure → String
  | .usage error => error.message program
  | .settingsFile error => error.message
  | .settingsText error => error.message
  | .settings error => error.message
  | .sourceFile path error => "Failed to read '" ++ path ++ "': " ++ error.message
  | .run error => error.message

structure Job where
  settings : Settings
  source : String
deriving DecidableEq, Repr, Inhabited

def Options.settings (options : Options) (file : Option (Except FileError String)) :
    Except Failure Settings := do
  let base ← match file with
    | none => pure {}
    | some content => do
        (Settings.ofText (← content.mapError .settingsFile)).mapError .settingsText
  let settings : Settings :=
    { base with
      maxSteps := options.maxSteps.getD base.maxSteps
      maxCallDepth := options.maxCallDepth.getD base.maxCallDepth }
  settings.validate.mapError .settings
  return settings

def Invocation.job (invocation : Invocation) (settingsFile : Option (Except FileError String))
    (source : Except FileError String) : Except Failure Job := do
  let settings ← invocation.options.settings settingsFile
  let source ← source.mapError (.sourceFile invocation.source)
  return ⟨settings, source⟩

def Job.print (job : Job) (json : Bool) : Except Failure Printout := do
  let run ← (simulate job.source job.settings).mapError .run
  let report := if json then [run.document.render] else run.lines (!job.settings.echoConsole)
  return .ofEcho run ++ .ofLines report

def Job.session (job : Job) : Session := (Session.new job.settings).setCode job.source

def Invocation.print (invocation : Invocation) (job : Job) (input : String) :
    Except Failure Printout :=
  if invocation.options.interactive then .ok (greeting ++ dialogue job.session (lines input))
  else job.print invocation.options.json

structure Ending where
  code : UInt32
  printout : Printout
deriving DecidableEq, Repr, Inhabited

def Ending.of (program : String) : Except Failure Printout → Ending
  | .ok printout => ⟨0, printout⟩
  | .error failure => ⟨1, { errors := Report.unlines ["Error: " ++ failure.message program] }⟩

/-- Carries out a command line on given files and a given standard input. -/
def execute (program : String) (files : String → Except FileError String) (input : String)
    (arguments : List String) : Ending :=
  .of program do
    let invocation ← (Invocation.parse arguments).mapError .usage
    let source := if invocation.source = standardInput then .ok input else files invocation.source
    let job ← invocation.job (invocation.options.settingsPath.map files) source
    invocation.print job input

end EventLoop.CommandLine
