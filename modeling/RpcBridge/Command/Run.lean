import RpcBridge.Command.Line
import RpcBridge.Command.Report
import RpcBridge.Terminal.Paint

/-!
# Command/Run — the commands

A run ends with an exit code and what it has to say, on two channels: results, and how the work
went (`Outcome`).  The configuration is looked up before any command starts.
-/

namespace RpcBridge.Command

open Terminal (paint label)

/-- How a run ends. -/
structure Outcome where
  code : Nat
  /-- What was asked for. -/
  output : String
  /-- How the work went. -/
  progress : String

namespace Outcome

/-- A run that went well. -/
def success (output progress : String) : Outcome := ⟨0, output, progress⟩

/-- A run that fails with a text. -/
def failed (text : String) : Outcome := ⟨1, "", paint .red "error:" ++ " " ++ text ++ "\n"⟩

/-- A run that fails with an error. -/
def ofError (e : CommandError) : Outcome := failed e.trail.toText

/-- The outcome with a line of progress before all others. -/
def after (line : String) (o : Outcome) : Outcome := { o with progress := line ++ "\n" ++ o.progress }

end Outcome

/-- The name and the version of the program. -/
def versionText : String := "typewire 0.3.0"

/-- How to use the program. -/
def usage : String :=
  let flags := "Usage: typewire [-v] [--config FILE] "
  flags ++ "export [SCHEMA] [-o FILE] [--url URL] [--prelude FILE] [--check]\n" ++
    flags ++ "check [SCHEMA]\n" ++ flags ++ "init\n"

variable {m : Type → Type} [Monad m] (files : FileAccess m)

/-- Says whether the generated module is up to date. -/
def compareWith (s : Settings) (r : Report) : ExceptT CommandError m Outcome := do
  let output ← MonadExcept.ofExcept s.output
  if ← (r.isUpToDate files output : m Bool) then
    return .success "" (paint .green "✓" ++ " " ++ paint .bold output.text ++ " " ++
      paint .gray "is up to date" ++ "\n")
  else
    return ⟨1, "", paint .yellow "warning:" ++
      s!" {output.text} is stale; run `typewire export` to regenerate\n"⟩

/-- Writes the generated module to its file, or shows it if there is none. -/
def deliver (s : Settings) (r : Report) : ExceptT CommandError m Outcome := do
  match s.output? with
  | none => return .success r.text ""
  | some output => do
    r.write files output
    return .success "" (label "Wrote" ++ " " ++ output.text ++ " " ++ paint .gray r.summary ++ "\n" ++
      label "sha256" ++ " " ++ paint .cyan r.digest ++ "\n")

/-- The outcome of steps that may fail. -/
def settled (steps : ExceptT CommandError m Outcome) : m Outcome := do
  match ← steps.run with
  | .ok o => return o
  | .error e => return .ofError e

/-- Generates a client, or says whether the generated module is up to date. -/
def runExport (given config : Config) (check : Bool) : m Outcome := do
  match Settings.resolve given config with
  | .error e => return .ofError e
  | .ok s => do
    let outcome ← settled do
      let r ← Report.make files s
      if check then compareWith files s r else deliver files s r
    return outcome.after (label "Exporting" ++ " " ++ s.schema.text)

/-- Tells what would be generated. -/
def runCheck (given config : Config) : m Outcome := settled do
  let s ← MonadExcept.ofExcept (Settings.resolve given config)
  let r ← Report.make files s
  let lines := r.procedures.procedures.map fun p => label "Procedure" ++ " " ++ p.describe ++ "\n"
  return .success ("".intercalate lines ++ paint .green "✓" ++ " " ++ paint .bold s.schema.text ++
    " " ++ paint .gray r.summary ++ "\n") ""

/-- Makes a configuration in the working directory. -/
def runInit : m Outcome := settled do
  let name := Config.fileName
  if ← files.isThere name then throw (.config s!"{name.text} already exists, not overwriting")
  (files.write name Config.template).adapt fun e => .config s!"writing {name.text}: {e.message}"
  return .success (label "Created" ++ " " ++ name.text ++ "\n") ""

/-- The configuration of an invocation: the one it names, or the nearest one. -/
def configOf (i : Invocation) : ExceptT ConfigError m Config :=
  match i.config? with
  | some path => Config.load files path
  | none => do return (← Config.findHere files).getD .empty

/-- Runs an invocation. -/
def Invocation.run (i : Invocation) : m Outcome := do
  match ← (configOf files i).run with
  | .error e => return .failed e.message
  | .ok config =>
    match i.action with
    | .export given check => runExport files given config check
    | .check given => runCheck files given config
    | .init => runInit files

/-- Runs a command line. -/
def run (words : List String) : m Outcome :=
  match Invocation.ofWords words with
  | .ok i => i.run files
  | .error .version => return .success (versionText ++ "\n") ""
  | .error .help => return .success usage ""
  | .error .refused => return ⟨2, "", usage⟩

end RpcBridge.Command
