import RpcBridge.Config.Basic
import RpcBridge.Files.Access

/-!
# Config/Search — where a configuration is found

A configuration has a fixed name.  It is looked for in a directory and then in one parent after the
other; the nearest one counts, even if it is wrong.
-/

namespace RpcBridge

/-- Why a configuration could not be had. -/
inductive ConfigError where
  | unreadable (path : Path) (e : FileError)
  /-- No TOML document, or one that says something else than it should. -/
  | invalid (path : Path)
  | workingDirectory (e : FileError)
deriving DecidableEq

/-- The text of the error. -/
def ConfigError.message : ConfigError → String
  | .unreadable path e => s!"cannot read '{path.text}': {e.message}"
  | .invalid path => s!"invalid toml in '{path.text}'"
  | .workingDirectory e => s!"cannot read current directory: {e.message}"

namespace Config

/-- The name of the file that holds a configuration. -/
def fileName : Path := ⟨"typewire.toml"⟩

variable {m : Type → Type} [Monad m] (files : FileAccess m)

/-- The configuration in a file, its paths taken from the directory of the file. -/
def load (path : Path) : ExceptT ConfigError m Config := do
  let text ← (files.read path).adapt (.unreadable path)
  match ofText? text with
  | none => throw (.invalid path)
  | some c => return c.relativeTo (path.parent?.getD .empty)

/-- The configuration in the first of some directories that has one, and its path. -/
def findAmong : List Path → ExceptT ConfigError m (Option (Path × Config))
  | [] => return none
  | directory :: others => do
    let candidate := directory.join fileName
    if ← files.isFile candidate then return some (candidate, ← load files candidate)
    else findAmong others

/-- The configuration nearest to a directory: in it or in one of its parents. -/
def find (start : Path) : ExceptT ConfigError m (Option (Path × Config)) :=
  findAmong files start.ancestors

/-- The configuration nearest to the working directory. -/
def findHere : ExceptT ConfigError m (Option Config) := do
  let directory ← files.workingDirectory.adapt .workingDirectory
  return (← find files directory).map (·.2)

end Config

end RpcBridge
