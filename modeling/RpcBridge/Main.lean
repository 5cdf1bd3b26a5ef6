import RpcBridge.Command.Run

/-!
# Main — the program

The commands, on the files of a disk.
-/

namespace RpcBridge.Main

/-- The number of an error of the system; some operations report it negated. -/
def number (code : UInt32) : UInt32 := if code < 0x80000000 then code else 0 - code

/-- The reason behind an error of the system. -/
def reason : IO.Error → FileError
  | .noFileOrDirectory _ _ _ => .notFound
  | .alreadyExists _ _ _ => .exists
  | .inappropriateType _ code details =>
    if number code = 20 then .notDirectory
    else if number code = 21 then .isDirectory
    else .other details
  | .invalidArgument _ code details =>
    if number code = 36 then .nameTooLong else .other details
  | e => .other (toString e)

/-- A step on a disk. -/
def step {α : Type} (act : IO α) : ExceptT FileError IO α := do
  match ← (act.toBaseIO : BaseIO (Except IO.Error α)) with
  | .ok a => return a
  | .error e => throw (reason e)

/-- The text of a file on a disk. -/
def readText (p : Path) : ExceptT FileError IO String := do
  let bytes ← step (IO.FS.readBinFile p.text)
  match String.fromUTF8? bytes with
  | some text => return text
  | none => throw (.other "stream did not contain valid UTF-8")

/-- The operations on the files of a disk. -/
def disk : FileAccess IO :=
  .refusingNul
    { read := readText
      write := fun p text => step (IO.FS.writeFile p.text text)
      makeDirectory := fun p => step (IO.FS.createDir p.text)
      workingDirectory := do return ⟨toString (← step IO.currentDir)⟩ }

end RpcBridge.Main

/-- Runs a command line. -/
def main (words : List String) : IO UInt32 := do
  let outcome ← RpcBridge.Command.run RpcBridge.Main.disk words
  (← IO.getStderr).putStr outcome.progress
  (← IO.getStdout).putStr outcome.output
  return outcome.code.toUInt32
