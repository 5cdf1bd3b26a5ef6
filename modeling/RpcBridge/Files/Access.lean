import RpcBridge.Files.Path

/-!
# Files/Access — what a program may do with files

Programs that use files are written over four operations (`FileAccess`), so that they run on a
tree of files held in memory as well as on a disk.  What else they need follows from these four.
-/

namespace RpcBridge

/-- The operations on files, as steps of `m`. -/
structure FileAccess (m : Type → Type) where
  /-- The text of a file. -/
  read : Path → ExceptT FileError m String
  /-- Gives a file a text; the file is made if it is not there. -/
  write : Path → String → ExceptT FileError m Unit
  /-- Makes a directory. -/
  makeDirectory : Path → ExceptT FileError m Unit
  /-- The directory that relative paths start from. -/
  workingDirectory : ExceptT FileError m Path

/-- Refuses a path that is none: one with a NUL in it. -/
def Path.checkNul (p : Path) : Except FileError Unit :=
  if p.hasNul then .error .nulInPath else .ok ()

namespace FileAccess

variable {m : Type → Type} [Monad m] (files : FileAccess m)

/-- The same operations; a path with a NUL in it is refused before anything is looked up. -/
def refusingNul : FileAccess m where
  read p := do
    MonadExcept.ofExcept p.checkNul
    files.read p
  write p text := do
    MonadExcept.ofExcept p.checkNul
    files.write p text
  makeDirectory p := do
    MonadExcept.ofExcept p.checkNul
    files.makeDirectory p
  workingDirectory := files.workingDirectory

/-- Whether there is a file at a path; a file that cannot be read is one nevertheless. -/
def isFile (p : Path) : m Bool := do
  match ← (files.read p).run with
  | .ok _ | .error (.other _) => return true
  | .error _ => return false

/-- Whether there is a directory at a path. -/
def isDirectory (p : Path) : m Bool := do
  match ← (files.read p).run with
  | .error .isDirectory => return true
  | _ => return false

/-- Whether there is anything at a path. -/
def isThere (p : Path) : m Bool := do
  match ← (files.read p).run with
  | .error e => return !e.isAbsence
  | .ok _ => return true

/-- Goes on after a directory could not be made, if it is there already. -/
def unlessDirectory (p : Path) (e : FileError) : ExceptT FileError m Unit := do
  if ← files.isDirectory p then return () else throw e

/-- Makes the first directory of a list, unless it is there already; if it has no place to go, the
others, which are its parents from the nearest on, are made before it. -/
def ensureDirectories : List Path → ExceptT FileError m Unit
  | [] => return ()
  | p :: parents =>
    if p.text.isEmpty then return ()
    else tryCatch (files.makeDirectory p) fun
      | .notFound => do
        ensureDirectories parents
        tryCatch (files.makeDirectory p) (files.unlessDirectory p)
      | e => files.unlessDirectory p e

/-- Gives a file a text; the directories on the way are made. -/
def writeWithParents (p : Path) (text : String) : ExceptT FileError m Unit := do
  files.ensureDirectories (p.ancestors.drop 1)
  files.write p text

end FileAccess

end RpcBridge
