import RpcBridge.Files.Access

/-!
# Files/Tree — files held in memory

A tree of directories and files, and a working directory in it (`Site`).  A path is walked piece by
piece from the root or from the working directory; each step needs a directory to start from, `..`
leads to the directory that holds this one, and the root holds itself.  A path and the names in it
may only have so many bytes.
-/

namespace RpcBridge

/-- A file or a directory. -/
inductive Tree where
  | file (text : String)
  | directory (entries : List (String × Tree))

namespace Tree

/-- What a directory holds under a name. -/
def child? (name : String) : Tree → Option Tree
  | .file _ => none
  | .directory entries => entries.lookup name

/-- What is found at the end of a list of names. -/
def at? : List String → Tree → Option Tree
  | [], t => some t
  | name :: names, t => (t.child? name).bind (at? names)

/-- The tree with a subtree at the end of a list of names, whose directories have to be there. -/
def put : Tree → List String → Tree → Tree
  | _, [], subtree => subtree
  | .file text, _ :: _, _ => .file text
  | .directory entries, name :: names, subtree =>
    match entries.lookup name with
    | some t =>
      .directory (entries.map fun e => if e.1 == name then (name, t.put names subtree) else e)
    | none =>
      .directory (if names.isEmpty then entries ++ [(name, subtree)] else entries)

end Tree

/-- A tree, and the names that lead from its root to the working directory. -/
structure Site where
  root : Tree
  working : List String

namespace Site

/-- Refuses a name with too many bytes. -/
def checkName (name : String) : Except FileError Unit :=
  if Path.maxNameBytes < name.utf8ByteSize then .error .nameTooLong else .ok ()

/-- Refuses a path without any text, and one with too many bytes. -/
def checkPath (p : Path) : Except FileError Unit :=
  if p.text.isEmpty then .error .notFound
  else if Path.maxBytes < p.text.utf8ByteSize then .error .nameTooLong
  else .ok ()

/-- Whether there is a directory at the end of a list of names. -/
def directory (s : Site) (names : List String) : Except FileError Unit :=
  match s.root.at? names with
  | some (.directory _) => .ok ()
  | some (.file _) => .error .notDirectory
  | none => .error .notFound

/-- Walks along the pieces of a path; the answer leads from the root to where they end. -/
def walk (s : Site) (here : List String) : List String → Except FileError (List String)
  | [] => .ok here
  | piece :: rest => do
    s.directory here
    if Path.isIdle piece then walk s here rest
    else if piece = ".." then walk s here.dropLast rest
    else
      checkName piece
      if (s.root.at? (here ++ [piece])).isSome then walk s (here ++ [piece]) rest
      else .error .notFound

/-- Where the pieces of a path start. -/
def start (s : Site) (p : Path) : List String := if p.isAbsolute then [] else s.working

/-- The text of a file. -/
def read (s : Site) (p : Path) : Except FileError String := do
  checkPath p
  let place ← s.walk (s.start p) p.pieces
  match s.root.at? place with
  | some (.file text) => .ok text
  | some (.directory _) => .error .isDirectory
  | none => .error .notFound

/-- The directory that holds the end of a path, and the name there; no name if the path ends in a
piece that is none.  Slashes at the end do not count. -/
def holder (s : Site) (p : Path) : Except FileError (List String × Option String) := do
  checkPath p
  let start := s.start p
  match p.pieces.reverse.dropWhile (·.isEmpty) with
  | [] => return (start, none)
  | last :: before =>
    if last = "." || last = ".." then return (← s.walk start p.pieces, none)
    else
      let place ← s.walk start before.reverse
      s.directory place
      return (place, some last)

/-- The site with a file that holds a text.  A slash at the end asks for a directory. -/
def write (s : Site) (p : Path) (text : String) : Except FileError Site := do
  let (place, name?) ← s.holder p
  match name? with
  | none => .error .isDirectory
  | some name =>
    match s.root.at? (place ++ [name]) with
    | some (.directory _) => .error .isDirectory
    | _ =>
      if p.text.endsWith "/" then .error .isDirectory
      else do
        checkName name
        .ok { s with root := s.root.put (place ++ [name]) (.file text) }

/-- The site with one more directory. -/
def makeDirectory (s : Site) (p : Path) : Except FileError Site := do
  let (place, name?) ← s.holder p
  match name? with
  | none => .error .exists
  | some name =>
    checkName name
    if (s.root.at? (place ++ [name])).isSome then .error .exists
    else .ok { s with root := s.root.put (place ++ [name]) (.directory []) }

/-- A change of the site; a change that fails leaves it as it was. -/
def changing (change : Site → Except FileError Site) : ExceptT FileError (StateM Site) Unit := do
  set (← MonadExcept.ofExcept (change (← get)))

/-- The operations on the files of a site. -/
def access : FileAccess (StateM Site) :=
  .refusingNul
    { read := fun p => do MonadExcept.ofExcept ((← get).read p)
      write := fun p text => changing (·.write p text)
      makeDirectory := fun p => changing (·.makeDirectory p)
      workingDirectory := do return ⟨"/" ++ "/".intercalate (← get).working⟩ }

end Site

end RpcBridge
