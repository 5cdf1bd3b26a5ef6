/-!
# Files/Path — the text of a path, and why a file could not be used

A path is its text.  Slashes part it into pieces; a piece that is empty or a single dot says nothing
(`isIdle`), except for a dot that starts a relative path.  Joining and taking the parent keep the
text of the pieces as it is: nothing is looked up, and `..` is a piece like any other.
-/

namespace RpcBridge

/-- A path. -/
structure Path where
  text : String
deriving DecidableEq

namespace Path

/-- The path without any text. -/
def empty : Path := ⟨""⟩

/-- Whether the path starts at the root. -/
def isAbsolute (p : Path) : Bool := p.text.startsWith "/"

/-- Whether there is a NUL in the path. -/
def hasNul (p : Path) : Bool := p.text.contains '\x00'

/-- The number of bytes that a path may have. -/
def maxBytes : Nat := 4095

/-- The number of bytes that a name may have. -/
def maxNameBytes : Nat := 255

/-- What stands before, between and behind the slashes of a text. -/
def split (s : List Char) : List (List Char) :=
  match s with
  | [] => [[]]
  | c :: rest =>
    match split rest with
    | piece :: others => if c = '/' then [] :: piece :: others else (c :: piece) :: others
    | [] => [[c]]

/-- The pieces of a path. -/
def pieces (p : Path) : List String := (split p.text.toList).map String.ofList

/-- A path behind another one, unless it starts at the root. -/
def join (base p : Path) : Path :=
  if p.isAbsolute then p
  else if base.text.isEmpty || base.text.endsWith "/" then ⟨base.text ++ p.text⟩
  else ⟨base.text ++ "/" ++ p.text⟩

/-- Whether a piece says nothing. -/
def isIdle (piece : String) : Bool := piece.isEmpty || piece == "."

/-- Drops the pieces that say nothing from the end, given last piece first.  A dot that starts a
relative path stays. -/
def dropIdle (absolute : Bool) (reversed : List String) : List String :=
  match reversed with
  | [] => []
  | [piece] => if piece.isEmpty || (absolute && piece == ".") then [] else [piece]
  | piece :: others => if isIdle piece then dropIdle absolute others else piece :: others

/-- The path without its last piece, unless there is none but the root. -/
def parent? (p : Path) : Option Path :=
  let root := if p.isAbsolute then "/" else ""
  let body := if p.isAbsolute then p.pieces.drop 1 else p.pieces
  match dropIdle p.isAbsolute body.reverse with
  | [] => none
  | _ :: others =>
    some ⟨root ++ "/".intercalate (dropIdle p.isAbsolute others).reverse⟩

/-- The parents of a path, nearest first; `fuel` is at least the number of its pieces, and each
parent has fewer. -/
def parentsWithin : Nat → Path → List Path
  | 0, _ => []
  | fuel + 1, p =>
    match p.parent? with
    | none => []
    | some q => q :: parentsWithin fuel q

/-- A path and its parents, nearest first. -/
def ancestors (p : Path) : List Path := p :: parentsWithin p.pieces.length p

end Path

/-- Why a file could not be read or written. -/
inductive FileError where
  | notFound
  | exists
  | notDirectory
  | isDirectory
  | nameTooLong
  /-- A path with a NUL in it, which no file can have. -/
  | nulInPath
  /-- Any other reason, as the system words it. -/
  | other (message : String)
deriving DecidableEq

/-- The text of a file error. -/
def FileError.message : FileError → String
  | .notFound => "No such file or directory (os error 2)"
  | .exists => "File exists (os error 17)"
  | .notDirectory => "Not a directory (os error 20)"
  | .isDirectory => "Is a directory (os error 21)"
  | .nameTooLong => "File name too long (os error 36)"
  | .nulInPath => "file name contained an unexpected NUL byte"
  | .other message => message

/-- Whether an error means that there is nothing at a path; the others are about something there. -/
def FileError.isAbsence : FileError → Bool
  | .notFound | .notDirectory | .nameTooLong | .nulInPath => true
  | .exists | .isDirectory | .other _ => false

end RpcBridge
