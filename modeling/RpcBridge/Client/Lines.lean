/-!
# Client/Lines — lines of generated code

Lines of code together with a mark that says whether they change how a value is represented.
Lines that only copy a value do not; whoever generates a loop around them may leave it out.
-/

namespace RpcBridge.Client

/-- Lines of code, and whether they convert anything. -/
structure Lines where
  lines : List String
  transforms : Bool
deriving DecidableEq

namespace Lines

/-- No lines. -/
def empty : Lines := ⟨[], false⟩

/-- A line that converts. -/
def transform (line : String) : Lines := ⟨[line], true⟩

/-- A line that does not convert by itself. -/
def line (line : String) : Lines := ⟨[line], false⟩

/-- A copy of one place to another; nothing if the two are the same. -/
def copy (source target : String) : Lines :=
  if source = target then empty else line (target ++ " = " ++ source)

/-- The lines followed by one more. -/
def push (l : Lines) (line : String) : Lines := { l with lines := l.lines ++ [line] }

/-- The lines followed by others. -/
def append (l m : Lines) : Lines := ⟨l.lines ++ m.lines, l.transforms || m.transforms⟩

/-- Lines one after the other. -/
def concat (blocks : List Lines) : Lines := blocks.foldl append empty

/-- The lines one level deeper. -/
def indent (l : Lines) : Lines := { l with lines := l.lines.map ("    " ++ ·) }

/-- The lines with the mark set. -/
def mark (l : Lines) : Lines := { l with transforms := true }

/-- The lines as a text, if they convert anything. -/
def joined? (l : Lines) : Option String :=
  if l.transforms then some ("\n".intercalate l.lines) else none

end Lines

end RpcBridge.Client
