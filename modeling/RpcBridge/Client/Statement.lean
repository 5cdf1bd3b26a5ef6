import RpcBridge.Client.Lines

/-!
# Client/Statement — generated statements

The few statements that conversions consist of: assignments, declarations of temporaries, loops
over the keys of a place, and two guards for absent values.  `Statement.print` writes a statement
with every assignment, declaration, block header and closing brace on a line of its own, and a
block one level deeper than the statement it belongs to.
-/

namespace RpcBridge.Client

/-- A temporary variable: a letter and a number that no other temporary has. -/
structure Temp where
  letter : String
  number : Nat
deriving DecidableEq

/-- The name of a temporary. -/
def Temp.name (t : Temp) : String := t.letter ++ toString t.number

/-- A place that holds a value. -/
inductive Place where
  /-- A variable of the surrounding function. -/
  | root (name : String)
  | temp (t : Temp)
  | field (p : Place) (name : String)
  | item (p : Place) (i : Nat)
  /-- The slot whose key or index a temporary holds. -/
  | slot (p : Place) (t : Temp)
deriving DecidableEq

namespace Place

/-- The text of a place. -/
def toText : Place → String
  | .root name => name
  | .temp t => t.name
  | .field p name => p.toText ++ "." ++ name
  | .item p i => p.toText ++ "[" ++ toString i ++ "]"
  | .slot p t => p.toText ++ "[" ++ t.name ++ "]"

end Place

/-- How a date or an instant changes between memory and wire. -/
inductive Conversion where
  | dateToText
  | dateFromText
  | instantToText
  | instantFromText
deriving DecidableEq

/-- The text of a converted value. -/
def Conversion.apply (source : String) : Conversion → String
  | .dateToText => "dateToStr(" ++ source ++ ")"
  | .dateFromText => "strToDate(" ++ source ++ ")"
  | .instantToText => source ++ ".toISOString()"
  | .instantFromText => "new Date(" ++ source ++ ")"

/-- What is assigned. -/
inductive Operand where
  | place (p : Place)
  | emptyObject
  | emptyArray
  | converted (c : Conversion) (p : Place)
deriving DecidableEq

/-- The text of an operand. -/
def Operand.toText : Operand → String
  | .place p => p.toText
  | .emptyObject => "\x7b\x7d"
  | .emptyArray => "[]"
  | .converted c p => c.apply p.toText

/-- A generated statement. -/
inductive Statement where
  | assign (target : Place) (value : Operand)
  | declare (t : Temp)
  /-- Runs a block for every key of a place. -/
  | forKeys (t : Temp) (p : Place) (body : List Statement)
  /-- Runs a block unless a place is undefined. -/
  | unlessUndefined (p : Place) (body : List Statement)
  /-- Makes the target undefined if the source is null, and runs a block otherwise. -/
  | unlessNull (source target : Place) (body : List Statement)

namespace Statement

/-- Lines one level deeper. -/
def deeper (lines : List String) : List String := lines.map ("    " ++ ·)

mutual

/-- The lines of a statement. -/
def print : Statement → List String
  | .assign target value => [target.toText ++ " = " ++ value.toText]
  | .declare t => ["let " ++ t.name ++ ": any;"]
  | .forKeys t p body =>
    ("for (var " ++ t.name ++ " in " ++ p.toText ++ ") \x7b") :: deeper (printAll body) ++ ["\x7d"]
  | .unlessUndefined p body =>
    ("if (" ++ p.toText ++ " !== undefined) \x7b") :: deeper (printAll body) ++ ["\x7d"]
  | .unlessNull source target body =>
    ("if (" ++ source.toText ++ " === null) \x7b " ++ target.toText ++
      " = undefined; \x7d else \x7b") :: deeper (printAll body) ++ ["\x7d"]

/-- The lines of statements one after the other. -/
def printAll : List Statement → List String
  | [] => []
  | s :: rest => s.print ++ printAll rest

end

end Statement

/-- Statements, and whether they convert anything. -/
structure Code where
  body : List Statement
  transforms : Bool

namespace Code

/-- No statements. -/
def empty : Code := ⟨[], false⟩

/-- A copy of one place to another; nothing if the two have the same text. -/
def copy (source target : Place) : Code :=
  if source.toText = target.toText then empty
  else ⟨[.assign target (.place source)], false⟩

/-- Statements one after the other. -/
def append (a b : Code) : Code := ⟨a.body ++ b.body, a.transforms || b.transforms⟩

/-- The lines of the statements. -/
def lines (c : Code) : Lines := ⟨Statement.printAll c.body, c.transforms⟩

end Code

end RpcBridge.Client
