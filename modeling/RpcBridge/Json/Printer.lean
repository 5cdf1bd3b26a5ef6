import RpcBridge.Json.Basic

/-!
# Json/Printer — JSON values as text

Two printers: `Json.compact` writes no blanks at all, `Json.pretty` puts every item on a line of
its own, two blanks deeper per level, and an empty array or object on the line it starts.

In a string only the quote, the backslash and the control characters below the blank are escaped.
-/

namespace RpcBridge.Json

/-- The two-digit lower-case hexadecimal text of a small number. -/
def hexPair (n : Nat) : List Char := [Nat.digitChar (n / 16 % 16), Nat.digitChar (n % 16)]

/-- A character inside a JSON string. -/
def escapeChar (c : Char) : List Char :=
  if c = '"' then ['\\', '"']
  else if c = '\\' then ['\\', '\\']
  else if c = '\x08' then ['\\', 'b']
  else if c = '\t' then ['\\', 't']
  else if c = '\n' then ['\\', 'n']
  else if c = '\x0c' then ['\\', 'f']
  else if c = '\r' then ['\\', 'r']
  else if c.toNat < 0x20 then '\\' :: 'u' :: '0' :: '0' :: hexPair c.toNat
  else [c]

/-- A text as a JSON string. -/
def quote (s : String) : String := String.ofList ('"' :: s.toList.flatMap escapeChar ++ ['"'])

mutual

/-- The text of a value without blanks. -/
def compact : Json → String
  | .null => "null"
  | .bool true => "true"
  | .bool false => "false"
  | .number n => n.toText
  | .string s => quote s
  | .array items => "[" ++ ",".intercalate (compactItems items) ++ "]"
  | .object members => "\x7b" ++ ",".intercalate (compactMembers members) ++ "\x7d"

/-- The texts of the items. -/
def compactItems : List Json → List String
  | [] => []
  | j :: rest => j.compact :: compactItems rest

/-- The texts of the members. -/
def compactMembers : Members → List String
  | [] => []
  | (name, j) :: rest => (quote name ++ ":" ++ j.compact) :: compactMembers rest

end

/-- A line break followed by the indentation of a level. -/
def lineBreak (level : Nat) : String := "\n" ++ String.ofList (List.replicate (2 * level) ' ')

/-- Lines between two brackets, one level deeper than the brackets. -/
def bracketLines (level : Nat) (opening closing : String) (lines : List String) : String :=
  if lines.isEmpty then opening ++ closing
  else
    let inner := lineBreak (level + 1)
    opening ++ inner ++ ("," ++ inner).intercalate lines ++ lineBreak level ++ closing

mutual

/-- The text of a value that starts on a level. -/
def prettyAt (level : Nat) : Json → String
  | .array items => bracketLines level "[" "]" (prettyItems (level + 1) items)
  | .object members => bracketLines level "\x7b" "\x7d" (prettyMembers (level + 1) members)
  | other => other.compact

/-- The texts of the items of an array. -/
def prettyItems (level : Nat) : List Json → List String
  | [] => []
  | j :: rest => j.prettyAt level :: prettyItems level rest

/-- The texts of the members of an object. -/
def prettyMembers (level : Nat) : Members → List String
  | [] => []
  | (name, j) :: rest => (quote name ++ ": " ++ j.prettyAt level) :: prettyMembers level rest

end

/-- The text of a value on several lines. -/
def pretty (j : Json) : String := j.prettyAt 0

end RpcBridge.Json
