import RpcBridge.Toml.Scalar

/-!
# Toml/Reading — TOML documents out of a text

A document is read line by line (`lines?`); the lines then build its table.  Arrays may run over
several lines and hold comments, tables between braces may not.  Keys have fewer than eighty parts,
and values nest fewer than eighty levels deep.
-/

namespace RpcBridge.Toml

/-! ## Keys -/

/-- Whether a character may stand in a key without quotes. -/
def isKeyChar (c : Char) : Bool := c.isAlphanum || c = '_' || c = '-'

/-- Reads one part of a key. -/
def keyPart? (s : List Char) : Option (String × List Char) :=
  match s.span isKeyChar with
  | ([], _) => lineString? s
  | (name, rest) => some (String.ofList name, rest)

/-- Reads a key of at most `parts` parts, with the blanks around each one. -/
def keyParts? : Nat → List Char → Option (List String × List Char)
  | 0, _ => none
  | parts + 1, s => do
    let (name, rest) ← keyPart? (s.dropWhile isBlank)
    match rest.dropWhile isBlank with
    | '.' :: more => do
      let (names, rest) ← keyParts? parts more
      some (name :: names, rest)
    | rest => some ([name], rest)

/-- The most parts a key may have, and the most levels a value may nest. -/
def maxLevels : Nat := 79

/-- Reads a key. -/
def key? (s : List Char) : Option (Key × List Char) := do
  let (parts, rest) ← keyParts? maxLevels s
  let name ← parts.getLast?
  some (⟨parts.dropLast, name⟩, rest)

/-! ## Values -/

/-- Drops blanks, line ends and comments. -/
def skipFilling (inComment : Bool) : List Char → List Char
  | [] => []
  | '\r' :: '\n' :: rest => skipFilling false rest
  | c :: rest =>
    if c = '\n' then skipFilling false rest
    else if inComment then
      if isPlain c then skipFilling true rest else c :: rest
    else if c = '#' then skipFilling true rest
    else if isBlank c then skipFilling false rest
    else c :: rest

mutual

/-- Reads a value that nests at most `levels` levels deep; `fuel` is at least twice the number of
characters left, since a bracket takes two steps. -/
def value? : Nat → Nat → List Char → Option (Toml × List Char)
  | 0, _, _ => none
  | fuel + 1, levels, s =>
    match s, levels with
    | '[' :: _, 0 => none
    | '\x7b' :: _, 0 => none
    | '[' :: rest, inner + 1 => do
      let (items, rest) ← items? fuel inner (skipFilling false rest)
      some (.array false items, rest)
    | '\x7b' :: rest, inner + 1 => do
      let (assignments, rest) ←
        match rest.dropWhile isBlank with
        | '\x7d' :: after => some ([], after)
        | _ => assignments? fuel inner rest
      let table ← Table.ofInline? assignments
      some (table.toValue, rest)
    | '"' :: _, _ => (string? s).map fun r => (.string r.1, r.2)
    | '\x27' :: _, _ => (string? s).map fun r => (.string r.1, r.2)
    | _, _ => scalar? s

/-- Reads the items of an array up to and including its closing bracket. -/
def items? : Nat → Nat → List Char → Option (List Toml × List Char)
  | 0, _, _ => none
  | fuel + 1, levels, s =>
    match s with
    | ']' :: rest => some ([], rest)
    | _ => do
      let (value, rest) ← value? fuel levels s
      match skipFilling false rest with
      | ']' :: after => some ([value], after)
      | ',' :: more => do
        let (values, after) ← items? fuel levels (skipFilling false more)
        some (value :: values, after)
      | _ => none

/-- Reads the assignments of a table up to and including its closing brace. -/
def assignments? : Nat → Nat → List Char → Option (List (Key × Toml) × List Char)
  | 0, _, _ => none
  | fuel + 1, levels, s => do
    let (key, rest) ← key? s
    match rest with
    | '=' :: more => do
      let (value, rest) ← value? fuel levels (more.dropWhile isBlank)
      match rest.dropWhile isBlank with
      | '\x7d' :: after => some ([(key, value)], after)
      | ',' :: more => do
        let (others, after) ← assignments? fuel levels more
        some ((key, value) :: others, after)
      | _ => none
    | _ => none

end

/-! ## Documents -/

/-- What follows the end of a line, which blanks and a comment may precede. -/
def endOfLine? (s : List Char) : Option (List Char) :=
  let rest := match s.dropWhile isBlank with
    | '#' :: comment => comment.dropWhile isPlain
    | rest => rest
  if rest.isEmpty then some [] else lineEnd? rest

/-- Reads one line that says something. -/
def line? (s : List Char) : Option (Line × List Char) :=
  match s with
  | '[' :: '[' :: rest => do
    let (key, rest) ← key? rest
    match rest with
    | ']' :: ']' :: rest => some (.arrayHeader key, rest)
    | _ => none
  | '[' :: rest => do
    let (key, rest) ← key? rest
    match rest with
    | ']' :: rest => some (.header key, rest)
    | _ => none
  | _ => do
    let (key, rest) ← key? s
    match rest with
    | '=' :: more => do
      let (value, rest) ← value? (2 * more.length + 2) maxLevels (more.dropWhile isBlank)
      some (.assign key value, rest)
    | _ => none

/-- Reads the lines of a document; `fuel` is more than the number of characters. -/
def lines? : Nat → List Char → Option (List Line)
  | 0, _ => none
  | fuel + 1, s =>
    match s.dropWhile isBlank with
    | [] => some []
    | c :: rest =>
      if c = '#' || c = '\n' || c = '\r' then do
        let rest ← endOfLine? (c :: rest)
        lines? fuel rest
      else do
        let (line, rest) ← line? (c :: rest)
        let rest ← endOfLine? rest
        let others ← lines? fuel rest
        some (line :: others)

/-- The table a text holds, unless the text is no TOML document.  A byte order mark at the start
does not count. -/
def Table.ofText? (text : String) : Option Table := do
  let content := match text.toList with
    | '\ufeff' :: rest => rest
    | other => other
  Table.ofLines? (← lines? (content.length + 1) content)

end RpcBridge.Toml
