/-!
# Toml/Quoted — TOML strings

A string stands between one or three quotes.  Between double quotes a backslash starts an escape,
between single quotes it is a character like any other; three quotes let the string run over
several lines, where one line break right behind the opening quotes does not count and up to two
quotes may stand anywhere, even right before the closing ones.
-/

namespace RpcBridge.Toml

/-- Whether a character is a blank: a space or a tab. -/
def isBlank (c : Char) : Bool := c = ' ' || c = '\t'

/-- Whether a character may stand in comments and strings: tabs and all that is no control
character. -/
def isPlain (c : Char) : Bool := c = '\t' || (0x20 ≤ c.toNat && c.toNat ≠ 0x7F)

/-- Drops the blanks and line ends at the start of a text. -/
def skipLines : List Char → List Char
  | '\r' :: '\n' :: rest => skipLines rest
  | c :: rest => if isBlank c || c = '\n' then skipLines rest else c :: rest
  | [] => []

/-- What follows the line end at the start of a text. -/
def lineEnd? : List Char → Option (List Char)
  | '\n' :: rest => some rest
  | '\r' :: '\n' :: rest => some rest
  | _ => none

/-- How a string is written. -/
structure Style where
  quote : Char
  escapes : Bool
  lines : Bool

/-- The value of a hexadecimal digit. -/
def hexDigit? (c : Char) : Option Nat :=
  if c.isDigit then some (c.toNat - '0'.toNat)
  else if 'a' ≤ c && c ≤ 'f' then some (c.toNat - 'a'.toNat + 10)
  else if 'A' ≤ c && c ≤ 'F' then some (c.toNat - 'A'.toNat + 10)
  else none

/-- The character whose code point is written by a number of hexadecimal digits. -/
def codePoint? (size : Nat) (s : List Char) : Option Char := do
  let digits ← (s.take size).mapM hexDigit?
  if digits.length < size then none
  else
    let n := digits.foldl (fun n d => 16 * n + d) 0
    if n.isValidChar then some (Char.ofNat n) else none

/-- Reads an escape behind its backslash: the characters it stands for, and how many characters it
takes.  A backslash at the end of a line stands for nothing, together with all blanks and line
ends that follow. -/
def escape? (lines : Bool) (s : List Char) : Option (List Char × Nat) :=
  let short (c : Char) : Option (List Char × Nat) := some ([c], 1)
  match s with
  | 'b' :: _ => short '\x08'
  | 't' :: _ => short '\t'
  | 'n' :: _ => short '\n'
  | 'f' :: _ => short '\x0c'
  | 'r' :: _ => short '\r'
  | '"' :: _ => short '"'
  | '\\' :: _ => short '\\'
  | 'u' :: rest => (codePoint? 4 rest).map fun c => ([c], 5)
  | 'U' :: rest => (codePoint? 8 rest).map fun c => ([c], 9)
  | _ =>
    if lines && (lineEnd? (s.dropWhile isBlank)).isSome then
      some ([], s.length - (skipLines s).length)
    else none

/-- Reads a string behind its opening quotes; the first `taken` characters belong to an escape.
`reversed` is what has been read, last character first. -/
def stringBody (style : Style) (reversed : List Char) :
    Nat → List Char → Option (String × List Char)
  | _, [] => none
  | taken + 1, _ :: rest => stringBody style reversed taken rest
  | 0, c :: rest =>
    if c = style.quote then
      if style.lines then
        let run := (rest.takeWhile (· = style.quote)).length + 1
        if run < 3 then stringBody style (c :: reversed) 0 rest
        else if run ≤ 5 then
          some (String.ofList (List.replicate (run - 3) c ++ reversed).reverse,
            rest.drop (run - 1))
        else none
      else some (String.ofList reversed.reverse, rest)
    else if c = '\\' && style.escapes then
      match escape? style.lines rest with
      | some (content, size) => stringBody style (content ++ reversed) size rest
      | none => none
    else if c = '\n' then
      if style.lines then stringBody style (c :: reversed) 0 rest else none
    else if c = '\r' then
      if style.lines && rest.head? = some '\n' then stringBody style reversed 0 rest else none
    else if isPlain c then stringBody style (c :: reversed) 0 rest
    else none

/-- Reads a string of several lines behind its opening quotes. -/
def longString (quote : Char) (escapes : Bool) (s : List Char) : Option (String × List Char) :=
  stringBody ⟨quote, escapes, true⟩ [] 0 ((lineEnd? s).getD s)

/-- Reads a string of one line behind its opening quote. -/
def shortString (quote : Char) (escapes : Bool) (s : List Char) : Option (String × List Char) :=
  stringBody ⟨quote, escapes, false⟩ [] 0 s

/-- Reads a string that runs over one line only. -/
def lineString? : List Char → Option (String × List Char)
  | '"' :: rest => shortString '"' true rest
  | '\x27' :: rest => shortString '\x27' false rest
  | _ => none

/-- Reads a string. -/
def string? : List Char → Option (String × List Char)
  | '"' :: '"' :: '"' :: rest => longString '"' true rest
  | '\x27' :: '\x27' :: '\x27' :: rest => longString '\x27' false rest
  | other => lineString? other

end RpcBridge.Toml
