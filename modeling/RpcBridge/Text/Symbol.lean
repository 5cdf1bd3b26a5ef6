/-!
# Text/Symbol — characters and stray bytes

A request body is a run of bytes that is meant to be UTF-8.  Here it becomes a list of symbols:
the characters it holds, and every byte that belongs to no character as a *stray byte* of its own.
A text has no stray bytes.

A place in a text is the list of symbols that are left to read.  `Place.coordinates` turns it into
a line and a column, both counted in bytes.
-/

namespace RpcBridge

/-- A character, or a byte that belongs to none. -/
inductive Symbol where
  | char (c : Char)
  | stray (b : UInt8)
deriving DecidableEq

namespace Symbol

/-- The number of bytes of a symbol. -/
def width : Symbol → Nat
  | .char c => c.utf8Size
  | .stray _ => 1

/-- The number of bytes of a list of symbols. -/
def totalWidth (s : List Symbol) : Nat := s.foldl (fun total symbol => total + symbol.width) 0

/-- The symbols of a text. -/
def ofText (s : String) : List Symbol := s.toList.map .char

/-- The payload of a byte that continues a character. -/
def continuation? (b : UInt8) : Option Nat :=
  if 0x80 ≤ b.toNat && b.toNat < 0xC0 then some (b.toNat - 0x80) else none

/-- The character of a code point, if it lies from `least` on and is no surrogate. -/
def codePoint? (least n : Nat) : Option Char :=
  if h : n.isValidChar then if least ≤ n then some (Char.ofNatAux n h) else none else none

/-- The first character of a run of bytes and the number of bytes it takes, if the run starts with
a character. -/
def first? : List UInt8 → Option (Char × Nat)
  | [] => none
  | a :: rest =>
    let lead := a.toNat
    let next? (n : Nat) : Option Nat := rest[n]?.bind continuation?
    if lead < 0x80 then some (Char.ofNat lead, 1)
    else if lead < 0xC0 then none
    else if lead < 0xE0 then do
      let x ← next? 0
      let c ← codePoint? 0x80 ((lead - 0xC0) * 64 + x)
      some (c, 2)
    else if lead < 0xF0 then do
      let x ← next? 0
      let y ← next? 1
      let c ← codePoint? 0x800 (((lead - 0xE0) * 64 + x) * 64 + y)
      some (c, 3)
    else if lead < 0xF8 then do
      let x ← next? 0
      let y ← next? 1
      let z ← next? 2
      let c ← codePoint? 0x10000 ((((lead - 0xF0) * 64 + x) * 64 + y) * 64 + z)
      some (c, 4)
    else none

/-- The symbols of a run of bytes whose first `taken` bytes belong to an earlier symbol. -/
def ofBytesFrom : Nat → List UInt8 → List Symbol
  | _, [] => []
  | taken + 1, _ :: rest => ofBytesFrom taken rest
  | 0, b :: rest =>
    match first? (b :: rest) with
    | some (c, size) => .char c :: ofBytesFrom (size - 1) rest
    | none => .stray b :: ofBytesFrom 0 rest

/-- The symbols of a run of bytes. -/
def ofBytes (bytes : List UInt8) : List Symbol := ofBytesFrom 0 bytes

end Symbol

/-- A place in a text: what is left to read there, and how many bytes beyond it count as read; a
negative number takes back bytes that have been read. -/
structure Place where
  rest : List Symbol
  beyond : Int
deriving DecidableEq

namespace Place

/-- The place before a rest. -/
def before (rest : List Symbol) : Place := ⟨rest, 0⟩

/-- The place one byte into a rest: the offending byte counts as read. -/
def into (rest : List Symbol) : Place := ⟨rest, 1⟩

/-- The place some bytes in front of a rest. -/
def back (bytes : Nat) (rest : List Symbol) : Place := ⟨rest, -bytes⟩

/-- Line and column after some bytes of a list of symbols, starting from a line and a column. -/
def walk (line column : Nat) : Nat → List Symbol → Nat × Nat
  | _, [] => (line, column)
  | bytes, s :: rest =>
    if bytes = 0 then (line, column)
    else if bytes < s.width then (line, column + bytes)
    else if s = .char '\n' then walk (line + 1) 0 (bytes - 1) rest
    else walk line (column + s.width) (bytes - s.width) rest

/-- The line, counted from one, and the column of a place in a text: the number of bytes of the
line up to it. -/
def coordinates (text : List Symbol) (place : Place) : Nat × Nat :=
  let bytes : Int := Symbol.totalWidth text - Symbol.totalWidth place.rest + place.beyond
  walk 1 0 bytes.toNat text

end Place

end RpcBridge
