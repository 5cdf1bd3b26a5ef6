import RpcBridge.Json.Draft

/-!
# Json/Reader — reading and skipping drafts

`Draft.read` takes the value out of a draft, or the first fault a reader meets; it goes at most
`maxLevels` arrays and objects deep.  `Draft.skip` passes over a value without wanting it.
`Json.parse` reads a whole text: one value, and nothing but blanks behind it.
-/

namespace RpcBridge.Json

/-- How deeply arrays and objects may nest. -/
def maxLevels : Nat := 127

/-- Goes on, unless a draft could not be closed. -/
def finish {α : Type} (unclosed? : Option Cut) (value : α) : Except Fault α :=
  match unclosed? with
  | some c => .error c.read
  | none => .ok value

mutual

/-- The value of a draft, repeated members included; `levels` more levels may be opened. -/
def Draft.read (levels : Nat) : Draft → Except Fault Json
  | .null => .ok .null
  | .bool b => .ok (.bool b)
  | .number n => n.map .number
  | .string s => s.map .string
  | .cut c => .error c.read
  | .array opening items unclosed? =>
    match levels with
    | 0 => .error ⟨.nestingTooDeep, opening⟩
    | inner + 1 => do finish unclosed? (.array (← readItems inner items))
  | .object opening members unclosed? =>
    match levels with
    | 0 => .error ⟨.nestingTooDeep, opening⟩
    | inner + 1 => do finish unclosed? (.object (← readMembers inner members))

/-- The values of the items. -/
def readItems (levels : Nat) : List Draft → Except Fault (List Json)
  | [] => .ok []
  | d :: rest => do
    let j ← d.read levels
    return j :: (← readItems levels rest)

/-- The names and values of the members. -/
def readMembers (levels : Nat) : List (Except Fault String × Draft) → Except Fault Members
  | [] => .ok []
  | (key, d) :: rest => do
    let name ← key
    let j ← d.read levels
    return (name, j) :: (← readMembers levels rest)

end

mutual

/-- The fault that a skipper of the value meets. -/
def Draft.skip : Draft → Option Fault
  | .cut c => some c.skip
  | .array _ items unclosed? => (skipItems items).or (unclosed?.map Cut.skip)
  | .object _ members unclosed? => (skipMembers members).or (unclosed?.map Cut.skip)
  | _ => none

/-- The first fault in the items. -/
def skipItems : List Draft → Option Fault
  | [] => none
  | d :: rest => d.skip.or (skipItems rest)

/-- The first fault in the members. -/
def skipMembers : List (Except Fault String × Draft) → Option Fault
  | [] => none
  | (_, d) :: rest => d.skip.or (skipMembers rest)

end

/-- What shows of a value before anything in its brackets is read: an array or object is taken to
be empty. -/
def Draft.surface : Draft → Except Fault Json
  | .null => .ok .null
  | .bool b => .ok (.bool b)
  | .number n => n.map .number
  | .string s => s.map .string
  | .cut c => .error c.read
  | .array _ _ _ => .ok (.array [])
  | .object _ _ _ => .ok (.object [])

/-- The fault of anything but blanks behind a value. -/
def trailing? (rest? : Option (List Symbol)) : Option Fault :=
  match rest?.map skipBlanks with
  | some (s :: rest) => some ⟨.trailingCharacters, .into (s :: rest)⟩
  | _ => none

/-- Reads a list of symbols as one JSON value. -/
def parseSymbols (text : List Symbol) : Except Fault Json := do
  let d := draft text
  let j ← d.draft.read maxLevels
  match trailing? d.rest? with
  | some f => .error f
  | none => .ok j.settle

/-- Reads a text as one JSON value. -/
def parse (text : String) : Except Fault Json := parseSymbols (Symbol.ofText text)

end RpcBridge.Json
