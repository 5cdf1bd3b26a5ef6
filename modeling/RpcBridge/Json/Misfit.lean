import RpcBridge.Json.Reader
import RpcBridge.Text.Quoted

/-!
# Json/Misfit — JSON that is well formed but not what was asked for

A misfit says what was found and what was expected.  Reading a typed value from a text can fail
for either reason, a fault of the text or a misfit: `ReadError` holds whichever stands first.
-/

namespace RpcBridge.Json

/-- What was found. -/
inductive Found where
  | null
  | bool (b : Bool)
  | number (n : JsonNumber)
  | text (s : String)
  | sequence
  | map

namespace Found

/-- What is found on looking at a value. -/
def ofJson : Json → Found
  | .null => .null
  | .bool b => .bool b
  | .number n => .number n
  | .string s => .text s
  | .array _ => .sequence
  | .object _ => .map

/-- How messages show what was found. -/
def message : Found → String
  | .null => "null"
  | .bool b => s!"boolean `{b}`"
  | .number (.whole n) => s!"integer `{n.val}`"
  | .number (.real x) => s!"floating point `{Number.Layout.json.finiteText x}`"
  | .text s => "string " ++ Text.quoted s
  | .sequence => "sequence"
  | .map => "map"

end Found

/-- Why a JSON value is not what was asked for. -/
inductive Misfit where
  /-- A value of another type. -/
  | wrongType (found : Found) (expected : String)
  /-- A value of the right type that is out of the question. -/
  | wrongValue (found : Found) (expected : String)
  /-- Too few or too many items. -/
  | wrongLength (length : Nat) (expected : String)
  | unknownVariant (name : String) (known : List String)
  | missingField (name : String)
  | duplicateField (name : String)
  /-- No alternative of an untagged type takes the value. -/
  | noAlternative (typeName : String)
  /-- The value breaks a rule of its own; the text says which. -/
  | rule (message : String)

namespace Misfit

/-- A value of another type. -/
def expected {α : Type} (what : String) (j : Json) : Except Misfit α :=
  .error (.wrongType (.ofJson j) what)

/-- A list of names to choose from. -/
def choices (names : List String) : String :=
  let quoted := names.map fun n => s!"`{n}`"
  match quoted with
  | [] => "there are no variants"
  | [a] => a
  | [a, b] => s!"{a} or {b}"
  | many => "one of " ++ ", ".intercalate many

/-- The text of a misfit. -/
def message : Misfit → String
  | .wrongType found expected => s!"invalid type: {found.message}, expected {expected}"
  | .wrongValue found expected => s!"invalid value: {found.message}, expected {expected}"
  | .wrongLength length expected => s!"invalid length {length}, expected {expected}"
  | .unknownVariant name known => s!"unknown variant `{name}`, expected {choices known}"
  | .missingField name => s!"missing field `{name}`"
  | .duplicateField name => s!"duplicate field `{name}`"
  | .noAlternative typeName => s!"data did not match any variant of untagged enum {typeName}"
  | .rule message => message

end Misfit

/-- Why a text cannot be read as a typed value. -/
inductive ReadError where
  | malformed (f : Fault)
  | misfit (m : Misfit)

namespace ReadError

/-- The text of the error, without its place. -/
def message : ReadError → String
  | .malformed f => f.cause.message
  | .misfit m => m.message

end ReadError

/-- A step that meets faults of the text only, as a step of typed reading. -/
def wellFormed {α : Type} : Except Fault α → Except ReadError α := Except.mapError .malformed

/-- A step that meets misfits only, as a step of typed reading. -/
def fitting {α : Type} : Except Misfit α → Except ReadError α := Except.mapError .misfit

/-- Reads a text as a typed value: `read` walks the draft and says what comes of it. -/
def readText {α : Type} (read : Draft → Except ReadError α) (text : String) :
    Except ReadError α := do
  let d := draft (Symbol.ofText text)
  let value ← read d.draft
  match trailing? d.rest? with
  | some f => .error (.malformed f)
  | none => .ok value

end RpcBridge.Json
