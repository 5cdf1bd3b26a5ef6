import RpcBridge.Procedure.Basic

/-!
# Procedure/Reading — procedures out of a text

A document of procedures is an object whose member `procedures` lists them, each an object with
`name`, `input` and `output`; arrays that hold the same parts in order do as well.  Members of
other names are skipped.  The document is made sense of while it is read, so that whatever is wrong
first in the order of the text is reported.
-/

namespace RpcBridge

open Json (Misfit Found Draft Fault Cut ReadError wellFormed fitting)

/-- The misfit of a draft of another type. -/
def misfitDraft {α : Type} (what : String) (d : Draft) : Except ReadError α := do
  let j ← wellFormed d.surface
  fitting (Misfit.expected what j)

/-- Opens one more level. -/
def openLevel (levels : Nat) (opening : Place) : Except ReadError Nat :=
  match levels with
  | 0 => .error (.malformed ⟨.nestingTooDeep, opening⟩)
  | inner + 1 => .ok inner

/-- Refuses a draft that could not be closed. -/
def closed (unclosed? : Option Cut) : Except ReadError Unit :=
  wellFormed (Json.finish unclosed? ())

/-- Refuses anything but a closing bracket behind the last item that is wanted. -/
def closedAfter (rest : List Draft) (unclosed? : Option Cut) : Except ReadError Unit :=
  match rest, unclosed? with
  | [], none => .ok ()
  | [], some c =>
    match c.read.cause with
    | .trailingComma | .endInArray => .error (.malformed c.read)
    | _ => .error (.malformed ⟨.trailingCharacters, c.read.place⟩)
  | _ :: _, _ => .error (.malformed (.atEnd .trailingCharacters))

/-- Passes over a member nobody asked for. -/
def passOver (d : Draft) : Except ReadError Unit :=
  match d.skip with
  | some f => .error (.malformed f)
  | none => .ok ()

/-- The text a draft holds. -/
def stringOfDraft (d : Draft) : Except ReadError String := do
  let j ← wellFormed d.surface
  fitting (readString j)

namespace Procedure

/-- The procedure a JSON value holds. -/
def ofJson (j : Json) : Except Misfit Procedure := do
  let title := "struct ProcedureInfo"
  (← partsOf title j).threeOuter title ⟨0, "name", readString⟩ ⟨1, "input", Descriptor.ofJson⟩
    ⟨2, "output", Descriptor.ofJson⟩ .mk

/-- The parts of a procedure that have been read. -/
structure Parts where
  name? : Option String
  input? : Option Descriptor
  output? : Option Descriptor

/-- A part that must not have been read before. -/
def once {α : Type} (name : String) (part? : Option α) (read : Except ReadError α) :
    Except ReadError (Option α) :=
  if part?.isSome then .error (.misfit (.duplicateField name))
  else read.map some

/-- Reads the members of a procedure. -/
def readMembers (levels : Nat) (parts : Parts) :
    List (Except Fault String × Draft) → Except ReadError Parts
  | [] => .ok parts
  | (key, d) :: rest => do
    let name ← wellFormed key
    let next ←
      if name = "name" then do
        let part ← once name parts.name? (stringOfDraft d)
        pure { parts with name? := part }
      else if name = "input" then do
        let part ← once name parts.input? (Descriptor.ofDraft levels d)
        pure { parts with input? := part }
      else if name = "output" then do
        let part ← once name parts.output? (Descriptor.ofDraft levels d)
        pure { parts with output? := part }
      else do
        passOver d
        pure parts
    readMembers levels next rest

/-- A part that has to be there. -/
def require {α : Type} (name : String) (part? : Option α) : Except ReadError α :=
  match part? with
  | some a => .ok a
  | none => .error (.misfit (.missingField name))

/-- The next item of an array that stands for a procedure. -/
def nextItem (index : Nat) (unclosed? : Option Cut) :
    List Draft → Except ReadError (Draft × List Draft)
  | d :: rest => .ok (d, rest)
  | [] => do
    closed unclosed?
    .error (.misfit (.wrongLength index "struct ProcedureInfo with 3 elements"))

/-- The procedure a draft holds. -/
def ofDraft (levels : Nat) : Draft → Except ReadError Procedure
  | .object opening members unclosed? => do
    let inner ← openLevel levels opening
    let parts ← readMembers inner ⟨none, none, none⟩ members
    closed unclosed?
    let name ← require "name" parts.name?
    let input ← require "input" parts.input?
    let output ← require "output" parts.output?
    return ⟨name, input, output⟩
  | .array opening items unclosed? => do
    let inner ← openLevel levels opening
    let (first, items) ← nextItem 0 unclosed? items
    let name ← stringOfDraft first
    let (second, items) ← nextItem 1 unclosed? items
    let input ← Descriptor.ofDraft inner second
    let (third, items) ← nextItem 2 unclosed? items
    let output ← Descriptor.ofDraft inner third
    closedAfter items unclosed?
    return ⟨name, input, output⟩
  | d => misfitDraft "struct ProcedureInfo" d

/-- The procedures a draft lists. -/
def listOfDraft (levels : Nat) : Draft → Except ReadError (List Procedure)
  | .array opening items unclosed? => do
    let inner ← openLevel levels opening
    let procedures ← items.mapM (ofDraft inner)
    closed unclosed?
    return procedures
  | d => misfitDraft "a sequence" d

end Procedure

namespace ProcedureSet

/-- Reads the members of a document; `listed?` holds the procedures if they have been read. -/
def readMembers (levels : Nat) (listed? : Option (List Procedure)) :
    List (Except Fault String × Draft) → Except ReadError (List Procedure)
  | [] => .ok (listed?.getD [])
  | (key, d) :: rest => do
    let name ← wellFormed key
    if name = "procedures" then
      let listed ← Procedure.once name listed? (Procedure.listOfDraft levels d)
      readMembers levels listed rest
    else
      passOver d
      readMembers levels listed? rest

/-- The procedures of the document a draft holds. -/
def listOfDraft (levels : Nat) : Draft → Except ReadError (List Procedure)
  | .object opening members unclosed? => do
    let inner ← openLevel levels opening
    let listed ← readMembers inner none members
    closed unclosed?
    return listed
  | .array opening items unclosed? => do
    let inner ← openLevel levels opening
    match items with
    | [] => do
      closed unclosed?
      return []
    | first :: rest => do
      let listed ← Procedure.listOfDraft inner first
      closedAfter rest unclosed?
      return listed
  | d => misfitDraft "struct RawProcedureSet" d

/-- The set of the document a draft holds. -/
def ofDraft (d : Draft) : Except ReadError ProcedureSet := do
  let listed ← listOfDraft Json.maxLevels d
  match ofList listed with
  | .ok s => .ok s
  | .error name => .error (.misfit (.rule (takenMessage name)))

/-- The set of the document a text holds. -/
def ofText : String → Except ReadError ProcedureSet := Json.readText ofDraft

end ProcedureSet

end RpcBridge
