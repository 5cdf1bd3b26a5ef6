import RpcBridge.Client.Statement
import RpcBridge.Descriptor.Basic
import RpcBridge.Proofs.Json.Entries
import RpcBridge.Proofs.Wire.Outcome

/-!
# Proofs/Client/Memory — what generated statements do

The meaning of generated statements as a program of JavaScript.  An object is a reference: its
members stand in memory under an address, and whoever holds the address shares them.  A member
that is missing reads as undefined, a member of an absent value is a fault, and an assignment
writes the slot it names and nothing else.  The members of an array are named by their indices.

A date object is known by the text it was made of or turns into; the four conversions are defined
on texts and on dates of their own kind only.  What text an engine makes of a date that is used as
a key is left open (`Engine`).

* `Memory.spot` — the slot a place names;
* `Statement.run`, `runAll` — what statements do to a memory.
-/

namespace RpcBridge.Client

/-- What generated code leaves to the engine: the text of a date that is used as a key. -/
structure Engine where
  keyOfMoment : TemporalKind → String → String

/-- A value that is no object of members. -/
inductive Atom where
  | undefined
  | null
  | bool (b : Bool)
  | number (n : JsonNumber)
  | string (s : String)
  /-- A date object. -/
  | moment (kind : TemporalKind) (text : String)
deriving DecidableEq

namespace Atom

/-- Whether nothing is there. -/
def isAbsent : Atom → Bool
  | .undefined | .null => true
  | _ => false

end Atom

/-- What a slot holds. -/
inductive Held where
  | atom (a : Atom)
  | object (address : Nat)
deriving DecidableEq

namespace Held

/-- The text of a value that is used as a key. -/
def keyText (js : Engine) : Held → String
  | .atom .undefined => "undefined"
  | .atom .null => "null"
  | .atom (.bool b) => toString b
  | .atom (.number n) => n.toText
  | .atom (.string s) => s
  | .atom (.moment kind text) => js.keyOfMoment kind text
  | .object _ => "[object Object]"

end Held

/-- An object or an array: its members in the order in which they were entered. -/
structure Object where
  isArray : Bool
  members : List (String × Held)

/-- The object with a value entered under a key. -/
def Object.put (o : Object) (key : String) (h : Held) : Object :=
  { o with members := putEntry o.members key h }

/-- A variable of a generated function. -/
inductive Variable where
  | root (name : String)
  | temp (t : Temp)
deriving DecidableEq

/-- A slot: a variable, or a member of an object. -/
inductive Location where
  | var (x : Variable)
  | member (address : Nat) (key : String)
deriving DecidableEq

/-- The slot a place names; a value that has no members has none to write. -/
inductive Spot where
  | at (l : Location)
  | shut
deriving DecidableEq

/-- Why a run of generated code breaks off. -/
inductive Fault where
  /-- A member of undefined or null. -/
  | absentMember
  /-- An assignment to a member of a value that has no members. -/
  | sealedMember
  /-- A conversion of something it is not defined on. -/
  | notConvertible (c : Conversion)
deriving DecidableEq

/-- The variables and the objects of a run. -/
structure Memory where
  vars : Variable → Held
  objects : Nat → Object
  /-- The address of the next new object. -/
  next : Nat

namespace Memory

/-- What a slot holds, if it is there. -/
def content (μ : Memory) : Location → Option Held
  | .var x => some (μ.vars x)
  | .member a key => (μ.objects a).members.lookup key

/-- What a slot reads as. -/
def read (μ : Memory) (l : Location) : Held := (μ.content l).getD (.atom .undefined)

/-- The memory with a slot written, or left as it is. -/
def put (μ : Memory) : Location → Option Held → Memory
  | _, none => μ
  | .var x, some h => { μ with vars := fun y => if y = x then h else μ.vars y }
  | .member a key, some h =>
    { μ with objects := fun b => if b = a then (μ.objects a).put key h else μ.objects b }

/-- The memory with one more object, which is empty. -/
def alloc (μ : Memory) (isArray : Bool) : Memory :=
  { μ with
    objects := fun b => if b = μ.next then ⟨isArray, []⟩ else μ.objects b
    next := μ.next + 1 }

/-- The slot of a member of a value. -/
def memberOf : Held → String → Except Fault Spot
  | .object a, key => .ok (.at (.member a key))
  | .atom a, _ => if a.isAbsent then .error .absentMember else .ok .shut

/-- What a slot that is named reads as. -/
def readSpot (μ : Memory) : Spot → Held
  | .at l => μ.read l
  | .shut => .atom .undefined

/-- The slot a place names. -/
def spot (js : Engine) (μ : Memory) : Place → Except Fault Spot
  | .root name => .ok (.at (.var (.root name)))
  | .temp t => .ok (.at (.var (.temp t)))
  | .field p name => do memberOf (μ.readSpot (← μ.spot js p)) name
  | .item p i => do memberOf (μ.readSpot (← μ.spot js p)) (toString i)
  | .slot p t => do
    memberOf (μ.readSpot (← μ.spot js p)) ((μ.vars (.temp t)).keyText js)

/-- What a place reads as. -/
def value (js : Engine) (μ : Memory) (p : Place) : Except Fault Held := do
  return μ.readSpot (← μ.spot js p)

/-- Writes a slot that is named. -/
def store (μ : Memory) : Spot → Held → Except Fault Memory
  | .at l, h => .ok (μ.put l (some h))
  | .shut, _ => .error .sealedMember

/-- The keys of a value, in order. -/
def keys (μ : Memory) : Held → List String
  | .object a => (μ.objects a).members.map (·.1)
  | .atom _ => []

end Memory

/-- The result of a conversion: a decoder takes a text, an encoder a date of its kind. -/
def Conversion.run (c : Conversion) (h : Held) : Except Fault Held :=
  match c, h with
  | .dateFromText, .atom (.string s) => .ok (.atom (.moment .date s))
  | .instantFromText, .atom (.string s) => .ok (.atom (.moment .dateTime s))
  | .dateToText, .atom (.moment .date s) => .ok (.atom (.string s))
  | .instantToText, .atom (.moment .dateTime s) => .ok (.atom (.string s))
  | _, _ => .error (.notConvertible c)

/-- The value of an operand, and the memory with the object it may make. -/
def Operand.run (js : Engine) (μ : Memory) : Operand → Except Fault (Held × Memory)
  | .place p => do return (← μ.value js p, μ)
  | .emptyObject => .ok (.object μ.next, μ.alloc false)
  | .emptyArray => .ok (.object μ.next, μ.alloc true)
  | .converted c p => do return (← c.run (← μ.value js p), μ)

namespace Statement

mutual

/-- What a statement does to a memory. -/
def run (js : Engine) : Statement → Memory → Except Fault Memory
  | .assign target value, μ => do
    let spot ← μ.spot js target
    let (h, μ) ← value.run js μ
    μ.store spot h
  | .declare t, μ => .ok (μ.put (.var (.temp t)) (some (.atom .undefined)))
  | .forKeys t p body, μ => do
    (μ.keys (← μ.value js p)).foldlM
      (fun μ key => runAll js body (μ.put (.var (.temp t)) (some (.atom (.string key))))) μ
  | .unlessUndefined p body, μ => do
    if (← μ.value js p) = .atom .undefined then return μ else runAll js body μ
  | .unlessNull source target body, μ => do
    if (← μ.value js source) = .atom .null then
      μ.store (← μ.spot js target) (.atom .undefined)
    else runAll js body μ

/-- What statements do to a memory, one after the other. -/
def runAll (js : Engine) : List Statement → Memory → Except Fault Memory
  | [], μ => .ok μ
  | s :: rest, μ => do runAll js rest (← s.run js μ)

end

end Statement

end RpcBridge.Client
