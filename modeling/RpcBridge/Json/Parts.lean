import RpcBridge.Json.Misfit

/-!
# Json/Parts — values made of named parts

A value of several parts is an object whose members are the parts, or an array that holds them in
their order.  Members that are not asked for are passed over.  What is wrong is reported in the
order of the text: the first part that does not fit, or a repeated part; then the first part that
is missing, and last what is too much.
-/

namespace RpcBridge

open Json (Misfit)

/-- The parts of a node: by name, or by position. -/
inductive Parts (α : Type) where
  | named (members : List (String × α))
  | placed (items : List α)

namespace Parts

/-- The first misfit of the named parts in the order of the text: a part read before `seen` must
not come again, and a known part has to fit its check. -/
def checkNamed {α : Type} (checks : List (String × (α → Except Misfit Unit)))
    (seen : List String) : List (String × α) → Except Misfit Unit
  | [] => .ok ()
  | (name, a) :: rest =>
    match checks.lookup name with
    | none => checkNamed checks seen rest
    | some check =>
      if seen.contains name then .error (.duplicateField name)
      else do
        check a
        checkNamed checks (name :: seen) rest

/-- A part of a node and how it is read. -/
structure Part (α β : Type) where
  index : Nat
  name : String
  read : α → Except Misfit β

/-- The check that a part can be read. -/
def Part.check {α β : Type} (p : Part α β) : String × (α → Except Misfit Unit) :=
  (p.name, fun a => (p.read a).map fun _ => ())

/-- How many parts a node has. -/
def countText (count : Nat) : String :=
  if count = 1 then "1 element" else s!"{count} elements"

/-- Reads a part that has to be there; `title` names the node and `count` its number of parts. -/
def get {α β : Type} (parts : Parts α) (title : String) (count : Nat) (p : Part α β) :
    Except Misfit β :=
  match parts with
  | .named members =>
    match members.lookup p.name with
    | some a => p.read a
    | none => .error (.missingField p.name)
  | .placed items =>
    match items[p.index]? with
    | some a => p.read a
    | none => .error (.wrongLength p.index s!"{title} with {countText count}")

/-- Reads a part that may be missing. -/
def getOr {α β : Type} (parts : Parts α) (default : β) (p : Part α β) : Except Misfit β :=
  match parts with
  | .named members => (members.lookup p.name).elim (.ok default) p.read
  | .placed items => (items[p.index]?).elim (.ok default) p.read

/-- Refuses what the checks do not allow among named parts. -/
def start {α : Type} (parts : Parts α) (checks : List (String × (α → Except Misfit Unit))) :
    Except Misfit Unit :=
  match parts with
  | .named members => checkNamed checks [] members
  | .placed _ => .ok ()

/-- Refuses placed parts beyond the last one; `expected` is what the misfit says. -/
def stopWith {α : Type} (parts : Parts α) (count : Nat) (expected : String) :
    Except Misfit Unit :=
  match parts with
  | .named _ => .ok ()
  | .placed items =>
    if count < items.length then .error (.wrongLength items.length expected) else .ok ()

/-- Refuses placed parts beyond the last one, inside another node. -/
def stop {α : Type} (parts : Parts α) (count : Nat) : Except Misfit Unit :=
  parts.stopWith count s!"{countText count} in sequence"

/-- Refuses placed parts beyond the last one of an outermost node. -/
def stopOuter {α : Type} (parts : Parts α) (count : Nat) : Except Misfit Unit :=
  parts.stopWith count "fewer elements in array"

/-- Reads a node with one part. -/
def one {α β γ : Type} (parts : Parts α) (title : String) (p : Part α β) (make : β → γ) :
    Except Misfit γ := do
  parts.start [p.check]
  let b ← parts.get title 1 p
  parts.stop 1
  return make b

/-- Reads a node with two parts. -/
def two {α β β' γ : Type} (parts : Parts α) (title : String) (p : Part α β) (q : Part α β')
    (make : β → β' → γ) : Except Misfit γ := do
  parts.start [p.check, q.check]
  let b ← parts.get title 2 p
  let c ← parts.get title 2 q
  parts.stop 2
  return make b c

/-- Reads an outermost node with three parts. -/
def threeOuter {α β β' β'' γ : Type} (parts : Parts α) (title : String) (p : Part α β)
    (q : Part α β') (r : Part α β'') (make : β → β' → β'' → γ) : Except Misfit γ := do
  parts.start [p.check, q.check, r.check]
  let b ← parts.get title 3 p
  let c ← parts.get title 3 q
  let d ← parts.get title 3 r
  parts.stopOuter 3
  return make b c d

end Parts

/-! ## Leaves -/

/-- A text. -/
def readString : Json → Except Misfit String
  | .string s => .ok s
  | j => Misfit.expected "a string" j

/-- A truth value. -/
def readBool : Json → Except Misfit Bool
  | .bool b => .ok b
  | j => Misfit.expected "a boolean" j

/-- A list whose items are read one after the other. -/
def readList {β : Type} (item : Json → Except Misfit β) : Json → Except Misfit (List β)
  | .array items => items.mapM item
  | j => Misfit.expected "a sequence" j

/-- The parts of a value without a kind; `title` names what is expected. -/
def partsOf (title : String) : Json → Except Misfit (Parts Json)
  | .object members => .ok (.named members)
  | .array items => .ok (.placed items)
  | j => Misfit.expected title j

end RpcBridge
