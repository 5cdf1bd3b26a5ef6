import RpcBridge.Descriptor.Shape

/-!
# Wire/Error — why a value cannot cross the wire

An error is a cause together with the steps that lead from the whole value to the part that
failed.  Where the whole value stands is no part of the error: it is named only when the error is
shown (`WireError.path`).
-/

namespace RpcBridge

/-- A step from a value into one of its parts. -/
inductive Step where
  | member (name : String)
  | index (i : Nat)
  /-- The entry of a map, by the text of its key. -/
  | key (text : String)
deriving DecidableEq

namespace Step

/-- The text of a step. -/
def toText : Step → String
  | .member name => "." ++ name
  | .index i => s!"[{i}]"
  | .key text => s!"[{text}]"

end Step

/-- What went wrong. -/
inductive WireCause where
  | mismatch (expected found : String)
  /-- The key of a map travels as something that can be no member name. -/
  | keyNotScalar (found : String)
  | missing
  | invalidLiteral (kind input : String)
  | unsupported (d : Descriptor) (obstacle : Obstacle)

/-- What went wrong, and where. -/
structure WireError where
  steps : List Step
  cause : WireCause

namespace WireError

/-- An error of the whole value. -/
def here (cause : WireCause) : WireError := ⟨[], cause⟩

/-- An error of a part, as an error of the whole. -/
def within (step : Step) (e : WireError) : WireError := { e with steps := step :: e.steps }

/-- The path to the part that failed, from a name for the whole value on. -/
def path (root : String) (e : WireError) : String :=
  root ++ "".intercalate (e.steps.map Step.toText)

end WireError

/-- Why a service has no use for a descriptor. -/
def Obstacle.serviceReason : Obstacle → String
  | .malformed e => e.message
  | .freeParam _ => "generic parameter outside an instantiation"
  | .foreign _ => "no representation"

namespace WireCause

/-- The text of a cause. -/
def message : WireCause → String
  | .mismatch expected found => s!"expected {expected}, found {found}"
  | .keyNotScalar found => s!"expected scalar key, found {found}"
  | .missing => "field required"
  | .invalidLiteral kind input => s!"invalid {kind} '{input}'"
  | .unsupported d obstacle => s!"unsupported type {d.toText}: {obstacle.serviceReason}"

/-- The name of the class of a cause in an error detail. -/
def className : WireCause → String
  | .mismatch _ _ | .keyNotScalar _ => "type_mismatch"
  | .missing => "missing"
  | .invalidLiteral _ _ => "invalid_literal"
  | .unsupported _ _ => "unsupported"

end WireCause

namespace WireError

/-- The text of an error under a name for the whole value. -/
def message (root : String) (e : WireError) : String := s!"{e.path root}: {e.cause.message}"

/-- An error as a JSON object: the path cut at its dots, the message and the class. -/
def detail (root : String) (e : WireError) : Json :=
  .object [("loc", .array (((e.path root).splitOn ".").map .string)),
    ("msg", .string (e.message root)), ("type", .string e.cause.className)]

end WireError

/-- The outcome of carrying a value across the wire. -/
abbrev Wired (α : Type) := Except WireError α

namespace Wired

/-- A failure of the whole value. -/
def fail {α : Type} (cause : WireCause) : Wired α := .error (.here cause)

/-- A failure on finding something else. -/
def mismatch {α : Type} (expected found : String) : Wired α := fail (.mismatch expected found)

/-- The outcome for a part, as an outcome for the whole. -/
def within {α : Type} (step : Step) (w : Wired α) : Wired α := w.mapError (.within step)

/-- Carries the items of a list over one by one, counting from `start`. -/
def items {α β : Type} (item : α → Wired β) (start : Nat) : List α → Wired (List β)
  | [] => .ok []
  | a :: rest => do
    let b ← (item a).within (.index start)
    return b :: (← items item (start + 1) rest)

end Wired

end RpcBridge
