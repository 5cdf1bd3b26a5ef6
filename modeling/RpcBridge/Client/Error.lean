import RpcBridge.Descriptor.Shape
import RpcBridge.Files.Path

/-!
# Client/Error — why no client can be generated

The cause of an error is wrapped into the procedure and the fields on the way to it, outermost
first (`ExportError.context`); the error itself shows its outermost layer only.

A name that generated code uses as it is has to be an identifier: an ASCII letter, an underscore or
a dollar sign, followed by any number of these and of digits.
-/

namespace RpcBridge

namespace Client

/-- Why generated code has no use for a descriptor. -/
inductive Refusal where
  | obstacle (o : Obstacle)
  /-- A template that is not applied to arguments. -/
  | bareTemplate (name : String)
deriving DecidableEq

/-- The text of a refusal. -/
def Refusal.message : Refusal → String
  | .obstacle (.malformed e) => e.message
  | .obstacle (.freeParam name) =>
    s!"generic parameter '{name}' has no concrete type to marshal"
  | .obstacle (.foreign name) => s!"no handler can represent '{name}'"
  | .bareTemplate name =>
    s!"generic record '{name}' must be instantiated before it can be marshalled"

/-- Why no client can be generated. -/
inductive ExportError where
  | unsupported (d : Descriptor) (reason : Refusal)
  /-- Two declarations of one name that are not the same. -/
  | nameConflict (name existing incoming : String)
  | invalidName (name : String)
  | duplicateProcedure (name : String)
  | inProcedure (name : String) (e : ExportError)
  | inField (record field : String) (e : ExportError)
  | file (e : FileError)

namespace ExportError

/-- The text of an error; what is inside a procedure or a field is not told. -/
def message : ExportError → String
  | .unsupported d reason => s!"unsupported type `{d.toText}`: {reason.message}"
  | .nameConflict name existing incoming =>
    s!"conflicting declarations for '{name}': `{existing}` and `{incoming}`"
  | .invalidName name => s!"'{name}' is not a valid TypeScript identifier"
  | .duplicateProcedure name => s!"procedure name '{name}' is exported twice"
  | .inProcedure name _ => s!"in procedure '{name}'"
  | .inField record field _ => s!"in field '{record}.{field}'"
  | .file e => s!"I/O error: {e.message}"

/-- The innermost error. -/
def root : ExportError → ExportError
  | .inProcedure _ e => e.root
  | .inField _ _ e => e.root
  | e => e

/-- The procedure and the fields on the way to the innermost error. -/
def context : ExportError → List String
  | .inProcedure name e => name :: e.context
  | .inField record field e => s!"{record}.{field}" :: e.context
  | _ => []

/-- The descriptor that nothing can be generated for, if that is what went wrong. -/
def descriptor? (e : ExportError) : Option Descriptor :=
  match e.root with
  | .unsupported d _ => some d
  | _ => none

end ExportError

/-- Whether a character may start an identifier. -/
def startsIdentifier (c : Char) : Bool := c.isAlpha || c == '_' || c == '$'

/-- Whether a character may go on an identifier. -/
def continuesIdentifier (c : Char) : Bool := c.isAlphanum || c == '_' || c == '$'

/-- Whether a name is an identifier. -/
def isIdentifier (name : String) : Bool :=
  match name.toList with
  | [] => false
  | c :: rest => startsIdentifier c && rest.all continuesIdentifier

/-- Refuses a name that is no identifier. -/
def checkIdentifier (name : String) : Except ExportError Unit :=
  if isIdentifier name then .ok () else .error (.invalidName name)

end Client

end RpcBridge
