import RpcBridge.Client.Table
import RpcBridge.Json.Printer

/-!
# Client/TypeExpr — types of generated code

The type expression of a descriptor, and the declarations it needs.  A record is declared once as
an interface and referred to by its name; a transparent record is its field's type; a template is
declared once, with its parameters, for all its applications.

Resolving a type registers declarations as it goes; what has been registered before a failure
stays.
-/

namespace RpcBridge.Client

/-- A type expression. -/
inductive TypeExpr where
  | word (text : String)
  /-- An enum or an interface without parameters. -/
  | named (name : String)
  | param (name : String)
  | applied (name : String) (args : List TypeExpr)
  | array (element : TypeExpr)
  | tuple (items : List TypeExpr)
  | dictionary (key value : TypeExpr)
  | orUndefined (inner : TypeExpr)
  | union (members : List TypeExpr)
deriving Inhabited

namespace TypeExpr

mutual

/-- The text of a type expression. -/
def toText : TypeExpr → String
  | .word text => text
  | .named name => name
  | .param name => name
  | .applied name args => name ++ "<" ++ ", ".intercalate (texts args) ++ ">"
  | .array element => "Array<" ++ element.toText ++ ">"
  | .tuple items => "[" ++ ", ".intercalate (texts items) ++ "]"
  | .dictionary key value =>
    "\x7b [k: " ++ key.toText ++ "]: " ++ value.toText ++ " \x7d"
  | .orUndefined inner => inner.toText ++ " | undefined"
  | .union members => " | ".intercalate (texts members)

/-- The texts of a list of type expressions. -/
def texts : List TypeExpr → List String
  | [] => []
  | e :: rest => e.toText :: texts rest

end

/-- The type of a scalar. -/
def ofScalar : ScalarKind → TypeExpr
  | .string => .word "string"
  | .bool => .word "boolean"
  | .int | .float => .word "number"
  | .any => .word "any"
  | .anyList => .word "Array<any>"
  | .none => .word "undefined"

end TypeExpr

/-- Entries in braces, as a declaration has them. -/
def braced (entries : List String) : String :=
  "\x7b" ++ ", ".intercalate entries ++ "\x7d"

/-- The body of an enum. -/
def enumBody (e : EnumDef) : String :=
  braced (e.members.map fun m => s!"{m.name} = {m.value.toText}")

/-- The body of an interface. -/
def interfaceBody (fields : List (String × TypeExpr)) : String :=
  braced (fields.map fun f => s!"{f.1}: {f.2.toText}")

/-- A step that may register declarations and may fail. -/
abbrev Declaring (α : Type) := ExceptT ExportError (StateM Declarations) α

namespace Declaring

/-- Fails. -/
def fail {α : Type} (e : ExportError) : Declaring α := fun s => (.error e, s)

/-- A step that registers nothing. -/
def lift {α : Type} (r : Except ExportError α) : Declaring α := fun s => (r, s)

/-- A step whose error is wrapped into a field. -/
def inField {α : Type} (record field : String) (step : Declaring α) : Declaring α := fun s =>
  let (r, after) := step s
  (r.mapError (.inField record field), after)

/-- Registers an interface. -/
def declareInterface (name body : String) : Declaring Unit := fun s =>
  match s.interfaces.register name body with
  | .ok table => (.ok (), { s with interfaces := table })
  | .error e => (.error e, s)

/-- Registers an enum. -/
def declareEnum (name body : String) : Declaring Unit := fun s =>
  match s.enums.register name body with
  | .ok table => (.ok (), { s with enums := table })
  | .error e => (.error e, s)

end Declaring

/-- What malformed descriptors make of a type. -/
def refuse {α : Type} (d : Descriptor) (e : DescriptorError) : Declaring α :=
  Declaring.fail (.unsupported d (.obstacle (.malformed e)))

/-- Declares an enum. -/
def declareEnumOf (e : EnumDef) : Declaring TypeExpr := do
  Declaring.lift (checkIdentifier e.name)
  for m in e.members do
    Declaring.inField e.name m.name (Declaring.lift (checkIdentifier m.name))
  Declaring.declareEnum e.name (enumBody e)
  return .named e.name

mutual

/-- The type expression of a descriptor. -/
def resolveType : Descriptor → Declaring TypeExpr
  | .scalar kind => return .ofScalar kind
  | .temporal _ => return .word "Date"
  | .list element => do return .array (← resolveType element)
  | .variadic items =>
    match items with
    | [item] => do return .array (← resolveType item)
    | _ => refuse (.variadic items) (.itemTypes items.length)
  | .tuple items => do return .tuple (← resolveTypes items)
  | .mapping key value => do return .dictionary (← resolveType key) (← resolveType value)
  | .enum e => declareEnumOf e
  | .optional inner => do return .orUndefined (← resolveType inner)
  | .union members =>
    match Descriptor.optionalMember members with
    | .error e => refuse (.union members) e
    | .ok _ => do return .union (← resolveTypes members)
  | .param name => do
    Declaring.lift (checkIdentifier name)
    return .param name
  | .application origin args =>
    match origin.instantiate args with
    | .error e => refuse (.application origin args) e
    | .ok i => do
      let declared ← resolveType origin
      if origin.templateName?.isSome then return .applied i.name (← resolveTypes args)
      else return declared
  | .record name fields transparent =>
    if transparent then
      match fields with
      | [(field, d)] => Declaring.inField name field (resolveType d)
      | _ => refuse (.record name fields true) (.wrappedFields name fields.length)
    else do
      Declaring.lift (checkIdentifier name)
      let resolved ← resolveFields name fields
      Declaring.declareInterface name (interfaceBody resolved)
      return .named name
  | .template name params fields => do
    Declaring.lift (checkIdentifier name)
    for p in params do
      Declaring.lift (checkIdentifier p)
    let resolved ← resolveFields name fields
    Declaring.declareInterface (Descriptor.declaredName name params) (interfaceBody resolved)
    return .applied name (params.map .param)
  | .foreign name => Declaring.fail (.unsupported (.foreign name) (.obstacle (.foreign name)))

/-- The type expressions of a list of descriptors. -/
def resolveTypes : List Descriptor → Declaring (List TypeExpr)
  | [] => return []
  | d :: rest => do
    let e ← resolveType d
    return e :: (← resolveTypes rest)

/-- The type expressions of the fields of a record. -/
def resolveFields (record : String) : List Field → Declaring (List (String × TypeExpr))
  | [] => return []
  | (name, d) :: rest => do
    Declaring.inField record name (Declaring.lift (checkIdentifier name))
    let e ← Declaring.inField record name (resolveType d)
    return (name, e) :: (← resolveFields record rest)

end

end RpcBridge.Client
