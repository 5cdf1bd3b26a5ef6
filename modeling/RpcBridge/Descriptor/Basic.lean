import RpcBridge.Json.Printer

/-!
# Descriptor/Basic — type descriptors

A descriptor is one node of the schema of a procedure's input or output.  The vocabulary is closed.
Two kinds of node exist only so that what is refused can be written down: a union, which means
something only when it is an optional type in disguise, and a foreign type, which nothing can
represent.
-/

namespace RpcBridge

/-- The scalar types. -/
inductive ScalarKind where
  | string
  | bool
  | int
  | float
  /-- An untyped value. -/
  | any
  /-- An untyped array. -/
  | anyList
  /-- The absent value. -/
  | none
deriving DecidableEq

namespace ScalarKind

/-- Every scalar type, in the order in which they are listed. -/
def all : List ScalarKind := [.string, .bool, .int, .float, .any, .anyList, .none]

/-- The name of a scalar type. -/
def name : ScalarKind → String
  | .string => "string"
  | .bool => "bool"
  | .int => "int"
  | .float => "float"
  | .any => "any"
  | .anyList => "any_list"
  | .none => "none"

/-- The scalar type of a name. -/
def ofName? (s : String) : Option ScalarKind := all.find? (·.name = s)

end ScalarKind

/-- The types of calendar values. -/
inductive TemporalKind where
  | date
  | dateTime
deriving DecidableEq

namespace TemporalKind

/-- Both types. -/
def all : List TemporalKind := [.date, .dateTime]

/-- The name of a temporal type. -/
def name : TemporalKind → String
  | .date => "date"
  | .dateTime => "date_time"

/-- The temporal type of a name. -/
def ofName? (s : String) : Option TemporalKind := all.find? (·.name = s)

end TemporalKind

/-- The literal that stands for an enum member on the wire. -/
inductive EnumLiteral where
  | int (n : Int64)
  | float (x : Double)
  | text (s : String)
deriving DecidableEq

namespace EnumLiteral

/-- The literal as a JSON value. -/
def toJson : EnumLiteral → Json
  | .int n => .ofInt64 n
  | .float x => .ofDouble x
  | .text s => .string s

/-- Whether a JSON value denotes the literal: an integer literal takes whole numbers only, a float
literal every number that rounds to it. -/
def accepts : EnumLiteral → Json → Bool
  | .int n, .number m => m.toInt64? == some n
  | .float x, .number m => m.toDouble.same x
  | .text s, .string t => s == t
  | _, _ => false

/-- The literal as generated code and messages show it. -/
def toText : EnumLiteral → String
  | .int n => toString n.toInt
  | .float x => x.toText
  | .text s => Json.quote s

end EnumLiteral

/-- A member of an enum. -/
structure EnumMember where
  name : String
  value : EnumLiteral
deriving DecidableEq

/-- A closed set of named literals. -/
structure EnumDef where
  name : String
  members : List EnumMember
deriving DecidableEq

namespace EnumDef

/-- The member of a name. -/
def member? (e : EnumDef) (name : String) : Option EnumMember :=
  e.members.find? (·.name = name)

/-- The first member a JSON value denotes. -/
def memberFor? (e : EnumDef) (j : Json) : Option EnumMember :=
  e.members.find? (·.value.accepts j)

end EnumDef

/-- One node of a schema. -/
inductive Descriptor where
  | scalar (kind : ScalarKind)
  | temporal (kind : TemporalKind)
  /-- A record.  A transparent one wraps a single field and stands for that field's type. -/
  | record (name : String) (fields : List (String × Descriptor)) (transparent : Bool)
  /-- A record whose fields may mention the parameters. -/
  | template (name : String) (params : List String) (fields : List (String × Descriptor))
  /-- A template applied to arguments. -/
  | application (origin : Descriptor) (args : List Descriptor)
  /-- A parameter of a template. -/
  | param (name : String)
  | list (element : Descriptor)
  /-- A tuple of a fixed length. -/
  | tuple (items : List Descriptor)
  /-- A tuple of any length; it is meant to have a single item type. -/
  | variadic (items : List Descriptor)
  | mapping (key value : Descriptor)
  | optional (inner : Descriptor)
  | union (members : List Descriptor)
  | enum (e : EnumDef)
  /-- A type that nothing can represent. -/
  | foreign (name : String)
deriving Inhabited

/-- A named field of a record. -/
abbrev Field := String × Descriptor

/-- Why a descriptor has no meaning. -/
inductive DescriptorError where
  /-- A union that is no optional type. -/
  | notOptional (members : Nat)
  /-- A tuple of any length without a single item type. -/
  | itemTypes (found : Nat)
  | argumentCount (name : String) (expected found : Nat)
  /-- Something that takes no arguments is applied. -/
  | notApplicable (name : String)
  /-- A transparent record without a single field. -/
  | wrappedFields (name : String) (found : Nat)
deriving DecidableEq

namespace DescriptorError

/-- The text of the error. -/
def message : DescriptorError → String
  | .notOptional members =>
    s!"union of two or more non-none types is unsupported ({members} members)"
  | .itemTypes found => s!"variadic tuples expect exactly one element type, found {found}"
  | .argumentCount name expected found =>
    s!"generic record '{name}' expects {expected} argument(s), found {found}"
  | .notApplicable name => s!"'{name}' is not a record and cannot be instantiated"
  | .wrappedFields name found =>
    s!"wrapper record '{name}' must have exactly one field, found {found}"

end DescriptorError

namespace Descriptor

/-- Whether the descriptor is the absent value's. -/
def isNone : Descriptor → Bool
  | .scalar .none => true
  | _ => false

/-- The name under which a template is declared. -/
def declaredName (name : String) (params : List String) : String :=
  name ++ "<" ++ ", ".intercalate params ++ ">"

/-- The declared name, if the descriptor is a template. -/
def templateName? : Descriptor → Option String
  | .template name params _ => some (declaredName name params)
  | _ => none

mutual

/-- The descriptor as messages show it. -/
def toText : Descriptor → String
  | .scalar kind => kind.name
  | .temporal kind => kind.name
  | .record name _ _ => name
  | .template name params _ => declaredName name params
  | .application (.template name _ _) args => name ++ "<" ++ ", ".intercalate (texts args) ++ ">"
  | .application origin args => origin.toText ++ "<" ++ ", ".intercalate (texts args) ++ ">"
  | .param name => name
  | .list element => "list<" ++ element.toText ++ ">"
  | .tuple items => "tuple<" ++ ", ".intercalate (texts items) ++ ">"
  | .variadic items => "tuple<" ++ ", ".intercalate (texts items) ++ ", ...>"
  | .mapping key value => "dict<" ++ key.toText ++ ", " ++ value.toText ++ ">"
  | .optional inner => "optional<" ++ inner.toText ++ ">"
  | .union members => "union<" ++ " | ".intercalate (texts members) ++ ">"
  | .enum e => "enum " ++ e.name
  | .foreign name => name

/-- The texts of a list of descriptors. -/
def texts : List Descriptor → List String
  | [] => []
  | d :: rest => d.toText :: texts rest

end

/-- The member that can be present, if a union is an optional type in disguise: exactly two
members, one of them the absent value's. -/
def optionalMember : List Descriptor → Except DescriptorError Descriptor
  | [a, b] =>
    if b.isNone && !a.isNone then .ok a
    else if a.isNone && !b.isNone then .ok b
    else .error (.notOptional 2)
  | members => .error (.notOptional members.length)

/-- The item type of a tuple of any length. -/
def variadicItem : List Descriptor → Except DescriptorError Descriptor
  | [item] => .ok item
  | items => .error (.itemTypes items.length)

/-- The field a record wraps; an ordinary record wraps none. -/
def wrappedField (name : String) (fields : List Field) (transparent : Bool) :
    Except DescriptorError (Option Field) :=
  if !transparent then .ok none
  else match fields with
    | [field] => .ok (some field)
    | _ => .error (.wrappedFields name fields.length)

end Descriptor

end RpcBridge
