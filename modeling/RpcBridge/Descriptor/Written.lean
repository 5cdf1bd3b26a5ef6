import RpcBridge.Descriptor.Basic

/-!
# Descriptor/Written — descriptors as JSON

Every descriptor is written as an object whose first member, `kind`, names the sort of node; the
parts of the node follow in a fixed order.  `transparent` is written only when it holds.
-/

namespace RpcBridge

/-- An object with the kind of a node in front. -/
def kindObject (kind : String) (members : Members) : Json :=
  .object (("kind", .string kind) :: members)

/-- An enum member as JSON. -/
def EnumMember.toJson (m : EnumMember) : Json :=
  .object [("name", .string m.name), ("value", m.value.toJson)]

namespace Descriptor

mutual

/-- The descriptor as JSON. -/
def toJson : Descriptor → Json
  | .scalar kind => kindObject "primitive" [("primitive", .string kind.name)]
  | .temporal kind => kindObject "temporal" [("temporal", .string kind.name)]
  | .record name fields transparent =>
    kindObject "record" (("name", .string name) :: ("fields", .array (fieldsJson fields)) ::
      if transparent then [("transparent", .bool true)] else [])
  | .template name params fields =>
    kindObject "generic_record" [("name", .string name),
      ("params", .array (params.map .string)), ("fields", .array (fieldsJson fields))]
  | .application origin args =>
    kindObject "generic_instantiation" [("origin", origin.toJson), ("args", .array (listJson args))]
  | .param name => kindObject "generic_param" [("name", .string name)]
  | .list element => kindObject "list" [("element", element.toJson)]
  | .tuple items => kindObject "fixed_tuple" [("items", .array (listJson items))]
  | .variadic items => kindObject "variadic_tuple" [("items", .array (listJson items))]
  | .mapping key value => kindObject "mapping" [("key", key.toJson), ("value", value.toJson)]
  | .optional inner => kindObject "optional" [("inner", inner.toJson)]
  | .union members => kindObject "union" [("members", .array (listJson members))]
  | .enum e =>
    kindObject "enum" [("name", .string e.name), ("members", .array (e.members.map (·.toJson)))]
  | .foreign name => kindObject "opaque" [("name", .string name)]

/-- A list of descriptors as JSON. -/
def listJson : List Descriptor → List Json
  | [] => []
  | d :: rest => d.toJson :: listJson rest

/-- The fields of a record as JSON. -/
def fieldsJson : List Field → List Json
  | [] => []
  | (name, d) :: rest =>
    .object [("name", .string name), ("type", d.toJson)] :: fieldsJson rest

end

end Descriptor

end RpcBridge
