import RpcBridge.Descriptor.Basic
import RpcBridge.Json.Parts

/-!
# Descriptor/Reading — descriptors out of JSON

A node of a schema is an object whose `kind` names the sort of node, or an array that starts with
that name and goes on with the parts in their order.  The same holds for the parts that have parts
of their own, only without a kind.  Members that are not asked for are passed over.

A `Reading` holds a JSON value together with all it can be read as.  It is built from the readings
of the value's parts, so that reading a schema is one recursion on the JSON value
(`Descriptor.reading`).  What is wrong is reported in the order of the text: the first part that
does not fit, or a repeated part; then the first part that is missing.
-/

namespace RpcBridge

open Json (Misfit Found Draft)

/-! ## Leaves -/

/-- A name out of a closed set. -/
def readName {β : Type} (known : List String) (ofName? : String → Option β) (name : String) :
    Except Misfit β :=
  match ofName? name with
  | some b => .ok b
  | none => .error (.unknownVariant name known)

/-- A choice that carries nothing: its name, or an object that holds nothing under its name. -/
def readChoice {β : Type} (known : List String) (ofName? : String → Option β) :
    Json → Except Misfit β
  | .string name => readName known ofName? name
  | .object [(name, content)] => do
    let b ← readName known ofName? name
    match content with
    | .null | .object [] => return b
    | other => Misfit.expected "unit" other
  | .object _ => .error (.wrongValue .map "map with a single key")
  | j => Misfit.expected "string or map" j

/-- A scalar type. -/
def ScalarKind.ofJson : Json → Except Misfit ScalarKind :=
  readChoice (all.map name) ofName?

/-- A temporal type. -/
def TemporalKind.ofJson : Json → Except Misfit TemporalKind :=
  readChoice (all.map name) ofName?

/-- A literal: a signed word, any other number, or a text. -/
def EnumLiteral.ofJson : Json → Except Misfit EnumLiteral
  | .number n =>
    match n.toInt64? with
    | some i => .ok (.int i)
    | none => .ok (.float n.toDouble)
  | .string s => .ok (.text s)
  | _ => .error (.noAlternative "EnumLiteral")

/-- The literal a text holds. -/
def EnumLiteral.ofText (text : String) : Except Json.ReadError EnumLiteral :=
  Json.readText (fun d => do
    let j ← Json.wellFormed (d.read Json.maxLevels)
    Json.fitting (ofJson j)) text

/-- An enum member. -/
def EnumMember.ofJson (j : Json) : Except Misfit EnumMember := do
  let title := "struct EnumMember"
  (← partsOf title j).two title ⟨0, "name", readString⟩ ⟨1, "value", EnumLiteral.ofJson⟩ .mk

/-! ## Nodes -/

/-- The sorts of nodes. -/
inductive NodeKind where
  | scalar | temporal | record | template | application | param | list | tuple | variadic
  | mapping | optional | union | enum | foreign
deriving DecidableEq

namespace NodeKind

/-- Every sort of node, in the order in which they are numbered. -/
def all : List NodeKind :=
  [.scalar, .temporal, .record, .template, .application, .param, .list, .tuple, .variadic,
    .mapping, .optional, .union, .enum, .foreign]

/-- The name of a sort of node. -/
def name : NodeKind → String
  | .scalar => "primitive"
  | .temporal => "temporal"
  | .record => "record"
  | .template => "generic_record"
  | .application => "generic_instantiation"
  | .param => "generic_param"
  | .list => "list"
  | .tuple => "fixed_tuple"
  | .variadic => "variadic_tuple"
  | .mapping => "mapping"
  | .optional => "optional"
  | .union => "union"
  | .enum => "enum"
  | .foreign => "opaque"

/-- The sort of node of a name. -/
def ofName (s : String) : Except Misfit NodeKind :=
  readName (all.map name) (fun s => all.find? (·.name = s)) s

/-- The kind of an outermost node: a name. -/
def ofOuterJson : Json → Except Misfit NodeKind
  | .string s => ofName s
  | j => Misfit.expected "variant identifier" j

/-- The kind of a node inside another one: a name, or its number. -/
def ofInnerJson : Json → Except Misfit NodeKind
  | .string s => ofName s
  | j@(.number (.whole n)) =>
    if n.val < 0 then Misfit.expected "variant identifier" j
    else match all[n.val.toNat]? with
      | some kind => .ok kind
      | none => .error (.wrongValue (.ofJson j) s!"variant index 0 <= i < {all.length}")
  | j => Misfit.expected "variant identifier" j

/-- What a node of structured content is called. -/
def title (kind : String) : String := s!"struct variant TypeDescriptor::{kind}"

end NodeKind

/-- A JSON value and what it can be read as. -/
structure Reading where
  json : Json
  descriptor : Except Misfit Descriptor
  descriptors : Except Misfit (List Descriptor)
  field : Except Misfit Field
  fields : Except Misfit (List Field)

namespace Parts.Part

/-- A part that is a text. -/
def text (index : Nat) (name : String) : Part Reading String :=
  ⟨index, name, fun r => readString r.json⟩

/-- A part that is a descriptor. -/
def node (index : Nat) (name : String) : Part Reading Descriptor :=
  ⟨index, name, Reading.descriptor⟩

/-- A part that is a list of descriptors. -/
def nodes (index : Nat) (name : String) : Part Reading (List Descriptor) :=
  ⟨index, name, Reading.descriptors⟩

/-- A part that is a list of fields. -/
def fieldList (index : Nat) : Part Reading (List Field) := ⟨index, "fields", Reading.fields⟩

end Parts.Part

/-- Reads the parts of a node of a kind. -/
def NodeKind.read (kind : NodeKind) (parts : Parts Reading) : Except Misfit Descriptor :=
  match kind with
  | .scalar =>
    parts.one (title "Primitive") ⟨0, "primitive", fun r => ScalarKind.ofJson r.json⟩ .scalar
  | .temporal =>
    parts.one (title "Temporal") ⟨0, "temporal", fun r => TemporalKind.ofJson r.json⟩ .temporal
  | .record => do
    let record := "struct RecordDef"
    let name := Parts.Part.text 0 "name"
    let fields := Parts.Part.fieldList 1
    let transparent : Parts.Part Reading Bool := ⟨2, "transparent", fun r => readBool r.json⟩
    parts.start [name.check, fields.check, transparent.check]
    let n ← parts.get record 3 name
    let fs ← parts.get record 3 fields
    let t ← parts.getOr false transparent
    parts.stop 3
    return .record n fs t
  | .template => do
    let record := "struct GenericRecordDef"
    let name := Parts.Part.text 0 "name"
    let params : Parts.Part Reading (List String) :=
      ⟨1, "params", fun r => readList readString r.json⟩
    let fields := Parts.Part.fieldList 2
    parts.start [name.check, params.check, fields.check]
    let n ← parts.get record 3 name
    let ps ← parts.get record 3 params
    let fs ← parts.get record 3 fields
    parts.stop 3
    return .template n ps fs
  | .application =>
    parts.two (title "GenericInstantiation") (.node 0 "origin") (.nodes 1 "args") .application
  | .param => parts.one (title "GenericParam") (.text 0 "name") .param
  | .list => parts.one (title "List") (.node 0 "element") .list
  | .tuple => parts.one (title "FixedTuple") (.nodes 0 "items") .tuple
  | .variadic => parts.one (title "VariadicTuple") (.nodes 0 "items") .variadic
  | .mapping => parts.two (title "Mapping") (.node 0 "key") (.node 1 "value") .mapping
  | .optional => parts.one (title "Optional") (.node 0 "inner") .optional
  | .union => parts.one (title "Union") (.nodes 0 "members") .union
  | .enum =>
    parts.two "struct EnumDef" (.text 0 "name")
      ⟨1, "members", fun r => readList EnumMember.ofJson r.json⟩ fun name ms => .enum ⟨name, ms⟩
  | .foreign => parts.one (title "Opaque") (.text 0 "name") .foreign

/-- Splits the kind off the named parts of a node; a kind read before must not come again. -/
def splitKind (kindOf : Json → Except Misfit NodeKind) (seen : Option NodeKind) :
    List (String × Reading) → Except Misfit (Option NodeKind × List (String × Reading))
  | [] => .ok (seen, [])
  | (name, r) :: rest =>
    if name = "kind" then
      if seen.isSome then .error (.duplicateField "kind")
      else do splitKind kindOf (some (← kindOf r.json)) rest
    else do
      let (kind, others) ← splitKind kindOf seen rest
      return (kind, (name, r) :: others)

/-- Reads an object as a node. -/
def readNamedNode (kindOf : Json → Except Misfit NodeKind) (members : List (String × Reading)) :
    Except Misfit Descriptor := do
  match ← splitKind kindOf none members with
  | (some kind, parts) => kind.read (.named parts)
  | (none, _) => .error (.missingField "kind")

/-- Reads an array as a node. -/
def readPlacedNode (kindOf : Json → Except Misfit NodeKind) :
    List Reading → Except Misfit Descriptor
  | [] => .error (.missingField "kind")
  | r :: parts => do (← kindOf r.json).read (.placed parts)

/-- The misfit of a value that is no node at all. -/
def noNode {α : Type} (j : Json) : Except Misfit α :=
  Misfit.expected "internally tagged enum TypeDescriptor" j

/-- Reads the parts of a field. -/
def readField (parts : Parts Reading) : Except Misfit Field :=
  parts.two "struct Field" (.text 0 "name") (.node 1 "type") .mk

mutual

/-- What a value can be read as inside a node. -/
def reading : Json → Reading
  | .array items =>
    let parts := readings items
    { json := .array items
      descriptor := readPlacedNode NodeKind.ofInnerJson parts
      descriptors := parts.mapM Reading.descriptor
      field := readField (.placed parts)
      fields := parts.mapM Reading.field }
  | .object members =>
    let parts := memberReadings members
    { json := .object members
      descriptor := readNamedNode NodeKind.ofInnerJson parts
      descriptors := Misfit.expected "a sequence" (.object members)
      field := readField (.named parts)
      fields := Misfit.expected "a sequence" (.object members) }
  | leaf =>
    { json := leaf
      descriptor := noNode leaf
      descriptors := Misfit.expected "a sequence" leaf
      field := Misfit.expected "struct Field" leaf
      fields := Misfit.expected "a sequence" leaf }

/-- The readings of a list of values. -/
def readings : List Json → List Reading
  | [] => []
  | j :: rest => reading j :: readings rest

/-- The readings of members. -/
def memberReadings : Members → List (String × Reading)
  | [] => []
  | (name, j) :: rest => (name, reading j) :: memberReadings rest

end

namespace Descriptor

/-- The descriptor a JSON value holds. -/
def ofJson : Json → Except Misfit Descriptor
  | .object members => readNamedNode NodeKind.ofOuterJson (memberReadings members)
  | .array items => readPlacedNode NodeKind.ofOuterJson (readings items)
  | leaf => noNode leaf

/-! ## Descriptors out of a text

The kind of an outermost node is looked at as soon as it is reached; all its other members are
taken in whole before any of them is made sense of. -/

/-- Looks at the kind of an outermost node. -/
def checkKind (d : Draft) : Except Json.ReadError Unit := do
  let j ← Json.wellFormed d.surface
  let _ ← Json.fitting (NodeKind.ofOuterJson j)

/-- Walks the members of an outermost node. -/
def checkMembers (levels : Nat) (seen : Bool) :
    List (Except Json.Fault String × Draft) → Except Json.ReadError Unit
  | [] => .ok ()
  | (key, d) :: rest => do
    let name ← Json.wellFormed key
    if name = "kind" then
      if seen then Json.fitting (.error (.duplicateField "kind"))
      checkKind d
      checkMembers levels true rest
    else
      let _ ← Json.wellFormed (d.read levels)
      checkMembers levels seen rest

/-- The descriptor a draft holds; `levels` more levels may be opened. -/
def ofDraft (levels : Nat) (d : Draft) : Except Json.ReadError Descriptor := do
  match levels, d with
  | inner + 1, .object _ members _ => checkMembers inner false members
  | _ + 1, .array _ (kind :: _) _ => checkKind kind
  | _, _ => pure ()
  let j ← Json.wellFormed (d.read levels)
  Json.fitting (ofJson j)

/-- The descriptor a text holds. -/
def ofText : String → Except Json.ReadError Descriptor :=
  Json.readText (ofDraft Json.maxLevels)

end Descriptor

end RpcBridge
