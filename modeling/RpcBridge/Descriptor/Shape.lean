import RpcBridge.Descriptor.Substitution

/-!
# Descriptor/Shape — what a descriptor comes to

A shape is a descriptor with all abbreviations carried out: templates are applied to their
arguments, a union that is an optional type in disguise is one, and a tuple of any length is a
list.  What cannot be carried out stays in the shape as an *obstacle*, so that it is noticed only
where a value leads there.

`Descriptor.shape` follows the descriptor; instead of substituting arguments into the fields of a
template and starting over, it keeps them, already carried out, in an environment.

A service and a generated client take two kinds of node differently, and a shape keeps both in
sight: a template without arguments, and a transparent record that is applied to nothing.
-/

namespace RpcBridge

/-- Why a descriptor cannot be carried out. -/
inductive Obstacle where
  | malformed (e : DescriptorError)
  /-- A parameter that no template binds. -/
  | freeParam (name : String)
  | foreign (name : String)
deriving DecidableEq

/-- A descriptor with all abbreviations carried out. -/
inductive Shape where
  | scalar (kind : ScalarKind)
  | temporal (kind : TemporalKind)
  | list (element : Shape)
  | tuple (items : List Shape)
  | mapping (key value : Shape)
  | optional (inner : Shape)
  | enum (e : EnumDef)
  | record (name : String) (fields : List (String × Shape))
  /-- A transparent record: the type of its one field. -/
  | wrapper (name field : String) (inner : Shape)
  /-- A template without arguments: a record for a service, nothing for a client. -/
  | bareTemplate (origin : Descriptor) (name : String) (fields : List (String × Shape))
  /-- A transparent record applied to nothing: an ordinary record for a service, transparent for
  a client. -/
  | opened (origin : Descriptor) (name : String) (fields : List (String × Shape))
  | blocked (d : Descriptor) (obstacle : Obstacle)
deriving Inhabited

/-- What a parameter is bound to: a descriptor and its shape. -/
structure Binding where
  param : String
  descriptor : Descriptor
  shape : Shape

/-- The bindings of the parameters in scope; of two bindings of one parameter the later counts. -/
abbrev Scope := List Binding

namespace Scope

/-- The shape bound to a parameter. -/
def find? (scope : Scope) (name : String) : Option Shape :=
  (scope.reverse.find? (·.param = name)).map (·.shape)

/-- The descriptors bound to the parameters. -/
def bindings (scope : Scope) : Bindings := scope.map fun b => (b.param, b.descriptor)

/-- The scope of a template's fields. -/
def ofArguments : List String → List Descriptor → List Shape → Scope
  | p :: ps, d :: ds, s :: ss => ⟨p, d, s⟩ :: ofArguments ps ds ss
  | _, _, _ => []

end Scope

namespace Shape

/-- The shape of a record that may be transparent. -/
def ofRecord (name : String) (fields : List Field) (transparent : Bool)
    (shapes : List (String × Shape)) : Shape :=
  if transparent then
    match shapes with
    | [(field, inner)] => .wrapper name field inner
    | _ => .blocked (.record name fields true) (.malformed (.wrappedFields name fields.length))
  else .record name shapes

/-- The shape of a union of members with their shapes. -/
def ofUnion (members : List Descriptor) (shapes : List Shape) : Shape :=
  match members, shapes with
  | [a, b], [s, t] =>
    if b.isNone && !a.isNone then .optional s
    else if a.isNone && !b.isNone then .optional t
    else .blocked (.union members) (.malformed (.notOptional 2))
  | _, _ => .blocked (.union members) (.malformed (.notOptional members.length))

/-- The shape of a tuple of any length with its item types. -/
def ofVariadic (items : List Descriptor) (shapes : List Shape) : Shape :=
  match shapes with
  | [s] => .list s
  | _ => .blocked (.variadic items) (.malformed (.itemTypes items.length))

end Shape

namespace Descriptor

mutual

/-- The shape of a descriptor in a scope. -/
def shapeIn (scope : Scope) : Descriptor → Shape
  | .scalar kind => .scalar kind
  | .temporal kind => .temporal kind
  | .record name fields transparent =>
    .ofRecord name fields transparent (fieldShapes [] fields)
  | .template name params fields =>
    .bareTemplate (.template name params fields) name (fieldShapes [] fields)
  | .application (.template name params fields) args =>
    let descriptors := substituteAll scope.bindings args
    if params.length = args.length then
      .record name (fieldShapes (.ofArguments params descriptors (shapesIn scope args)) fields)
    else
      .blocked (.application (.template name params fields) descriptors)
        (.malformed (.argumentCount name params.length args.length))
  | .application (.record name fields transparent) args =>
    if args.isEmpty then
      let shapes := fieldShapes [] fields
      if transparent then .opened (.record name fields transparent) name shapes
      else .record name shapes
    else
      .blocked (.application (.record name fields transparent)
        (substituteAll scope.bindings args)) (.malformed (.argumentCount name 0 args.length))
  | .application origin args =>
    .blocked (.application origin (substituteAll scope.bindings args))
      (.malformed (.notApplicable origin.toText))
  | .param name =>
    match scope.find? name with
    | some s => s
    | none => .blocked (.param name) (.freeParam name)
  | .list element => .list (element.shapeIn scope)
  | .tuple items => .tuple (shapesIn scope items)
  | .variadic items => .ofVariadic (substituteAll scope.bindings items) (shapesIn scope items)
  | .mapping key value => .mapping (key.shapeIn scope) (value.shapeIn scope)
  | .optional inner => .optional (inner.shapeIn scope)
  | .union members => .ofUnion (substituteAll scope.bindings members) (shapesIn scope members)
  | .enum e => .enum e
  | .foreign name => .blocked (.foreign name) (.foreign name)

/-- The shapes of a list of descriptors. -/
def shapesIn (scope : Scope) : List Descriptor → List Shape
  | [] => []
  | d :: rest => d.shapeIn scope :: shapesIn scope rest

/-- The shapes of fields. -/
def fieldShapes (scope : Scope) : List Field → List (String × Shape)
  | [] => []
  | (name, d) :: rest => (name, d.shapeIn scope) :: fieldShapes scope rest

end

/-- What a descriptor comes to. -/
def shape (d : Descriptor) : Shape := d.shapeIn []

end Descriptor

end RpcBridge
