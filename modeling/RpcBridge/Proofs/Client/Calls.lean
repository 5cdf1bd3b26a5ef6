import RpcBridge.Client.Conversion
import RpcBridge.Proofs.Descriptor.Price

/-!
# Proofs/Client/Calls — conversions, descriptor by descriptor

The statements for a descriptor are made of its shape.  They can also be made of the descriptor
itself, one node at a time, with the arguments of a template substituted into its fields wherever an
application is met (`convertWith`).  The calls that this makes go to descriptors that may be larger
than the one it started from, but they always go to cheaper ones, so the recursion ends; and it
makes the same statements.

* `Descriptor.Calls` — the descriptors that a descriptor needs the statements of;
* `convertWith_congr` — there are no other calls;
* `convert_shape` — the statements for a descriptor, by those for the descriptors it calls on;
* `price_lt_of_calls` — what is called on costs less.
-/

namespace RpcBridge

open Client

/-! ## Calls -/

/-- The descriptors whose statements the statements for a descriptor are made of. -/
inductive Descriptor.Calls : Descriptor → Descriptor → Prop where
  | element (element : Descriptor) : Calls (.list element) element
  | variadic {items : List Descriptor} {item : Descriptor} (single : variadicItem items = .ok item) :
    Calls (.variadic items) item
  | item {items : List Descriptor} {d : Descriptor} (hd : d ∈ items) : Calls (.tuple items) d
  | key (key value : Descriptor) : Calls (.mapping key value) key
  | value (key value : Descriptor) : Calls (.mapping key value) value
  | present (inner : Descriptor) : Calls (.optional inner) inner
  | member {members : List Descriptor} {inner : Descriptor}
    (member : optionalMember members = .ok inner) : Calls (.union members) inner
  | wrapped {name : String} {fields : List Field} {transparent : Bool} {field : Field}
    (wraps : wrappedField name fields transparent = .ok (some field)) :
    Calls (.record name fields transparent) field.2
  | field {name : String} {fields : List Field} {transparent : Bool} {f : Field}
    (ordinary : wrappedField name fields transparent = .ok none) (hf : f ∈ fields) :
    Calls (.record name fields transparent) f.2
  /-- The fields of a template are called on with the arguments put in. -/
  | instanceField {name : String} {params : List String} {fields : List Field}
    {args : List Descriptor} {i : Instance} {f : Field}
    (made : instantiate (.template name params fields) args = .ok i) (hf : f ∈ i.fields) :
    Calls (.application (.template name params fields) args) f.2
  | origin {name : String} {fields : List Field} {transparent : Bool} {args : List Descriptor}
    {i : Instance} (made : instantiate (.record name fields transparent) args = .ok i) :
    Calls (.application (.record name fields transparent) args) (.record name fields transparent)

namespace Client

/-- Statements for descriptors, between places. -/
abbrev Converter := Descriptor → Place → Place → Generating Code

/-- The statements for the items of a tuple, counting from `start`. -/
def itemsWith (self : Converter) : List Descriptor → Nat → Place → Place → Generating Code
  | [], _, _, _ => return .empty
  | d :: rest, start, source, target => do
    let code ← self d (.item source start) (.item target start)
    return code.append (← itemsWith self rest (start + 1) source target)

/-- The statements for the fields of a record, each called on. -/
def fieldsWith (self : Converter) (record : String) :
    List Field → Place → Place → Generating Code
  | [], _, _ => return .empty
  | (name, d) :: rest, source, target => do
    Generating.inField record name (Generating.lift (checkIdentifier name))
    let code ← Generating.inField record name (self d (.field source name) (.field target name))
    return code.append (← fieldsWith self record rest source target)

/-- The statements for a list. -/
def listWith (self : Converter) (direction : Direction) (element : Descriptor)
    (source target : Place) : Generating Code := do
  let index ← Generating.temp "i"
  let inner ← self element (.slot source index) (.slot target index)
  return .ofList direction index source target inner

/-- The statements for a record with its fields. -/
def recordWith (self : Converter) (direction : Direction) (name : String) (fields : List Field)
    (source target : Place) : Generating Code := do
  let inner ← fieldsWith self name fields source target
  return ⟨Code.fresh direction target .emptyObject ++ inner.body, inner.transforms⟩

/-- What a malformed descriptor makes of a conversion. -/
def refuseCode (d : Descriptor) (e : DescriptorError) : Generating Code :=
  Generating.fail (.unsupported d (.obstacle (.malformed e)))

/-- The statements for a descriptor, those for the descriptors it calls on made by `self`. -/
def convertWith (self : Converter) (direction : Direction) : Converter
  | .scalar _, source, target => return .copy source target
  | .enum _, source, target => return .copy source target
  | .temporal kind, source, target => return .ofTemporal kind direction source target
  | .list element, source, target => listWith self direction element source target
  | .variadic items, source, target =>
    match Descriptor.variadicItem items with
    | .ok item => listWith self direction item source target
    | .error e => refuseCode (.variadic items) e
  | .tuple items, source, target => do
    return .ofTuple direction source target (← itemsWith self items 0 source target)
  | .mapping key value, source, target => do
    let k ← Generating.temp "k"
    let prepared ← Generating.temp "k"
    let keys ← self key (.temp k) (.temp prepared)
    let valueSource := Place.slot source k
    let valueTarget := Place.slot target prepared
    let moved := direction = .back && keys.transforms
    let walked ← self value (if moved then valueTarget else valueSource) valueTarget
    let values := if moved then .ofMoved valueSource valueTarget walked else walked
    return .ofMapping direction k prepared source target keys values
  | .optional inner, source, target => do
    return .ofOptional direction source target (← self inner source target)
  | .union members, source, target =>
    match Descriptor.optionalMember members with
    | .ok inner => do return .ofOptional direction source target (← self inner source target)
    | .error e => refuseCode (.union members) e
  | .record name fields transparent, source, target =>
    match Descriptor.wrappedField name fields transparent with
    | .ok (some field) => Generating.inField name field.1 (self field.2 source target)
    | .ok none => recordWith self direction name fields source target
    | .error e => refuseCode (.record name fields transparent) e
  | .application origin args, source, target =>
    match Descriptor.instantiate origin args with
    | .ok i =>
      if origin.templateName?.isSome then recordWith self direction i.name i.fields source target
      else self origin source target
    | .error e => refuseCode (.application origin args) e
  | .template name params fields, _, _ =>
    Generating.fail (.unsupported (.template name params fields) (.bareTemplate name))
  | .param name, _, _ =>
    Generating.fail (.unsupported (.param name) (.obstacle (.freeParam name)))
  | .foreign name, _, _ =>
    Generating.fail (.unsupported (.foreign name) (.obstacle (.foreign name)))

/-! ## Nothing else is called on -/

section Congruence

variable {self self' : Converter} {direction : Direction} {source target : Place}

/-- The statements for items depend on the converter only through these items. -/
theorem itemsWith_congr {items : List Descriptor} (same : ∀ d ∈ items, self d = self' d)
    (start : Nat) :
    itemsWith self items start source target = itemsWith self' items start source target := by
  induction items generalizing start with
  | nil => rfl
  | cons d rest ih =>
    rw [List.forall_mem_cons] at same
    simp only [itemsWith, same.1, ih same.2]

/-- The statements for fields depend on the converter only through the types of these fields. -/
theorem fieldsWith_congr {record : String} {fields : List Field}
    (same : ∀ f ∈ fields, self f.2 = self' f.2) :
    fieldsWith self record fields source target = fieldsWith self' record fields source target := by
  induction fields with
  | nil => rfl
  | cons f rest ih =>
    rw [List.forall_mem_cons] at same
    simp only [fieldsWith, same.1, ih same.2]

/-- **The statements for a descriptor depend only on those for the descriptors it calls on.** -/
theorem convertWith_congr {d : Descriptor} (same : ∀ e, d.Calls e → self e = self' e) :
    convertWith self direction d source target = convertWith self' direction d source target := by
  cases d with
  | list element => rw [convertWith, convertWith, listWith, listWith, same _ (.element element)]
  | variadic items =>
    rw [convertWith, convertWith]
    cases single : Descriptor.variadicItem items with
    | error e => rfl
    | ok item =>
      dsimp only
      rw [listWith, listWith, same _ (.variadic single)]
  | tuple items =>
    rw [convertWith, convertWith, itemsWith_congr fun d hd => same d (.item hd)]
  | mapping key value =>
    rw [convertWith, convertWith, same _ (.key key value), same _ (.value key value)]
  | optional inner => rw [convertWith, convertWith, same _ (.present inner)]
  | union members =>
    rw [convertWith, convertWith]
    cases member : Descriptor.optionalMember members with
    | error e => rfl
    | ok inner =>
      dsimp only
      rw [same _ (.member member)]
  | record name fields transparent =>
    rw [convertWith, convertWith]
    cases wraps : Descriptor.wrappedField name fields transparent with
    | error e => rfl
    | ok field =>
      cases field with
      | some field =>
        dsimp only
        rw [same _ (.wrapped wraps)]
      | none =>
        dsimp only
        rw [recordWith, recordWith, fieldsWith_congr fun f hf => same f.2 (.field wraps hf)]
  | application origin args =>
    rw [convertWith, convertWith]
    cases made : Descriptor.instantiate origin args with
    | error e => rfl
    | ok i =>
      dsimp only
      cases origin with
      | template name params fields =>
        simp only [Descriptor.templateName?, Option.isSome_some, if_true]
        rw [recordWith, recordWith, fieldsWith_congr fun f hf => same f.2 (.instanceField made hf)]
      | record name fields transparent =>
        simp only [Descriptor.templateName?, Option.isSome_none, Bool.false_eq_true, if_false]
        rw [same _ (.origin made)]
      | _ => cases made
  | _ => rfl

end Congruence

/-! ## Shapes make the same statements -/

section Shapes

variable {direction : Direction} {source target : Place}

/-- The statements for a descriptor, made of its shape. -/
def convertShape (direction : Direction) : Converter := fun d => convert direction d.shape

/-- The items of a shape make the statements of the items of the descriptor. -/
theorem convertItems_shapes (items : List Descriptor) (start : Nat) :
    convertItems direction (Descriptor.shapesIn [] items) start source target =
      itemsWith (convertShape direction) items start source target := by
  induction items generalizing start with
  | nil => rw [Descriptor.shapesIn, convertItems, itemsWith]
  | cons d rest ih =>
    rw [Descriptor.shapesIn, convertItems, itemsWith]
    simp only [ih]
    rfl

/-- The fields of a shape make the statements of the fields of the descriptor. -/
theorem convertFields_shapes (record : String) (fields : List Field) :
    convertFields direction record (Descriptor.fieldShapes [] fields) source target =
      fieldsWith (convertShape direction) record fields source target := by
  induction fields with
  | nil => rw [Descriptor.fieldShapes, convertFields, fieldsWith]
  | cons f rest ih =>
    rw [Descriptor.fieldShapes_cons, convertFields, fieldsWith]
    simp only [ih]
    rfl

/-- The shape of a record makes the statements of the record. -/
theorem convert_record_shape (name : String) (fields : List Field) :
    convert direction (.record name (Descriptor.fieldShapes [] fields)) source target =
      recordWith (convertShape direction) direction name fields source target := by
  rw [convert, recordWith]
  simp only [convertFields_shapes]

/-- A record that is applied to nothing makes the statements of the record, transparent or not. -/
theorem convert_origin_shape (name : String) (fields : List Field) (transparent : Bool) :
    convert direction (Descriptor.application (.record name fields transparent) []).shape source
        target =
      convert direction (Descriptor.record name fields transparent).shape source target := by
  cases transparent with
  | false => rfl
  | true =>
    match fields with
    | [(field, d)] => rfl
    | [] | _ :: _ :: _ =>
      simp [Descriptor.shape, Descriptor.shapeIn, Descriptor.fieldShapes_eq_map, Shape.ofRecord,
        convert]

/-- A record calls on its fields, or on its only field if it is transparent. -/
theorem convert_recordDescriptor (name : String) (fields : List Field) (transparent : Bool) :
    convert direction (Descriptor.record name fields transparent).shape source target =
      convertWith (convertShape direction) direction (.record name fields transparent) source
        target := by
  rw [convertWith]
  cases wraps : Descriptor.wrappedField name fields transparent with
  | error e =>
    rw [Descriptor.shape_record_error wraps, convert]
    rfl
  | ok field =>
    cases field with
    | some field =>
      rw [Descriptor.shape_wrapper wraps, convert]
      rfl
    | none => rw [Descriptor.shape_record wraps, convert_record_shape]

/-- An application calls on the fields of its instance, or on the record that is applied to nothing.
-/
theorem convert_application (origin : Descriptor) (args : List Descriptor) :
    convert direction (Descriptor.application origin args).shape source target =
      convertWith (convertShape direction) direction (.application origin args) source target := by
  rw [convertWith]
  cases made : Descriptor.instantiate origin args with
  | error e =>
    rw [Descriptor.shape_application_error made, convert]
    rfl
  | ok i =>
    cases origin with
    | template name params fields =>
      rcases Descriptor.shape_application made with record | opened
      · rw [record, convert_record_shape]
        rfl
      · simp only [Descriptor.shape, Descriptor.shapeIn] at opened
        split at opened <;> cases opened
    | record name fields transparent =>
      rw [Descriptor.instantiate] at made
      split at made
      · next none =>
        rw [List.isEmpty_iff.1 none, convert_origin_shape]
        rfl
      · cases made
    | _ => cases made

/-- **The statements for a descriptor are made of those for the descriptors it calls on.** -/
theorem convert_shape (d : Descriptor) : convert direction d.shape source target =
    convertWith (convertShape direction) direction d source target := by
  cases d with
  | scalar kind => rw [Descriptor.shape, Descriptor.shapeIn, convert, convertWith]
  | temporal kind => rw [Descriptor.shape, Descriptor.shapeIn, convert, convertWith]
  | enum e => rw [Descriptor.shape, Descriptor.shapeIn, convert, convertWith]
  | param name =>
    rw [Descriptor.shape, Descriptor.shapeIn, convertWith]
    rfl
  | foreign name => rw [Descriptor.shape, Descriptor.shapeIn, convert, convertWith]
  | template name params fields => rw [Descriptor.shape, Descriptor.shapeIn, convert, convertWith]
  | list element =>
    rw [Descriptor.shape, Descriptor.shapeIn, convert, convertWith, listWith]
    rfl
  | optional inner =>
    rw [Descriptor.shape, Descriptor.shapeIn, convert, convertWith]
    rfl
  | mapping key value =>
    rw [Descriptor.shape, Descriptor.shapeIn, convert, convertWith]
    rfl
  | tuple items =>
    rw [Descriptor.shape, Descriptor.shapeIn, convert, convertWith, convertItems_shapes]
  | variadic items =>
    rw [convertWith]
    cases single : Descriptor.variadicItem items with
    | ok item =>
      rw [Descriptor.shape_variadic single, convert]
      rfl
    | error e =>
      rw [Descriptor.shape_variadic_error single, convert]
      rfl
  | union members =>
    rw [convertWith]
    cases member : Descriptor.optionalMember members with
    | ok inner =>
      rw [Descriptor.shape_union member, convert]
      rfl
    | error e =>
      rw [Descriptor.shape_union_error member, convert]
      rfl
  | record name fields transparent => exact convert_recordDescriptor name fields transparent
  | application origin args => exact convert_application origin args

end Shapes

/-! ## Calls end -/

/-- **What is called on costs less**, also if it is larger. -/
theorem price_lt_of_calls {d e : Descriptor} (calls : d.Calls e) : e.price < d.price := by
  cases calls with
  | element => exact Descriptor.price_list ▸ Nat.lt_succ_self _
  | present => exact Descriptor.price_optional ▸ Nat.lt_succ_self _
  | key | value =>
    rw [Descriptor.price_mapping]
    omega
  | variadic single =>
    rw [Descriptor.price_variadic, Nat.lt_succ_iff]
    exact Descriptor.price_item_le (Descriptor.mem_of_variadicItem single)
  | item hd =>
    rw [Descriptor.price_tuple, Nat.lt_succ_iff]
    exact Descriptor.price_item_le hd
  | member member =>
    rw [Descriptor.price_union, Nat.lt_succ_iff]
    exact Descriptor.price_item_le (Descriptor.mem_of_optionalMember member)
  | @wrapped _ fields _ field wraps =>
    have hf : field ∈ fields := by
      rw [Descriptor.eq_singleton_of_wrappedField wraps]
      exact List.mem_singleton_self field
    rw [Descriptor.price_record, Nat.lt_succ_iff]
    exact Descriptor.price_field_le hf
  | field _ hf =>
    rw [Descriptor.price_record, Nat.lt_succ_iff]
    exact Descriptor.price_field_le hf
  | instanceField made hf => exact Descriptor.price_instance_lt made hf
  | origin => exact Descriptor.price_application_record ▸ Nat.lt_succ_self _

/-- **Making statements descriptor by descriptor ends**, and makes the statements of the shapes. -/
theorem eq_convertShape_iff {direction : Direction} {self : Converter} :
    self = convertWith self direction ↔ self = convertShape direction := by
  constructor
  · intro fixed
    funext d
    -- on the price: no other measure gets smaller with every call
    induction priced : d.price using Nat.strongRecOn generalizing d with
    | ind n ih =>
      subst priced
      rw [fixed]
      funext source target
      rw [convertWith_congr fun e calls => ih e.price (price_lt_of_calls calls) e rfl]
      exact (convert_shape d).symm
  · rintro rfl
    funext d source target
    exact convert_shape d

/-- **The recursion of code generation ends on every descriptor.**  Prices get smaller with every
call, those of instantiated fields included, though nodes may get more; the statements for a
descriptor depend on no other calls; and there is just one way to make the statements for all
descriptors out of those calls, the one that is used. -/
theorem generation_terminates (direction : Direction) :
    (∀ d e : Descriptor, d.Calls e → e.price < d.price) ∧
    (∃ d e : Descriptor, d.Calls e ∧ d.nodes < e.nodes) ∧
    (∀ (self self' : Converter) (d : Descriptor), (∀ e, d.Calls e → self e = self' e) →
      convertWith self direction d = convertWith self' direction d) ∧
    ∀ self : Converter, self = convertWith self direction ↔
      self = fun d => convert direction d.shape := by
  refine ⟨fun _ _ => price_lt_of_calls, ?_, fun self self' d same => ?_,
    fun _ => eq_convertShape_iff⟩
  · obtain ⟨name, params, fields, args, i, f, made, hf, larger⟩ :=
      Descriptor.exists_instance_larger
    exact ⟨_, _, .instanceField made hf, larger⟩
  · funext source target
    exact convertWith_congr same

end Client

end RpcBridge
