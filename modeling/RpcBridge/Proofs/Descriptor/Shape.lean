import RpcBridge.Descriptor.Shape

/-!
# Proofs/Descriptor/Shape — shapes and substitution

A shape keeps the arguments of a template in a scope; a service that meets an application
substitutes the arguments into the fields and starts over.  Both come to the same shape.

* `Shape.induction` — what holds of a shape if it holds of its parts holds of every shape;
* `shapeIn_eq` — the shape in a scope is the shape of the substituted descriptor;
* `shape_application` — the shape of an application is that of the record it stands for.
-/

namespace RpcBridge

/-! ## Induction on shapes -/

section Induction

variable {motive : Shape → Prop}
  (scalar : ∀ kind, motive (.scalar kind)) (temporal : ∀ kind, motive (.temporal kind))
  (list : ∀ element, motive element → motive (.list element))
  (tuple : ∀ items, (∀ s ∈ items, motive s) → motive (.tuple items))
  (mapping : ∀ key value, motive key → motive value → motive (.mapping key value))
  (optional : ∀ inner, motive inner → motive (.optional inner))
  (enum : ∀ e, motive (.enum e))
  (record : ∀ name fields, (∀ f ∈ fields, motive f.2) → motive (.record name fields))
  (wrapper : ∀ name field inner, motive inner → motive (.wrapper name field inner))
  (bareTemplate : ∀ origin name fields, (∀ f ∈ fields, motive f.2) →
    motive (.bareTemplate origin name fields))
  (opened : ∀ origin name fields, (∀ f ∈ fields, motive f.2) →
    motive (.opened origin name fields))
  (blocked : ∀ d obstacle, motive (.blocked d obstacle))

include scalar temporal list tuple mapping optional enum record wrapper bareTemplate opened blocked

/-- **Induction on shapes**: items and fields are reached by membership. -/
@[induction_eliminator]
theorem Shape.induction (s : Shape) : motive s :=
  @Shape.rec motive (fun items => ∀ s ∈ items, motive s) (fun fields => ∀ f ∈ fields, motive f.2)
    (fun f => motive f.2) scalar temporal list tuple mapping optional enum record wrapper
    bareTemplate opened blocked
    (fun _ h => nomatch h)
    (fun _ _ head tail s hs => by
      rcases List.mem_cons.1 hs with rfl | hs
      · exact head
      · exact tail s hs)
    (fun _ h => nomatch h)
    (fun _ _ head tail f hf => by
      rcases List.mem_cons.1 hf with rfl | hf
      · exact head
      · exact tail f hf)
    (fun _ _ h => h) s

end Induction

namespace Descriptor

/-! ## Empty bindings -/

mutual

/-- Substituting nothing changes nothing. -/
theorem substitute_nil : ∀ d : Descriptor, d.substitute [] = d
  | .scalar _ | .temporal _ | .record _ _ _ | .template _ _ _ | .enum _ | .foreign _ => by
    simp only [substitute]
  | .param _ => by simp [substitute, Bindings.find?]
  | .list element => by rw [substitute, substitute_nil element]
  | .tuple items => by rw [substitute, substituteAll_nil items]
  | .variadic items => by rw [substitute, substituteAll_nil items]
  | .mapping key value => by rw [substitute, substitute_nil key, substitute_nil value]
  | .optional inner => by rw [substitute, substitute_nil inner]
  | .union members => by rw [substitute, substituteAll_nil members]
  | .application _ args => by rw [substitute, substituteAll_nil args]

theorem substituteAll_nil : ∀ ds : List Descriptor, substituteAll [] ds = ds
  | [] => by rw [substituteAll]
  | d :: rest => by rw [substituteAll, substitute_nil d, substituteAll_nil rest]

end

@[simp] theorem length_substituteAll (bindings : Bindings) (ds : List Descriptor) :
    (substituteAll bindings ds).length = ds.length := by
  induction ds with
  | nil => rw [substituteAll]
  | cons d rest ih => rw [substituteAll, List.length_cons, List.length_cons, ih]

@[simp] theorem length_shapesIn (scope : Scope) (ds : List Descriptor) :
    (shapesIn scope ds).length = ds.length := by
  induction ds with
  | nil => simp only [shapesIn, List.length_nil]
  | cons d rest ih => rw [shapesIn, List.length_cons, List.length_cons, ih]

end Descriptor

/-! ## Scopes -/

namespace Scope

/-- The shapes of a scope are those of its descriptors. -/
def Sound (scope : Scope) : Prop := ∀ b ∈ scope, b.shape = b.descriptor.shape

variable {scope : Scope}

/-- A parameter is bound to the shape of the descriptor it is bound to. -/
theorem Sound.find?_eq (sound : scope.Sound) (name : String) :
    scope.find? name = (scope.bindings.find? name).map Descriptor.shape := by
  have same : (scope.bindings.reverse.find? (·.1 = name)) =
      (scope.reverse.find? (·.param = name)).map fun b => (b.param, b.descriptor) := by
    rw [bindings, ← List.map_reverse, List.find?_map]
    rfl
  rw [find?, Bindings.find?, same]
  cases h : scope.reverse.find? (·.param = name) with
  | none => rfl
  | some b =>
    have bound : b ∈ scope := List.mem_reverse.1 (List.mem_of_find?_eq_some h)
    simp only [Option.map_some, sound b bound]

/-- Arguments bound in a scope are the parameters zipped with the arguments. -/
theorem bindings_ofArguments (params : List String) (args : List Descriptor)
    (shapes : List Shape) (h : args.length = shapes.length) :
    (ofArguments params args shapes).bindings = params.zip args := by
  induction params generalizing args shapes with
  | nil => rfl
  | cons p params ih =>
    match args, shapes with
    | [], _ => rfl
    | d :: args, s :: shapes =>
      simp only [List.length_cons, Nat.add_right_cancel_iff] at h
      simp only [ofArguments, bindings, List.map_cons, List.zip_cons_cons] at ih ⊢
      rw [ih args shapes h]

/-- The scope of a template's fields is sound. -/
theorem sound_ofArguments (params : List String) (args : List Descriptor) :
    (ofArguments params args (Descriptor.shapesIn [] args)).Sound := by
  induction params generalizing args with
  | nil => exact fun _ h => nomatch h
  | cons p params ih =>
    match args with
    | [] => exact fun _ h => nomatch h
    | d :: args =>
      intro b hb
      rcases List.mem_cons.1 (by simpa only [ofArguments, Descriptor.shapesIn] using hb) with
        rfl | hb
      · rfl
      · exact ih args b hb

end Scope

/-! ## The shape in a scope -/

namespace Descriptor

mutual

/-- **The shape in a scope is the shape of the substituted descriptor.** -/
theorem shapeIn_eq {scope : Scope} (sound : scope.Sound) :
    ∀ d : Descriptor, d.shapeIn scope = (d.substitute scope.bindings).shape
  | .scalar _ | .temporal _ | .record _ _ _ | .template _ _ _ | .enum _ | .foreign _ => by
    simp only [substitute, shape, shapeIn]
  | .param name => by
    rw [substitute, shapeIn, sound.find?_eq]
    cases scope.bindings.find? name <;> rfl
  | .list element => by
    rw [substitute, shape, shapeIn, shapeIn, shapeIn_eq sound element, shape]
  | .tuple items => by
    rw [substitute, shape, shapeIn, shapeIn, shapesIn_eq sound items]
  | .variadic items => by
    rw [substitute, shape, shapeIn, shapeIn, shapesIn_eq sound items]
    simp only [Scope.bindings, List.map_nil, substituteAll_nil]
  | .mapping key value => by
    rw [substitute, shape, shapeIn, shapeIn, shapeIn_eq sound key, shapeIn_eq sound value, shape,
      shape]
  | .optional inner => by
    rw [substitute, shape, shapeIn, shapeIn, shapeIn_eq sound inner, shape]
  | .union members => by
    rw [substitute, shape, shapeIn, shapeIn, shapesIn_eq sound members]
    simp only [Scope.bindings, List.map_nil, substituteAll_nil]
  | .application origin args => by
    have hargs := shapesIn_eq sound args
    rw [substitute, shape]
    cases origin <;>
      simp only [shapeIn, hargs, Scope.bindings, List.map_nil, substituteAll_nil,
        length_substituteAll, List.isEmpty_iff_length_eq_zero]

/-- In a sound scope, taking the shapes of a list is substituting and then taking them in no scope.
-/
theorem shapesIn_eq {scope : Scope} (sound : scope.Sound) :
    ∀ ds : List Descriptor, shapesIn scope ds = shapesIn [] (substituteAll scope.bindings ds)
  | [] => by rw [substituteAll, shapesIn, shapesIn]
  | d :: rest => by
    rw [substituteAll, shapesIn, shapesIn, shapeIn_eq sound d, shapesIn_eq sound rest, shape]

end

/-- In a sound scope, taking the shapes of fields is substituting and then taking them in no scope.
-/
theorem fieldShapes_eq {scope : Scope} (sound : scope.Sound) (fields : List Field) :
    fieldShapes scope fields = fieldShapes [] (substituteFields scope.bindings fields) := by
  induction fields with
  | nil => simp only [substituteFields, List.map_nil, fieldShapes]
  | cons f rest ih =>
    simp only [substituteFields, List.map_cons, fieldShapes] at ih ⊢
    rw [shapeIn_eq sound f.2, ih, shape]

/-- **An application comes to the record it stands for**, its fields those of the template after
the arguments have been substituted; a transparent record that is applied to nothing is marked. -/
theorem shape_application {origin : Descriptor} {args : List Descriptor} {i : Instance}
    (h : instantiate origin args = .ok i) :
    (application origin args).shape = .record i.name (fieldShapes [] i.fields) ∨
      (application origin args).shape = .opened origin i.name (fieldShapes [] i.fields) := by
  unfold instantiate at h
  split at h
  case h_1 name params fields =>
    split at h
    case isTrue count =>
      cases h
      have sound := Scope.sound_ofArguments params args
      have bound := Scope.bindings_ofArguments params args (shapesIn [] args)
        (length_shapesIn [] args).symm
      refine Or.inl ?_
      simp only [shape, shapeIn, count, if_true, Scope.bindings, List.map_nil, substituteAll_nil]
      rw [fieldShapes_eq sound, bound]
    case isFalse => cases h
  case h_2 name fields transparent =>
    split at h
    case isTrue none =>
      cases h
      cases transparent
      · exact Or.inl (by simp [shape, shapeIn, none])
      · exact Or.inr (by simp [shape, shapeIn, none])
    case isFalse => cases h
  case h_3 => cases h

/-- An application that cannot be instantiated is blocked, with the reason. -/
theorem shape_application_error {origin : Descriptor} {args : List Descriptor}
    {e : DescriptorError} (h : instantiate origin args = .error e) :
    (application origin args).shape = .blocked (.application origin args) (.malformed e) := by
  unfold instantiate at h
  split at h
  case h_1 name params fields =>
    split at h
    case isTrue => cases h
    case isFalse count =>
      cases h
      simp only [shape, shapeIn, if_neg count, Scope.bindings, List.map_nil, substituteAll_nil]
  case h_2 name fields transparent =>
    split at h
    case isTrue => cases h
    case isFalse some =>
      cases h
      simp only [shape, shapeIn, if_neg some, Scope.bindings, List.map_nil, substituteAll_nil]
  case h_3 noTemplate noRecord =>
    cases h
    rw [shape, shapeIn]
    · simp only [Scope.bindings, List.map_nil, substituteAll_nil]
    · exact noTemplate
    · exact noRecord

/-! ## Abbreviations carried out -/

theorem fieldShapes_cons (f : Field) (rest : List Field) :
    fieldShapes [] (f :: rest) = (f.1, f.2.shape) :: fieldShapes [] rest := by
  rw [fieldShapes, shape]

/-- A variadic tuple of one item type has the shape of a list of it. -/
theorem shape_variadic {items : List Descriptor} {item : Descriptor}
    (h : variadicItem items = .ok item) : (variadic items).shape = .list item.shape := by
  unfold variadicItem at h
  split at h
  · cases h
    simp only [shape, shapeIn, shapesIn, Shape.ofVariadic]
  · cases h

/-- A variadic tuple without one item type is blocked, with the reason. -/
theorem shape_variadic_error {items : List Descriptor} {e : DescriptorError}
    (h : variadicItem items = .error e) :
    (variadic items).shape = .blocked (.variadic items) (.malformed e) := by
  match items with
  | [_] => cases h
  | [] | _ :: _ :: _ =>
    cases h
    simp only [shape, shapeIn, shapesIn, Shape.ofVariadic, Scope.bindings, List.map_nil,
      substituteAll_nil]

/-- A union with none and one other member has the shape of an optional. -/
theorem shape_union {members : List Descriptor} {inner : Descriptor}
    (h : optionalMember members = .ok inner) : (union members).shape = .optional inner.shape := by
  unfold optionalMember at h
  split at h
  case h_1 a b =>
    simp only [shape, shapeIn, shapesIn, Shape.ofUnion, Scope.bindings, List.map_nil,
      substituteAll_nil]
    split at h
    · next first =>
      cases h
      rw [if_pos first]
    · next first =>
      split at h
      · next second =>
        cases h
        rw [if_neg first, if_pos second]
      · cases h
  case h_2 => cases h

/-- A union that is not of that form is blocked, with the reason. -/
theorem shape_union_error {members : List Descriptor} {e : DescriptorError}
    (h : optionalMember members = .error e) :
    (union members).shape = .blocked (.union members) (.malformed e) := by
  simp only [shape, shapeIn, Scope.bindings, List.map_nil, substituteAll_nil]
  match members with
  | [a, b] =>
    simp only [optionalMember] at h
    simp only [shapesIn, Shape.ofUnion]
    split at h
    · cases h
    · next first =>
      split at h
      · cases h
      · next second =>
        cases h
        rw [if_neg first, if_neg second]
  | [] | [_] | _ :: _ :: _ :: _ =>
    cases h
    rfl

/-- A record that wraps no field has the shape of a record. -/
theorem shape_record {name : String} {fields : List Field} {transparent : Bool}
    (h : wrappedField name fields transparent = .ok none) :
    (record name fields transparent).shape = .record name (fieldShapes [] fields) := by
  unfold wrappedField at h
  split at h
  · next ordinary =>
    rw [Bool.not_eq_true'] at ordinary
    subst ordinary
    rfl
  · split at h <;> cases h

/-- A transparent record has the shape of a wrapper around its one field. -/
theorem shape_wrapper {name : String} {fields : List Field} {transparent : Bool} {field : Field}
    (h : wrappedField name fields transparent = .ok (some field)) :
    (record name fields transparent).shape = .wrapper name field.1 field.2.shape := by
  cases transparent with
  | false => cases h
  | true =>
    match fields with
    | [] | _ :: _ :: _ => cases h
    | [_] =>
      cases h
      rfl

/-- A transparent record without exactly one field is blocked, with the reason. -/
theorem shape_record_error {name : String} {fields : List Field} {transparent : Bool}
    {e : DescriptorError} (h : wrappedField name fields transparent = .error e) :
    (record name fields transparent).shape =
      .blocked (.record name fields transparent) (.malformed e) := by
  cases transparent with
  | false => cases h
  | true =>
    match fields with
    | [_] => cases h
    | [] | _ :: _ :: _ =>
      cases h
      rfl

end Descriptor

end RpcBridge
