import RpcBridge.Proofs.Descriptor.Parts

/-!
# Proofs/Descriptor/Opening — induction along the abbreviations

A descriptor is opened step by step: an application is replaced by the record it stands for, whose
fields need not be smaller than the application.  What gets smaller is the shape.  `opening` is the
induction that follows: a case for each kind of node, with the parts that a value of the type has,
and one case for all that cannot be carried out.
-/

namespace RpcBridge.Descriptor

/-! ## Shapes of parts -/

theorem shapesIn_eq_map (scope : Scope) (ds : List Descriptor) :
    shapesIn scope ds = ds.map (shapeIn scope) := by
  induction ds with
  | nil => rw [shapesIn, List.map_nil]
  | cons d rest ih => rw [shapesIn, List.map_cons, ih]

theorem fieldShapes_eq_map (scope : Scope) (fields : List Field) :
    fieldShapes scope fields = fields.map fun f => (f.1, f.2.shapeIn scope) := by
  induction fields with
  | nil => rw [fieldShapes, List.map_nil]
  | cons f rest ih => rw [fieldShapes, List.map_cons, ih]

theorem substituteAll_eq_map (bindings : Bindings) (ds : List Descriptor) :
    substituteAll bindings ds = ds.map (substitute bindings) := by
  induction ds with
  | nil => rw [substituteAll, List.map_nil]
  | cons d rest ih => rw [substituteAll, List.map_cons, ih]

theorem mem_shapesIn {scope : Scope} {ds : List Descriptor} {d : Descriptor} (hd : d ∈ ds) :
    d.shapeIn scope ∈ shapesIn scope ds := by
  rw [shapesIn_eq_map]
  exact List.mem_map_of_mem hd

theorem mem_fieldShapes {scope : Scope} {fields : List Field} {f : Field} (hf : f ∈ fields) :
    (f.1, f.2.shapeIn scope) ∈ fieldShapes scope fields := by
  rw [fieldShapes_eq_map]
  exact List.mem_map.2 ⟨f, hf, rfl⟩

/-! ## What is abbreviated -/

/-- The item type of a variadic tuple is one of its items. -/
theorem mem_of_variadicItem {items : List Descriptor} {item : Descriptor}
    (h : variadicItem items = .ok item) : item ∈ items := by
  unfold variadicItem at h
  split at h
  · cases h
    exact List.mem_singleton_self _
  · cases h

/-- The type that a union makes optional is one of its members. -/
theorem mem_of_optionalMember {members : List Descriptor} {inner : Descriptor}
    (h : optionalMember members = .ok inner) : inner ∈ members := by
  unfold optionalMember at h
  split at h
  · split at h
    · cases h
      exact List.mem_cons_self ..
    · split at h
      · cases h
        exact List.mem_cons_of_mem _ (List.mem_cons_self ..)
      · cases h
  · cases h

/-- A transparent record that wraps a field has no other. -/
theorem eq_singleton_of_wrappedField {name : String} {fields : List Field} {transparent : Bool}
    {field : Field} (h : wrappedField name fields transparent = .ok (some field)) :
    fields = [field] := by
  unfold wrappedField at h
  split at h
  · cases h
  · split at h
    · cases h
      rfl
    · cases h

/-! ## Smaller shapes -/

/-- An item's shape is smaller than the shapes of all items together. -/
theorem sizeOf_item_lt {ds : List Descriptor} {d : Descriptor} (hd : d ∈ ds) :
    sizeOf d.shape < sizeOf (shapesIn [] ds) :=
  List.sizeOf_lt_of_mem (mem_shapesIn hd)

/-- A field's shape is smaller than the shapes of all fields together. -/
theorem sizeOf_field_lt {fields : List Field} {f : Field} (hf : f ∈ fields) :
    sizeOf f.2.shape < sizeOf (fieldShapes [] fields) := by
  have listed : (f.1, f.2.shape) ∈ fieldShapes [] fields := mem_fieldShapes hf
  have := List.sizeOf_lt_of_mem listed
  rw [Prod.mk.sizeOf_spec] at this
  omega

/-- The fields of an application have smaller shapes. -/
theorem sizeOf_instance_lt {origin : Descriptor} {args : List Descriptor} {i : Instance}
    (h : instantiate origin args = .ok i) {f : Field} (hf : f ∈ i.fields) :
    sizeOf f.2.shape < sizeOf (application origin args).shape := by
  have := sizeOf_field_lt hf
  rcases shape_application h with record | opened
  · rw [record, Shape.record.sizeOf_spec]
    omega
  · rw [opened, Shape.opened.sizeOf_spec]
    omega

/-! ## Induction -/

section Induction

variable {motive : Descriptor → Prop}
  (scalar : ∀ kind, motive (.scalar kind)) (temporal : ∀ kind, motive (.temporal kind))
  (enum : ∀ e, motive (.enum e))
  (list : ∀ element, motive element → motive (.list element))
  (variadic : ∀ items item, variadicItem items = .ok item → motive item →
    motive (.variadic items))
  (tuple : ∀ items, (∀ d ∈ items, motive d) → motive (.tuple items))
  (mapping : ∀ key value, motive key → motive value → motive (.mapping key value))
  (optional : ∀ inner, motive inner → motive (.optional inner))
  (union : ∀ members inner, optionalMember members = .ok inner → motive inner →
    motive (.union members))
  (record : ∀ name fields transparent, wrappedField name fields transparent = .ok none →
    (∀ f ∈ fields, motive f.2) → motive (.record name fields transparent))
  (wrapper : ∀ name fields transparent field,
    wrappedField name fields transparent = .ok (some field) → motive field.2 →
      motive (.record name fields transparent))
  (template : ∀ name params fields, (∀ f ∈ fields, motive f.2) →
    motive (.template name params fields))
  (application : ∀ origin args i, instantiate origin args = .ok i → (∀ f ∈ i.fields, motive f.2) →
    motive (.application origin args))
  (blocked : ∀ d e obstacle, d.shape = .blocked e obstacle → motive d)

include scalar temporal enum list variadic tuple mapping optional union record wrapper template
  application blocked

/-- **Induction along the abbreviations.** -/
theorem opening (d : Descriptor) : motive d := by
  -- on the size of the shape: opening an application may well make a descriptor larger
  induction size : sizeOf d.shape using Nat.strongRecOn generalizing d with
  | ind n ih =>
    subst size
    replace ih (e : Descriptor) (smaller : sizeOf e.shape < sizeOf d.shape) : motive e :=
      ih _ smaller e rfl
    cases d with
    | scalar kind => exact scalar kind
    | temporal kind => exact temporal kind
    | enum e => exact enum e
    | param name => exact blocked _ (.param name) (.freeParam name) rfl
    | foreign name => exact blocked _ (.foreign name) (.foreign name) rfl
    | list element =>
      rw [shape, shapeIn, Shape.list.sizeOf_spec] at ih
      exact list element (ih element (by rw [shape]; omega))
    | tuple items =>
      rw [shape, shapeIn, Shape.tuple.sizeOf_spec] at ih
      refine tuple items fun d hd => ih d ?_
      have := sizeOf_item_lt hd
      omega
    | variadic items =>
      cases single : variadicItem items with
      | error e => exact blocked _ _ _ (shape_variadic_error single)
      | ok item =>
        rw [shape_variadic single, Shape.list.sizeOf_spec] at ih
        exact variadic items item single (ih item (by omega))
    | mapping key value =>
      rw [shape, shapeIn, Shape.mapping.sizeOf_spec] at ih
      exact mapping key value (ih key (by rw [shape]; omega)) (ih value (by rw [shape]; omega))
    | optional inner =>
      rw [shape, shapeIn, Shape.optional.sizeOf_spec] at ih
      exact optional inner (ih inner (by rw [shape]; omega))
    | union members =>
      cases member : optionalMember members with
      | error e => exact blocked _ _ _ (shape_union_error member)
      | ok inner =>
        rw [shape_union member, Shape.optional.sizeOf_spec] at ih
        exact union members inner member (ih inner (by omega))
    | record name fields transparent =>
      cases wraps : wrappedField name fields transparent with
      | error e => exact blocked _ _ _ (shape_record_error wraps)
      | ok field =>
        cases field with
        | some field =>
          rw [shape_wrapper wraps, Shape.wrapper.sizeOf_spec] at ih
          exact wrapper name fields transparent field wraps (ih field.2 (by omega))
        | none =>
          rw [shape_record wraps, Shape.record.sizeOf_spec] at ih
          refine record name fields transparent wraps fun f hf => ih f.2 ?_
          have := sizeOf_field_lt hf
          omega
    | template name params fields =>
      rw [shape, shapeIn, Shape.bareTemplate.sizeOf_spec] at ih
      refine template name params fields fun f hf => ih f.2 ?_
      have := sizeOf_field_lt hf
      omega
    | application origin args =>
      cases instance_eq : instantiate origin args with
      | error e => exact blocked _ _ _ (shape_application_error instance_eq)
      | ok i =>
        exact application origin args i instance_eq fun f hf =>
          ih f.2 (sizeOf_instance_lt instance_eq hf)

end Induction

end RpcBridge.Descriptor
