import RpcBridge.Proofs.Descriptor.Shape

/-!
# Proofs/Descriptor/Parts — what a descriptor consists of

A descriptor occurs in another one wherever it stands: in a container, in the fields of a record or
template, as an origin or an argument.  What is asked of a descriptor "everywhere" is asked of all
its parts.  Carrying out the abbreviations makes no part of a kind that was not there
(`exists_part_of_shape`): arguments are put into the fields of their template, and nothing else.

* `Descriptor.induction` — what holds of a descriptor if it holds of its parts holds of every
  descriptor;
* `Descriptor.OccursIn`, `Shape.OccursIn` — the parts;
* `exists_part_of_shape` — every part of a shape comes from a part of the descriptor.
-/

namespace RpcBridge

/-! ## Induction on descriptors -/

namespace Descriptor

section Induction

variable {motive : Descriptor → Prop} (scalar : ∀ kind, motive (.scalar kind))
  (temporal : ∀ kind, motive (.temporal kind))
  (record : ∀ name fields transparent, (∀ f ∈ fields, motive f.2) →
    motive (.record name fields transparent))
  (template : ∀ name params fields, (∀ f ∈ fields, motive f.2) →
    motive (.template name params fields))
  (application : ∀ origin args, motive origin → (∀ d ∈ args, motive d) →
    motive (.application origin args))
  (param : ∀ name, motive (.param name))
  (list : ∀ element, motive element → motive (.list element))
  (tuple : ∀ items, (∀ d ∈ items, motive d) → motive (.tuple items))
  (variadic : ∀ items, (∀ d ∈ items, motive d) → motive (.variadic items))
  (mapping : ∀ key value, motive key → motive value → motive (.mapping key value))
  (optional : ∀ inner, motive inner → motive (.optional inner))
  (union : ∀ members, (∀ d ∈ members, motive d) → motive (.union members))
  (enum : ∀ e, motive (.enum e))
  (foreign : ∀ name, motive (.foreign name))

include scalar temporal record template application param list tuple variadic mapping optional
  union enum foreign

/-- **Induction on descriptors**: fields, items and arguments are reached by membership. -/
@[induction_eliminator]
theorem induction (d : Descriptor) : motive d :=
  @Descriptor.rec motive (fun fields => ∀ f ∈ fields, motive f.2) (fun ds => ∀ d ∈ ds, motive d)
    (fun f => motive f.2) scalar temporal record template application param list tuple variadic
    mapping optional union enum foreign
    (List.forall_mem_nil _)
    (fun _ _ head tail => List.forall_mem_cons.2 ⟨head, tail⟩)
    (List.forall_mem_nil _)
    (fun _ _ head tail => List.forall_mem_cons.2 ⟨head, tail⟩)
    (fun _ _ h => h) d

end Induction

end Descriptor

/-! ## Parts -/

/-- A part of a descriptor, the descriptor itself included. -/
inductive Descriptor.OccursIn (p : Descriptor) : Descriptor → Prop where
  | here : OccursIn p p
  | record {name : String} {fields : List Field} {transparent : Bool} {f : Field} (hf : f ∈ fields)
      (inner : OccursIn p f.2) : OccursIn p (.record name fields transparent)
  | template {name : String} {params : List String} {fields : List Field} {f : Field}
      (hf : f ∈ fields) (inner : OccursIn p f.2) : OccursIn p (.template name params fields)
  | origin {origin : Descriptor} {args : List Descriptor} (inner : OccursIn p origin) :
      OccursIn p (.application origin args)
  | argument {origin d : Descriptor} {args : List Descriptor} (hd : d ∈ args)
      (inner : OccursIn p d) : OccursIn p (.application origin args)
  | list {element : Descriptor} (inner : OccursIn p element) : OccursIn p (.list element)
  | tuple {d : Descriptor} {items : List Descriptor} (hd : d ∈ items) (inner : OccursIn p d) :
      OccursIn p (.tuple items)
  | variadic {d : Descriptor} {items : List Descriptor} (hd : d ∈ items) (inner : OccursIn p d) :
      OccursIn p (.variadic items)
  | key {key value : Descriptor} (inner : OccursIn p key) : OccursIn p (.mapping key value)
  | value {key value : Descriptor} (inner : OccursIn p value) : OccursIn p (.mapping key value)
  | optional {inner : Descriptor} (present : OccursIn p inner) : OccursIn p (.optional inner)
  | union {d : Descriptor} {members : List Descriptor} (hd : d ∈ members) (inner : OccursIn p d) :
      OccursIn p (.union members)

/-- A part of a shape, the shape itself included. -/
inductive Shape.OccursIn (q : Shape) : Shape → Prop where
  | here : OccursIn q q
  | list {element : Shape} (inner : OccursIn q element) : OccursIn q (.list element)
  | tuple {s : Shape} {items : List Shape} (hs : s ∈ items) (inner : OccursIn q s) :
      OccursIn q (.tuple items)
  | key {key value : Shape} (inner : OccursIn q key) : OccursIn q (.mapping key value)
  | value {key value : Shape} (inner : OccursIn q value) : OccursIn q (.mapping key value)
  | optional {inner : Shape} (present : OccursIn q inner) : OccursIn q (.optional inner)
  | record {name : String} {fields : List (String × Shape)} {f : String × Shape} (hf : f ∈ fields)
      (inner : OccursIn q f.2) : OccursIn q (.record name fields)
  | wrapper {name field : String} {inner : Shape} (wrapped : OccursIn q inner) :
      OccursIn q (.wrapper name field inner)
  | bareTemplate {origin : Descriptor} {name : String} {fields : List (String × Shape)}
      {f : String × Shape} (hf : f ∈ fields) (inner : OccursIn q f.2) :
      OccursIn q (.bareTemplate origin name fields)
  | opened {origin : Descriptor} {name : String} {fields : List (String × Shape)}
      {f : String × Shape} (hf : f ∈ fields) (inner : OccursIn q f.2) :
      OccursIn q (.opened origin name fields)

/-- The names of the fields, if the descriptor defines any. -/
def Descriptor.fieldNames : Descriptor → List String
  | .record _ fields _ | .template _ _ fields => fields.map (·.1)
  | _ => []

/-- The names of the fields, if the shape has any. -/
def Shape.fieldNames : Shape → List String
  | .record _ fields | .bareTemplate _ _ fields | .opened _ _ fields => fields.map (·.1)
  | _ => []

/-- The fields of each record have distinct names. -/
def Descriptor.Distinct (d : Descriptor) : Prop :=
  ∀ p : Descriptor, p.OccursIn d → p.fieldNames.Nodup

namespace Descriptor

mutual

/-- The parts of a descriptor, in the order of its text. -/
def parts (d : Descriptor) : List Descriptor :=
  d :: match d with
    | .record _ fields _ | .template _ _ fields => fieldParts fields
    | .application origin args => origin.parts ++ allParts args
    | .list inner | .optional inner => inner.parts
    | .tuple ds | .variadic ds | .union ds => allParts ds
    | .mapping key value => key.parts ++ value.parts
    | .scalar _ | .temporal _ | .param _ | .enum _ | .foreign _ => []

/-- The parts of a list of descriptors. -/
def allParts : List Descriptor → List Descriptor
  | [] => []
  | d :: rest => d.parts ++ allParts rest

/-- The parts of fields. -/
def fieldParts : List Field → List Descriptor
  | [] => []
  | (_, d) :: rest => d.parts ++ fieldParts rest

end

/-- What occurs in a member of a list occurs in the list. -/
theorem mem_allParts {p d : Descriptor} {ds : List Descriptor} (hd : d ∈ ds) (hp : p ∈ d.parts) :
    p ∈ allParts ds := by
  induction ds with
  | nil => cases hd
  | cons e rest ih =>
    rw [allParts]
    rcases List.mem_cons.1 hd with rfl | hd
    · exact List.mem_append_left _ hp
    · exact List.mem_append_right _ (ih hd)

/-- What occurs in a field's descriptor occurs in the fields. -/
theorem mem_fieldParts {p : Descriptor} {f : Field} {fields : List Field} (hf : f ∈ fields)
    (hp : p ∈ f.2.parts) : p ∈ fieldParts fields := by
  induction fields with
  | nil => cases hf
  | cons g rest ih =>
    rw [fieldParts]
    rcases List.mem_cons.1 hf with rfl | hf
    · exact List.mem_append_left _ hp
    · exact List.mem_append_right _ (ih hf)

/-- **Every part is listed**, so what is asked of all parts can be computed. -/
theorem mem_parts {p d : Descriptor} (h : p.OccursIn d) : p ∈ d.parts := by
  induction h with
  | here =>
    unfold parts
    exact List.mem_cons_self ..
  | record hf _ ih | template hf _ ih =>
    unfold parts
    exact List.mem_cons_of_mem _ (mem_fieldParts hf ih)
  | origin _ ih | key _ ih =>
    unfold parts
    exact List.mem_cons_of_mem _ (List.mem_append_left _ ih)
  | argument hd _ ih =>
    unfold parts
    exact List.mem_cons_of_mem _ (List.mem_append_right _ (mem_allParts hd ih))
  | list _ ih | optional _ ih =>
    unfold parts
    exact List.mem_cons_of_mem _ ih
  | tuple hd _ ih | variadic hd _ ih | union hd _ ih =>
    unfold parts
    exact List.mem_cons_of_mem _ (mem_allParts hd ih)
  | value _ ih =>
    unfold parts
    exact List.mem_cons_of_mem _ (List.mem_append_right _ ih)

/-- A descriptor has distinct field names throughout when each node in it has. -/
theorem distinct_of_parts {d : Descriptor} (h : ∀ p ∈ d.parts, p.fieldNames.Nodup) : d.Distinct :=
  fun p hp => h p (mem_parts hp)

end Descriptor

/-! ## Parts of a shape -/

/-- How a part of a shape depends on the part of a descriptor that it comes from. -/
structure Shape.ComesFrom (q : Shape) (p : Descriptor) : Prop where
  names : q.fieldNames.Sublist p.fieldNames
  /-- A transparent record does not become an ordinary one. -/
  record : ∀ name fields, q = .record name fields →
    ∀ name' fields', p ≠ .record name' fields' true
  mapping : ∀ key value, q = .mapping key value → ∃ key' value', p = .mapping key' value'
  enum : ∀ e, q = .enum e → p = .enum e

namespace Descriptor

/-- Shapes are taken under the names the fields already have. -/
theorem map_fst_fieldShapes (scope : Scope) (fields : List Field) :
    (fieldShapes scope fields).map (·.1) = fields.map (·.1) := by
  induction fields with
  | nil => rfl
  | cons f rest ih => rw [fieldShapes, List.map_cons, List.map_cons, ih]

/-- A binding of arguments binds one of the parameters to one of the shapes. -/
theorem mem_ofArguments {params : List String} {ds : List Descriptor} {shapes : List Shape}
    {b : Binding} (h : b ∈ Scope.ofArguments params ds shapes) :
    b.param ∈ params ∧ b.shape ∈ shapes := by
  induction params generalizing ds shapes with
  | nil => cases h
  | cons p params ih =>
    match ds, shapes with
    | [], _ => cases h
    | _ :: _, [] => cases h
    | d :: ds, s :: shapes =>
      rcases List.mem_cons.1 h with rfl | h
      · exact ⟨List.mem_cons_self .., List.mem_cons_self ..⟩
      · exact (ih h).imp (List.mem_cons_of_mem _) (List.mem_cons_of_mem _)

/-- What a scope finds, it binds. -/
theorem mem_of_find? {scope : Scope} {name : String} {s : Shape} (h : scope.find? name = some s) :
    ∃ b ∈ scope, b.shape = s := by
  obtain ⟨b, found, rfl⟩ := Option.map_eq_some_iff.1 h
  exact ⟨b, List.mem_reverse.1 (List.mem_of_find?_eq_some found), rfl⟩

/-- What a part of a shape comes from: a part of the descriptor, or what a parameter in scope is
bound to. -/
def Traced (scope : Scope) (q : Shape) (d : Descriptor) : Prop :=
  (∃ p, p.OccursIn d ∧ q.ComesFrom p) ∨ ∃ b ∈ scope, q.OccursIn b.shape

namespace Traced

variable {scope : Scope} {q : Shape} {d e : Descriptor}

/-- The whole shape comes from the whole descriptor. -/
theorem here (h : q.ComesFrom d) : Traced scope q d := Or.inl ⟨d, .here, h⟩

/-- A shape without fields that is neither a record nor a dictionary nor an enum. -/
theorem plain (names : q.fieldNames = []) (record : ∀ name fields, q ≠ .record name fields)
    (mapping : ∀ key value, q ≠ .mapping key value) (enum : ∀ e, q ≠ .enum e) :
    Traced scope q d :=
  here ⟨names ▸ List.nil_sublist _, fun _ _ h => absurd h (record _ _),
    fun _ _ h => absurd h (mapping _ _), fun _ h => absurd h (enum _)⟩

/-- A shape traced to a part of a descriptor is traced to all that contains the part. -/
theorem within (h : Traced scope q d) (part : ∀ p : Descriptor, p.OccursIn d → p.OccursIn e) :
    Traced scope q e :=
  h.imp_left fun ⟨p, occurs, comes⟩ => ⟨p, part p occurs, comes⟩

/-- Nothing comes from an empty scope. -/
theorem closed (h : Traced [] q d) (part : ∀ p : Descriptor, p.OccursIn d → p.OccursIn e) :
    Traced scope q e := by
  rcases h with ⟨p, occurs, comes⟩ | ⟨b, hb, -⟩
  · exact Or.inl ⟨p, part p occurs, comes⟩
  · cases hb

end Traced

/-- A shape comes from a node with its field names when it is none of the shapes a node has to
carry. -/
theorem comesFrom_fields {q : Shape} {d : Descriptor} (names : q.fieldNames = d.fieldNames)
    (record : ∀ name fields, q = .record name fields →
      ∀ name' fields', d ≠ .record name' fields' true)
    (mapping : ∀ key value, q ≠ .mapping key value) (enum : ∀ e, q ≠ .enum e) : q.ComesFrom d :=
  ⟨names ▸ List.Sublist.refl _, record, fun _ _ h => absurd h (mapping _ _),
    fun _ h => absurd h (enum _)⟩

section Nodes

variable {scope : Scope} {q : Shape} {items filled args : List Descriptor} {fields : List Field}
  {shapes : List Shape} {shaped : List (String × Shape)}

/-- What is not carried out has no parts. -/
theorem traced_blocked {d e : Descriptor} {o : Obstacle} (h : q.OccursIn (.blocked e o)) :
    Traced scope q d := by
  cases h
  exact .plain rfl nofun nofun nofun

/-- What occurs in the shape of a parameter occurs in what it is bound to. -/
theorem traced_param {name : String} (h : q.OccursIn ((param name).shapeIn scope)) :
    Traced scope q (.param name) := by
  rw [shapeIn] at h
  cases bound : scope.find? name with
  | none =>
    rw [bound] at h
    exact traced_blocked h
  | some s =>
    rw [bound] at h
    obtain ⟨b, hb, rfl⟩ := mem_of_find? bound
    exact Or.inr ⟨b, hb, h⟩

/-- What occurs in a tuple's shape is traced to one of its items. -/
theorem traced_tuple (each : ∀ s ∈ shapes, q.OccursIn s → ∃ d ∈ items, Traced scope q d)
    (h : q.OccursIn (.tuple shapes)) : Traced scope q (.tuple items) := by
  cases h with
  | here => exact .plain rfl nofun nofun nofun
  | tuple hs inner =>
    obtain ⟨d, hd, traced⟩ := each _ hs inner
    exact traced.within fun _ => .tuple hd

/-- A dictionary comes from a mapping, and what else occurs in its shape from the key or the
value. -/
theorem traced_mapping {key value : Descriptor} {keys values : Shape}
    (inKey : q.OccursIn keys → Traced scope q key)
    (inValue : q.OccursIn values → Traced scope q value) (h : q.OccursIn (.mapping keys values)) :
    Traced scope q (.mapping key value) := by
  cases h with
  | here => exact .here ⟨List.nil_sublist _, nofun, fun _ _ _ => ⟨_, _, rfl⟩, nofun⟩
  | key inner => exact (inKey inner).within fun _ => .key
  | value inner => exact (inValue inner).within fun _ => .value

/-- What occurs in a variadic tuple's shape is traced to one of its items. -/
theorem traced_variadic (each : ∀ s ∈ shapes, q.OccursIn s → ∃ d ∈ items, Traced scope q d)
    (h : q.OccursIn (.ofVariadic filled shapes)) : Traced scope q (.variadic items) := by
  unfold Shape.ofVariadic at h
  split at h
  · next s =>
    cases h with
    | here => exact .plain rfl nofun nofun nofun
    | list inner =>
      obtain ⟨d, hd, traced⟩ := each s (List.mem_singleton_self s) inner
      exact traced.within fun _ => .variadic hd
  · exact traced_blocked h

/-- What occurs in a union's shape is traced to one of its members. -/
theorem traced_union (each : ∀ s ∈ shapes, q.OccursIn s → ∃ d ∈ items, Traced scope q d)
    (h : q.OccursIn (.ofUnion filled shapes)) : Traced scope q (.union items) := by
  have member : ∀ s ∈ shapes, q.OccursIn (.optional s) → Traced scope q (.union items) := by
    intro s hs h
    cases h with
    | here => exact .plain rfl nofun nofun nofun
    | optional present =>
      obtain ⟨d, hd, traced⟩ := each s hs present
      exact traced.within fun _ => .union hd
  unfold Shape.ofUnion at h
  split at h
  · next a b s t =>
    split at h
    · exact member s (List.mem_cons_self ..) h
    · split at h
      · exact member t (List.mem_cons_of_mem _ (List.mem_cons_self ..)) h
      · exact traced_blocked h
  · exact traced_blocked h

/-- The fields of a record are traced without a scope. -/
theorem traced_ofRecord {name : String} {transparent : Bool}
    (names : shaped.map (·.1) = fields.map (·.1))
    (each : ∀ f ∈ shaped, q.OccursIn f.2 → ∃ g ∈ fields, Traced [] q g.2)
    (h : q.OccursIn (.ofRecord name fields transparent shaped)) :
    Traced scope q (.record name fields transparent) := by
  unfold Shape.ofRecord at h
  split at h
  · split at h
    · next field inner =>
      cases h with
      | here => exact .plain rfl nofun nofun nofun
      | wrapper wrapped =>
        obtain ⟨f, hf, traced⟩ := each _ (List.mem_singleton_self _) wrapped
        exact traced.closed fun _ => .record hf
    · exact traced_blocked h
  · next ordinary =>
    cases h with
    | here =>
      refine .here (comesFrom_fields names (fun _ _ _ _ _ => ?_) nofun nofun)
      rintro ⟨⟩
      exact ordinary rfl
    | record hf inner =>
      obtain ⟨f, hf, traced⟩ := each _ hf inner
      exact traced.closed fun _ => .record hf

/-- What is in a field of a template that is applied comes from the field, or from the argument that
a parameter in it is bound to. -/
theorem traced_applied {name : String} {params : List String} {ds : List Descriptor}
    (names : shaped.map (·.1) = fields.map (·.1))
    (each : ∀ f ∈ shaped, q.OccursIn f.2 →
      ∃ g ∈ fields, Traced (.ofArguments params ds shapes) q g.2)
    (arguments : ∀ s ∈ shapes, q.OccursIn s → ∃ d ∈ args, Traced scope q d)
    (h : q.OccursIn (.record name shaped)) :
    Traced scope q (.application (.template name params fields) args) := by
  cases h with
  | here => exact Or.inl ⟨_, .origin .here, comesFrom_fields names nofun nofun nofun⟩
  | record hf inner =>
    obtain ⟨f, hf, ⟨p, hp, comes⟩ | ⟨b, hb, occurs⟩⟩ := each _ hf inner
    · exact Or.inl ⟨p, .origin (.template hf hp), comes⟩
    · obtain ⟨d, hd, traced⟩ := arguments _ (mem_ofArguments hb).2 occurs
      exact traced.within fun _ => .argument hd

/-- A record that is applied to nothing is a record with its fields, transparent or not. -/
theorem traced_appliedRecord {name : String} {transparent : Bool}
    (names : shaped.map (·.1) = fields.map (·.1))
    (each : ∀ f ∈ shaped, q.OccursIn f.2 → ∃ g ∈ fields, Traced [] q g.2)
    (h : q.OccursIn (if transparent then
        .opened (.record name fields transparent) name shaped else .record name shaped)) :
    Traced scope q (.application (.record name fields transparent) args) := by
  have field {f : String × Shape} (hf : f ∈ shaped) (inner : q.OccursIn f.2) :
      Traced scope q (.application (.record name fields transparent) args) := by
    obtain ⟨f, hf, traced⟩ := each f hf inner
    exact traced.closed fun _ hp => .origin (.record hf hp)
  have whole (comes : q.ComesFrom (.record name fields transparent)) :
      Traced scope q (.application (.record name fields transparent) args) :=
    Or.inl ⟨_, .origin .here, comes⟩
  split at h
  · cases h with
    | here => exact whole (comesFrom_fields names nofun nofun nofun)
    | opened hf inner => exact field hf inner
  · next ordinary =>
    cases h with
    | here =>
      refine whole (comesFrom_fields names (fun _ _ _ _ _ => ?_) nofun nofun)
      rintro ⟨⟩
      exact ordinary rfl
    | record hf inner => exact field hf inner

end Nodes

mutual

/-- Every part of the shape in a scope comes from a part of the descriptor, or from the scope. -/
theorem traced_shapeIn (scope : Scope) {q : Shape} :
    ∀ d : Descriptor, q.OccursIn (d.shapeIn scope) → Traced scope q d
  | .scalar _, h | .temporal _, h | .foreign _, h => by
    rw [shapeIn] at h
    cases h
    exact .plain rfl nofun nofun nofun
  | .enum e, h => by
    rw [shapeIn] at h
    cases h
    exact .here ⟨List.nil_sublist _, nofun, nofun, fun _ => by rintro ⟨⟩; rfl⟩
  | .param _, h => traced_param h
  | .list element, h => by
    rw [shapeIn] at h
    cases h with
    | here => exact .plain rfl nofun nofun nofun
    | list inner => exact (traced_shapeIn scope element inner).within fun _ => .list
  | .tuple items, h => by
    rw [shapeIn] at h
    exact traced_tuple (traced_shapesIn scope items) h
  | .variadic items, h => by
    rw [shapeIn] at h
    exact traced_variadic (traced_shapesIn scope items) h
  | .mapping key value, h => by
    rw [shapeIn] at h
    exact traced_mapping (traced_shapeIn scope key) (traced_shapeIn scope value) h
  | .optional inner, h => by
    rw [shapeIn] at h
    cases h with
    | here => exact .plain rfl nofun nofun nofun
    | optional present => exact (traced_shapeIn scope inner present).within fun _ => .optional
  | .union members, h => by
    rw [shapeIn] at h
    exact traced_union (traced_shapesIn scope members) h
  | .record name fields transparent, h => by
    rw [shapeIn] at h
    exact traced_ofRecord (map_fst_fieldShapes _ _) (traced_fieldShapes [] fields) h
  | .template name params fields, h => by
    rw [shapeIn] at h
    cases h with
    | here => exact .here (comesFrom_fields (map_fst_fieldShapes _ _) nofun nofun nofun)
    | bareTemplate hf inner =>
      obtain ⟨f, hf, traced⟩ := traced_fieldShapes [] fields _ hf inner
      exact traced.closed fun _ => .template hf
  | .application (.template name params fields) args, h => by
    rw [shapeIn] at h
    split at h
    · exact traced_applied (map_fst_fieldShapes _ _) (traced_fieldShapes _ fields)
        (traced_shapesIn scope args) h
    · exact traced_blocked h
  | .application (.record name fields transparent) args, h => by
    rw [shapeIn] at h
    split at h
    · exact traced_appliedRecord (map_fst_fieldShapes _ _) (traced_fieldShapes [] fields) h
    · exact traced_blocked h
  | .application (.scalar _) _, h | .application (.temporal _) _, h
  | .application (.application _ _) _, h | .application (.param _) _, h
  | .application (.list _) _, h | .application (.tuple _) _, h
  | .application (.variadic _) _, h | .application (.mapping _ _) _, h
  | .application (.optional _) _, h | .application (.union _) _, h
  | .application (.enum _) _, h | .application (.foreign _) _, h => by
    simp only [shapeIn] at h
    exact traced_blocked h

/-- What occurs in one of the shapes of a list is traced to one of its descriptors. -/
theorem traced_shapesIn (scope : Scope) {q : Shape} :
    ∀ (ds : List Descriptor) (s : Shape), s ∈ shapesIn scope ds → q.OccursIn s →
      ∃ d ∈ ds, Traced scope q d
  | [], _, hs, _ => nomatch hs
  | d :: rest, s, hs, h => by
    rw [shapesIn] at hs
    rcases List.mem_cons.1 hs with rfl | hs
    · exact ⟨d, List.mem_cons_self .., traced_shapeIn scope d h⟩
    · obtain ⟨d', hd', traced⟩ := traced_shapesIn scope rest s hs h
      exact ⟨d', List.mem_cons_of_mem _ hd', traced⟩

/-- What occurs in a field's shape is traced to one of the fields. -/
theorem traced_fieldShapes (scope : Scope) {q : Shape} :
    ∀ (fields : List Field) (f : String × Shape), f ∈ fieldShapes scope fields →
      q.OccursIn f.2 → ∃ g ∈ fields, Traced scope q g.2
  | [], _, hf, _ => nomatch hf
  | g :: rest, f, hf, h => by
    rw [fieldShapes] at hf
    rcases List.mem_cons.1 hf with rfl | hf
    · exact ⟨g, List.mem_cons_self .., traced_shapeIn scope g.2 h⟩
    · obtain ⟨g', hg', traced⟩ := traced_fieldShapes scope rest f hf h
      exact ⟨g', List.mem_cons_of_mem _ hg', traced⟩

end

/-- **Every part of a shape comes from a part of the descriptor.** -/
theorem exists_part_of_shape {d : Descriptor} {q : Shape} (h : q.OccursIn d.shape) :
    ∃ p, p.OccursIn d ∧ q.ComesFrom p :=
  (traced_shapeIn [] d h).resolve_right fun ⟨_, hb, _⟩ => nomatch hb

end Descriptor

end RpcBridge
