import Mathlib.Logic.Relation
import RpcBridge.Proofs.Client.Changes
import RpcBridge.Proofs.Client.Supported
import RpcBridge.Proofs.Descriptor.Opening

/-!
# Proofs/Client/Reaches — what there is to convert in a type

A value of a type is made of values of other types: those that a container holds, those of the
fields of a record, and those of the fields of a template with the arguments put in.  What is never
reached that way, such as an argument that no field mentions, has no part in a conversion.

Generated code transforms exactly if it comes across something that travels in another form than it
is held in: a date or an instant, and on the way back also a value that may be absent, which travels
as `null` and is held as `undefined`.  Where it comes across nothing of the kind, it does not walk a
container but copies it whole.

* `Descriptor.Opens`, `Descriptor.Reaches` — what a value of a type is made of;
* `changes_iff_reaches` — a shape changes exactly if there is something to convert;
* `transforms_iff_reaches` — the same of generated code, and what is copied whole.
-/

namespace RpcBridge

open Client

/-! ## What is reached -/

/-- All fields of a supported shape that is opened are supported: there is just one. -/
theorem Shape.Supported.of_opened {origin : Descriptor} {name : String}
    {fields : List (String × Shape)} (h : (Shape.opened origin name fields).Supported) :
    ∀ f ∈ fields, f.2.Supported := by
  cases h with
  | opened wrapped => exact List.forall_mem_singleton.2 wrapped

namespace Descriptor

/-- One type that values of a type are made of. -/
inductive Opens : Descriptor → Descriptor → Prop where
  | list (element : Descriptor) : Opens (.list element) element
  | variadic {items : List Descriptor} {item : Descriptor}
    (single : variadicItem items = .ok item) : Opens (.variadic items) item
  | tuple {items : List Descriptor} {d : Descriptor} (hd : d ∈ items) : Opens (.tuple items) d
  | key (key value : Descriptor) : Opens (.mapping key value) key
  | value (key value : Descriptor) : Opens (.mapping key value) value
  | optional (inner : Descriptor) : Opens (.optional inner) inner
  | union {members : List Descriptor} {inner : Descriptor}
    (member : optionalMember members = .ok inner) : Opens (.union members) inner
  /-- A transparent record is made of its one field, like any other. -/
  | record {name : String} {fields : List Field} {transparent : Bool} {f : Field}
    (hf : f ∈ fields) : Opens (.record name fields transparent) f.2
  /-- The arguments have been put into the fields. -/
  | application {origin : Descriptor} {args : List Descriptor} {i : Instance} {f : Field}
    (made : instantiate origin args = .ok i) (hf : f ∈ i.fields) :
    Opens (.application origin args) f.2

/-- A type whose values travel in another form than they are held in. -/
inductive Converts (direction : Direction) : Descriptor → Prop where
  | temporal (kind : TemporalKind) : Converts direction (.temporal kind)
  | optional (back : direction = .back) (inner : Descriptor) : Converts direction (.optional inner)
  | union (back : direction = .back) {members : List Descriptor} {inner : Descriptor}
    (member : optionalMember members = .ok inner) : Converts direction (.union members)

/-- A type that leads to something to convert. -/
def Reaches (direction : Direction) (d : Descriptor) : Prop :=
  ∃ leaf, Relation.ReflTransGen Opens d leaf ∧ leaf.Converts direction

section Reaching

variable {direction : Direction} {d e : Descriptor}

/-- What is reached is reached at once or by one step first. -/
theorem reaches_iff :
    d.Reaches direction ↔ d.Converts direction ∨ ∃ e, d.Opens e ∧ e.Reaches direction := by
  constructor
  · rintro ⟨leaf, steps, converts⟩
    rcases steps.cases_head with rfl | ⟨e, opens, steps⟩
    · exact .inl converts
    · exact .inr ⟨e, opens, leaf, steps, converts⟩
  · rintro (converts | ⟨e, opens, leaf, steps, converts⟩)
    · exact ⟨d, .refl, converts⟩
    · exact ⟨leaf, .head opens steps, converts⟩

theorem Opens.reaches (opens : d.Opens e) (h : e.Reaches direction) : d.Reaches direction :=
  reaches_iff.2 (.inr ⟨e, opens, h⟩)

theorem not_reaches_scalar (kind : ScalarKind) : ¬(scalar kind).Reaches direction := by
  intro h
  obtain converts | ⟨e, opens, -⟩ := reaches_iff.1 h
  · cases converts
  · cases opens

theorem not_reaches_enum (e : EnumDef) : ¬(Descriptor.enum e).Reaches direction := by
  intro h
  obtain converts | ⟨e, opens, -⟩ := reaches_iff.1 h
  · cases converts
  · cases opens

theorem reaches_temporal (kind : TemporalKind) : (temporal kind).Reaches direction :=
  reaches_iff.2 (.inl (.temporal kind))

theorem reaches_list {element : Descriptor} :
    (list element).Reaches direction ↔ element.Reaches direction := by
  refine ⟨fun h => ?_, (Opens.list element).reaches⟩
  obtain converts | ⟨e, opens, reached⟩ := reaches_iff.1 h
  · cases converts
  · cases opens
    exact reached

theorem reaches_variadic {items : List Descriptor} {item : Descriptor}
    (single : variadicItem items = .ok item) :
    (variadic items).Reaches direction ↔ item.Reaches direction := by
  refine ⟨fun h => ?_, (Opens.variadic single).reaches⟩
  obtain converts | ⟨e, opens, reached⟩ := reaches_iff.1 h
  · cases converts
  · cases opens with
    | variadic found =>
      cases single.symm.trans found
      exact reached

theorem reaches_tuple {items : List Descriptor} :
    (tuple items).Reaches direction ↔ ∃ d ∈ items, d.Reaches direction := by
  constructor
  · intro h
    obtain converts | ⟨e, opens, reached⟩ := reaches_iff.1 h
    · cases converts
    · cases opens with
      | tuple hd => exact ⟨e, hd, reached⟩
  · rintro ⟨d, hd, reached⟩
    exact (Opens.tuple hd).reaches reached

theorem reaches_mapping {key value : Descriptor} :
    (mapping key value).Reaches direction ↔ key.Reaches direction ∨ value.Reaches direction := by
  constructor
  · intro h
    obtain converts | ⟨e, opens, reached⟩ := reaches_iff.1 h
    · cases converts
    · cases opens with
      | key => exact .inl reached
      | value => exact .inr reached
  · rintro (reached | reached)
    · exact (Opens.key key value).reaches reached
    · exact (Opens.value key value).reaches reached

theorem reaches_optional {inner : Descriptor} :
    (optional inner).Reaches direction ↔ direction = .back ∨ inner.Reaches direction := by
  constructor
  · intro h
    obtain converts | ⟨e, opens, reached⟩ := reaches_iff.1 h
    · cases converts with
      | optional back => exact .inl back
    · cases opens
      exact .inr reached
  · rintro (back | reached)
    · exact reaches_iff.2 (.inl (.optional back inner))
    · exact (Opens.optional inner).reaches reached

theorem reaches_union {members : List Descriptor} {inner : Descriptor}
    (member : optionalMember members = .ok inner) :
    (union members).Reaches direction ↔ direction = .back ∨ inner.Reaches direction := by
  constructor
  · intro h
    obtain converts | ⟨e, opens, reached⟩ := reaches_iff.1 h
    · cases converts with
      | union back => exact .inl back
    · cases opens with
      | union found =>
        cases member.symm.trans found
        exact .inr reached
  · rintro (back | reached)
    · exact reaches_iff.2 (.inl (.union back member))
    · exact (Opens.union member).reaches reached

theorem reaches_record {name : String} {fields : List Field} {transparent : Bool} :
    (record name fields transparent).Reaches direction ↔ ∃ f ∈ fields, f.2.Reaches direction := by
  constructor
  · intro h
    obtain converts | ⟨e, opens, reached⟩ := reaches_iff.1 h
    · cases converts
    · cases opens with
      | record hf => exact ⟨_, hf, reached⟩
  · rintro ⟨f, hf, reached⟩
    exact (Opens.record hf).reaches reached

theorem reaches_application {origin : Descriptor} {args : List Descriptor} {i : Instance}
    (made : instantiate origin args = .ok i) :
    (application origin args).Reaches direction ↔ ∃ f ∈ i.fields, f.2.Reaches direction := by
  constructor
  · intro h
    obtain converts | ⟨e, opens, reached⟩ := reaches_iff.1 h
    · cases converts
    · cases opens with
      | application found hf =>
        cases made.symm.trans found
        exact ⟨_, hf, reached⟩
  · rintro ⟨f, hf, reached⟩
    exact (Opens.application made hf).reaches reached

end Reaching

/-! ## What changes -/

section Changing

variable {direction : Direction} {d : Descriptor}

theorem anyField_iff_reaches {fields : List Field}
    (each : ∀ f ∈ fields, f.2.shape.Supported →
      (f.2.shape.changes direction = true ↔ f.2.Reaches direction))
    (supported : ∀ f ∈ fieldShapes [] fields, f.2.Supported) :
    Shape.anyField direction (fieldShapes [] fields) = true ↔
      ∃ f ∈ fields, f.2.Reaches direction := by
  simp only [anyField_eq_any, List.any_eq_true, fieldShapes_eq_map, List.mem_map,
    exists_exists_and_eq_and]
  exact exists_congr fun f => and_congr_right fun hf => each f hf (supported _ (mem_fieldShapes hf))

/-- **A supported shape changes exactly if there is something to convert.** -/
theorem changes_iff_reaches (supported : d.shape.Supported) :
    d.shape.changes direction = true ↔ d.Reaches direction := by
  -- along the abbreviations, which a value of the type follows
  induction d using opening with
  | scalar kind => exact iff_of_false Bool.false_ne_true (not_reaches_scalar kind)
  | enum e => exact iff_of_false Bool.false_ne_true (not_reaches_enum e)
  | temporal kind => exact iff_of_true rfl (reaches_temporal kind)
  | list element ih =>
    cases supported with
    | list inner => exact (ih inner).trans reaches_list.symm
  | variadic items item single ih =>
    rw [shape_variadic single] at supported ⊢
    cases supported with
    | list inner => exact (ih inner).trans (reaches_variadic single).symm
  | tuple items ih =>
    cases supported with
    | tuple inner =>
      rw [reaches_tuple, shape, shapeIn, Shape.changes, anyItem_eq_any, shapesIn_eq_map,
        List.any_map, List.any_eq_true]
      exact exists_congr fun d => and_congr_right fun hd => ih d hd (inner _ (mem_shapesIn hd))
  | mapping key value ihKey ihValue =>
    cases supported with
    | mapping keys values =>
      rw [reaches_mapping, ← ihKey keys, ← ihValue values, ← Bool.or_eq_true]
      rfl
  | optional inner ih =>
    cases supported with
    | optional present =>
      rw [reaches_optional, ← ih present, shape, shapeIn, Shape.changes, Bool.or_eq_true,
        decide_eq_true_iff]
      rfl
  | union members inner member ih =>
    rw [shape_union member] at supported ⊢
    cases supported with
    | optional present =>
      rw [reaches_union member, ← ih present, Shape.changes, Bool.or_eq_true, decide_eq_true_iff]
  | record name fields transparent wraps ih =>
    rw [shape_record wraps] at supported ⊢
    cases supported with
    | record inner => exact (anyField_iff_reaches ih inner).trans reaches_record.symm
  | wrapper name fields transparent field wraps ih =>
    rw [shape_wrapper wraps] at supported ⊢
    obtain rfl := eq_singleton_of_wrappedField wraps
    cases supported with
    | wrapper wrapped =>
      rw [reaches_record, Shape.changes, ih wrapped]
      simp only [List.mem_singleton, exists_eq_left]
  | template => cases supported
  | application origin args i made ih =>
    rw [reaches_application made]
    rcases shape_application made with record | opened
    · rw [record] at supported ⊢
      cases supported with
      | record inner => exact anyField_iff_reaches ih inner
    · rw [opened] at supported ⊢
      exact anyField_iff_reaches ih supported.of_opened
  | blocked d e obstacle blocks =>
    rw [blocks] at supported
    cases supported

end Changing

/-- A container: a list, a tuple of any length or a dictionary, and on the way out also a tuple. -/
def IsContainer (direction : Direction) : Descriptor → Prop
  | .list _ | .variadic _ | .mapping _ _ => True
  | .tuple _ => direction = .out
  | _ => False

end Descriptor

/-! ## Generated code -/

namespace Client

variable {direction : Direction} {d : Descriptor} {source target : Place} {n m : Nat} {code : Code}

/-- A container that there is nothing to convert in is copied whole. -/
theorem copy_of_not_transforms (container : d.IsContainer direction)
    (h : Yields (convert direction d.shape source target) n code m)
    (unchanged : code.transforms = false) : code = .copy source target := by
  cases d with
  | list element => exact copied_of_list h unchanged
  | variadic items =>
    cases single : Descriptor.variadicItem items with
    | error e =>
      rw [Descriptor.shape_variadic_error single] at h
      exact (convert_blocked h).elim
    | ok item =>
      rw [Descriptor.shape_variadic single] at h
      exact copied_of_list h unchanged
  | mapping key value => exact copied_of_mapping h unchanged
  | tuple items =>
    obtain rfl : direction = .out := container
    exact copied_of_tuple h unchanged
  | _ => exact container.elim

theorem lines_copy (source target : Place) :
    (Code.copy source target).lines = .copy source.toText target.toText := by
  unfold Code.copy Lines.copy
  split <;> rfl

/-- **When generated code transforms**: exactly if its type leads to something to convert.  A
container whose code does not transform is copied whole. -/
theorem transforms_iff_reaches {r next : Resolver}
    (h : Yields (Resolver.code direction d source target) r code next) :
    (code.transforms = true ↔ d.Reaches direction) ∧
      (code.transforms = false → d.IsContainer direction →
        code.lines = .copy source.toText target.toText) := by
  have generated := yields_generating h
  refine ⟨?_, fun unchanged container => ?_⟩
  · rw [transforms_eq generated]
    exact Descriptor.changes_iff_reaches (supported_of_convert generated)
  · rw [copy_of_not_transforms container generated unchanged]
    exact lines_copy source target

/-- A list of pages of names that may be absent.  A second parameter, for which dates are given, is
mentioned in no field.  On the way out there is nothing to convert, and the list is copied whole; on
the way back the names are. -/
theorem transforms_iff_reaches_pages :
    ∃ d out back next next', d = Descriptor.list (.application
        (.template "Page" ["T", "U"] [("first", .param "T")])
        [.optional (.scalar .string), .temporal .date]) ∧
      Yields (Resolver.code .out d Caller.params Caller.preparedParams) .empty out next ∧
      ¬d.Reaches .out ∧ out.lines = ⟨["preparedParams = params"], false⟩ ∧
      Yields (Resolver.code .back d Caller.data Caller.data) .empty back next' ∧
      d.Reaches .back := by
  obtain ⟨d, hd⟩ : ∃ d, d = Descriptor.list (.application
      (.template "Page" ["T", "U"] [("first", .param "T")])
      [.optional (.scalar .string), .temporal .date]) := ⟨_, rfl⟩
  obtain ⟨out, next, prepared, unchanged⟩ : ∃ out next,
      Yields (Resolver.code .out d Caller.params Caller.preparedParams) .empty out next ∧
      out.transforms = false := by
    rw [hd]
    exact ⟨_, _, rfl, rfl⟩
  obtain ⟨back, next', restored, changed⟩ : ∃ back next',
      Yields (Resolver.code .back d Caller.data Caller.data) .empty back next' ∧
      back.transforms = true := by
    rw [hd]
    exact ⟨_, _, rfl, rfl⟩
  have container : d.IsContainer .out := by
    rw [hd]
    trivial
  obtain ⟨exactly, copied⟩ := transforms_iff_reaches prepared
  refine ⟨d, out, back, next, next', hd, prepared, ?_, copied unchanged container, restored,
    (transforms_iff_reaches restored).1.1 changed⟩
  rw [← exactly, unchanged]
  exact Bool.false_ne_true

end Client

end RpcBridge
