import Mathlib.Data.List.Nodup
import RpcBridge.Proofs.Calendar.Reading
import RpcBridge.Proofs.Descriptor.Opening
import RpcBridge.Proofs.Json.Entries
import RpcBridge.Proofs.Number.Nearest
import RpcBridge.Proofs.Wire.Read

/-!
# Proofs/Wire/Typed — what is read has the type it is read for

A value has the type of a descriptor if it is of the kind that the descriptor asks for, all the way
down (`Descriptor.Holds`).  The relation is said along descriptors, with the fields of an
application those of the record it stands for; the reader follows shapes.  What has a shape has the
type of every descriptor that comes to the shape (`holds_of_shape`).

* `Shape.holds_of_decode` — what is read for a shape has the shape;
* `Descriptor.holds_of_decode` — what is read for a descriptor has its type.
-/

namespace RpcBridge

/-! ## The values of a type -/

/-- The values of a scalar type. -/
inductive ScalarKind.Holds : ScalarKind → Value → Prop where
  | string (s : String) : Holds .string (.string s)
  | bool (b : Bool) : Holds .bool (.bool b)
  | int (n : Int64) : Holds .int (.int n)
  | float (x : Finite) : Holds .float (.float (.finite x))
  | any (j : Json) : Holds .any (.raw j)
  | anyList (items : List Json) : Holds .anyList (.raw (.array items))
  | none : Holds .none .null

/-- The values of a temporal type. -/
inductive TemporalKind.Holds : TemporalKind → Value → Prop where
  | date (d : Date) : Holds .date (.date d)
  | dateTime {i : Instant} (valid : i.isValid = true) : Holds .dateTime (.dateTime i)

/-- The values of an enum: its members, under its name. -/
def EnumDef.Holds (e : EnumDef) (v : Value) : Prop := ∃ m ∈ e.members, v = .enum e.name m.name

/-- The values of a descriptor's type. -/
inductive Descriptor.Holds : Descriptor → Value → Prop where
  | scalar {kind : ScalarKind} {v : Value} (h : kind.Holds v) : Holds (.scalar kind) v
  | temporal {kind : TemporalKind} {v : Value} (h : kind.Holds v) : Holds (.temporal kind) v
  | enum {e : EnumDef} {v : Value} (h : e.Holds v) : Holds (.enum e) v
  | list {element : Descriptor} {vs : List Value} (each : ∀ v ∈ vs, Holds element v) :
    Holds (.list element) (.list vs)
  | variadic {items : List Descriptor} {item : Descriptor} {vs : List Value}
      (single : variadicItem items = .ok item) (each : ∀ v ∈ vs, Holds item v) :
    Holds (.variadic items) (.list vs)
  | tuple {items : List Descriptor} {vs : List Value} (each : List.Forall₂ Holds items vs) :
    Holds (.tuple items) (.list vs)
  | mapping {key value : Descriptor} {entries : List (Value × Value)}
      (keys : ∀ e ∈ entries, Holds key e.1) (values : ∀ e ∈ entries, Holds value e.2) :
    Holds (.mapping key value) (.map entries)
  | absent (inner : Descriptor) : Holds (.optional inner) .null
  | present {inner : Descriptor} {v : Value} (h : Holds inner v) : Holds (.optional inner) v
  | unionAbsent {members : List Descriptor} {inner : Descriptor}
      (member : optionalMember members = .ok inner) : Holds (.union members) .null
  | unionPresent {members : List Descriptor} {inner : Descriptor} {v : Value}
      (member : optionalMember members = .ok inner) (h : Holds inner v) : Holds (.union members) v
  /-- A record has exactly the declared fields, each of its type. -/
  | record {name : String} {fields : List Field} {transparent : Bool} {vs : List (String × Value)}
      (ordinary : wrappedField name fields transparent = .ok none)
      (names : (vs.map (·.1)).Perm (fields.map (·.1)))
      (each : ∀ f ∈ fields, ∀ v, (f.1, v) ∈ vs → Holds f.2 v) :
    Holds (.record name fields transparent) (.record name vs)
  | wrapper {name : String} {fields : List Field} {transparent : Bool} {field : Field} {v : Value}
      (wraps : wrappedField name fields transparent = .ok (some field)) (h : Holds field.2 v) :
    Holds (.record name fields transparent) v
  | template {name : String} {params : List String} {fields : List Field}
      {vs : List (String × Value)} (names : (vs.map (·.1)).Perm (fields.map (·.1)))
      (each : ∀ f ∈ fields, ∀ v, (f.1, v) ∈ vs → Holds f.2 v) :
    Holds (.template name params fields) (.record name vs)
  /-- The fields of an application are those of the template after the arguments have been put
  in. -/
  | application {origin : Descriptor} {args : List Descriptor} {i : Instance}
      {vs : List (String × Value)} (instance_eq : instantiate origin args = .ok i)
      (names : (vs.map (·.1)).Perm (i.fields.map (·.1)))
      (each : ∀ f ∈ i.fields, ∀ v, (f.1, v) ∈ vs → Holds f.2 v) :
    Holds (.application origin args) (.record i.name vs)

/-- The values of a shape. -/
inductive Shape.Holds : Shape → Value → Prop where
  | scalar {kind : ScalarKind} {v : Value} (h : kind.Holds v) : Holds (.scalar kind) v
  | temporal {kind : TemporalKind} {v : Value} (h : kind.Holds v) : Holds (.temporal kind) v
  | enum {e : EnumDef} {v : Value} (h : e.Holds v) : Holds (.enum e) v
  | list {element : Shape} {vs : List Value} (each : ∀ v ∈ vs, Holds element v) :
    Holds (.list element) (.list vs)
  | tuple {items : List Shape} {vs : List Value} (each : List.Forall₂ Holds items vs) :
    Holds (.tuple items) (.list vs)
  | mapping {key value : Shape} {entries : List (Value × Value)}
      (keys : ∀ e ∈ entries, Holds key e.1) (values : ∀ e ∈ entries, Holds value e.2) :
    Holds (.mapping key value) (.map entries)
  | absent (inner : Shape) : Holds (.optional inner) .null
  /-- An optional value that is there is not the null of an untyped value. -/
  | present {inner : Shape} {v : Value} (notRaw : v ≠ .raw .null) (h : Holds inner v) :
    Holds (.optional inner) v
  | record {name : String} {fields : List (String × Shape)} {vs : List (String × Value)}
      (names : (vs.map (·.1)).Perm (fields.map (·.1)))
      (each : ∀ f ∈ fields, ∀ v, (f.1, v) ∈ vs → Holds f.2 v) :
    Holds (.record name fields) (.record name vs)
  | bareTemplate {origin : Descriptor} {name : String} {fields : List (String × Shape)}
      {vs : List (String × Value)} (names : (vs.map (·.1)).Perm (fields.map (·.1)))
      (each : ∀ f ∈ fields, ∀ v, (f.1, v) ∈ vs → Holds f.2 v) :
    Holds (.bareTemplate origin name fields) (.record name vs)
  | opened {origin : Descriptor} {name : String} {fields : List (String × Shape)}
      {vs : List (String × Value)} (names : (vs.map (·.1)).Perm (fields.map (·.1)))
      (each : ∀ f ∈ fields, ∀ v, (f.1, v) ∈ vs → Holds f.2 v) :
    Holds (.opened origin name fields) (.record name vs)
  | wrapper {name field : String} {inner : Shape} {v : Value} (h : Holds inner v) :
    Holds (.wrapper name field inner) v

/-! ## Reading a shape -/

/-- A JSON number is finite. -/
theorem JsonNumber.exists_finite (n : JsonNumber) : ∃ x, n.toDouble = .finite x := by
  cases n with
  | real x => exact ⟨x, rfl⟩
  | whole n =>
    have low := n.lower
    have high := n.upper
    exact Number.exists_finite_ofInt (by omega)

namespace Shape

open Wire

theorem holds_of_decodeScalar {kind : ScalarKind} {j : Json} {v : Value}
    (h : decodeScalar kind j = .ok v) : kind.Holds v := by
  unfold decodeScalar at h
  split at h
  · cases h
    exact .string _
  · cases h
    exact .bool _
  · split at h
    · cases h
      exact .int _
    · cases h
  · next n =>
    cases h
    obtain ⟨x, finite⟩ : ∃ x, n.toDouble = .finite x := JsonNumber.exists_finite n
    rw [finite]
    exact .float x
  · cases h
    exact .any _
  · cases h
    exact .anyList _
  · cases h
    exact .none
  · cases h

theorem holds_of_decodeTemporal {kind : TemporalKind} {j : Json} {v : Value}
    (h : decodeTemporal kind j = .ok v) : kind.Holds v := by
  unfold decodeTemporal at h
  split at h
  · next s =>
    split at h
    · next w read =>
      cases h
      cases kind with
      | date =>
        obtain ⟨d, -, rfl⟩ := Option.map_eq_some_iff.1 read
        exact .date d
      | dateTime =>
        obtain ⟨i, found, rfl⟩ := Option.map_eq_some_iff.1 read
        exact .dateTime (Instant.isValid_of_ofText? found)
    · cases h
  · cases h

theorem holds_of_decodeEnum {e : EnumDef} {j : Json} {v : Value} (h : decodeEnum e j = .ok v) :
    e.Holds v := by
  unfold decodeEnum at h
  split at h
  · next m found =>
    cases h
    exact ⟨m, List.mem_of_find?_eq_some found, rfl⟩
  · cases h

theorem holds_null {s : Shape} (allowed : s.allowsAbsence = true) : s.Holds .null := by
  unfold allowsAbsence at allowed
  split at allowed
  · exact .absent _
  · exact .scalar .none
  · cases allowed

/-- **A record is read with exactly the declared fields**, if their names are distinct: each of
them is what the member of its name is read as, or null. -/
theorem fields_of_record {s : Shape} {name : String} {fields : List (String × Shape)} {j : Json}
    {v : Value} {R : Shape → Value → Prop} (reads : ReadsFields s name fields)
    (distinct : (fields.map (·.1)).Nodup)
    (each : ∀ f ∈ fields, ∀ m, j.member? f.1 = some m → ∀ {v}, decode f.2 m = .ok v → R f.2 v)
    (absent : ∀ f ∈ fields, f.2.allowsAbsence = true → R f.2 .null) (h : decode s j = .ok v) :
    ∃ vs, v = .record name vs ∧ (vs.map (·.1)).Perm (fields.map (·.1)) ∧
      ∀ f ∈ fields, ∀ v, (f.1, v) ∈ vs → R f.2 v := by
  obtain ⟨members, vs, rfl, rfl, all⟩ := read_record reads h
  have names := names_of_fields all
  have entered := @Value.perm_enterFields vs [] (names ▸ distinct)
    fun _ _ => List.not_mem_nil
  rw [List.append_nil] at entered
  refine ⟨_, rfl, names ▸ entered.map (·.1), fun f hf v hv => ?_⟩
  obtain ⟨g, hg, same, read⟩ := exists_of_forall₂ all (entered.mem_iff.1 hv)
  obtain rfl : g = f := List.inj_on_of_nodup_map distinct hg hf same.symm
  rcases read with ⟨m, there, read⟩ | ⟨-, allowed, rfl⟩
  · exact each g hg m there read
  · exact absent g hg allowed

theorem holds_of_record {s : Shape} {name : String} {fields : List (String × Shape)} {j : Json}
    {v : Value} (reads : ReadsFields s name fields)
    (distinct : ∀ q : Shape, q.OccursIn s → q.fieldNames.Nodup) (h : decode s j = .ok v)
    (each : ∀ f ∈ fields, ∀ {j v}, (∀ q : Shape, q.OccursIn f.2 → q.fieldNames.Nodup) →
      decode f.2 j = .ok v → f.2.Holds v) : s.Holds v := by
  obtain ⟨vs, rfl, names, all⟩ := fields_of_record reads (reads.fieldNames ▸ distinct s .here)
    (fun f hf _ _ _ => each f hf fun q hq => distinct q (reads.occursIn hf hq))
    (fun _ _ => holds_null) h
  cases reads with
  | record => exact .record names all
  | bareTemplate => exact .bareTemplate names all
  | opened => exact .opened names all

/-- **What is read for a shape has the shape.** -/
theorem holds_of_decode {s : Shape} {j : Json} {v : Value}
    (distinct : ∀ q : Shape, q.OccursIn s → q.fieldNames.Nodup) (h : decode s j = .ok v) :
    s.Holds v := by
  induction s generalizing j v with
  | scalar kind =>
    rw [decode] at h
    exact .scalar (holds_of_decodeScalar h)
  | temporal kind =>
    rw [decode] at h
    exact .temporal (holds_of_decodeTemporal h)
  | enum e =>
    rw [decode] at h
    exact .enum (holds_of_decodeEnum h)
  | list element ih =>
    obtain ⟨js, vs, rfl, rfl, all⟩ := read_list h
    refine .list fun v hv => ?_
    obtain ⟨j, -, read⟩ := exists_of_forall₂ all hv
    exact ih (fun q hq => distinct q (.list hq)) read
  | tuple items ih =>
    obtain ⟨js, vs, rfl, rfl, length, all⟩ := read_tuple h
    refine .tuple (forall₂_decodeItems length all fun s hs j _ v read => ?_)
    exact ih s hs (fun q hq => distinct q (.tuple hs hq)) read
  | mapping key value ihKey ihValue =>
    obtain ⟨members, entries, rfl, rfl, all⟩ := read_mapping h
    refine .mapping (fun e he => ?_) fun e he => ?_
    · obtain ⟨m, -, read, -⟩ := exists_of_forall₂ all he
      obtain ⟨j, -, read⟩ := bind_eq_ok.1 read
      exact ihKey (fun q hq => distinct q (.key hq)) read
    · obtain ⟨m, -, -, read⟩ := exists_of_forall₂ all he
      exact ihValue (fun q hq => distinct q (.value hq)) read
  | optional inner ih =>
    by_cases null : j = .null
    · subst null
      rw [decode] at h
      cases h
      exact .absent inner
    · rw [decode_optional null] at h
      refine .present ?_ (ih (fun q hq => distinct q (.optional hq)) h)
      rintro rfl
      exact null (read_raw h).symm
  | record name fields ih | bareTemplate _ name fields ih | opened _ name fields ih =>
    exact holds_of_record (by constructor) distinct h ih
  | wrapper name field inner ih =>
    rw [decode] at h
    exact .wrapper (ih (fun q hq => distinct q (.wrapper hq)) h)
  | blocked d obstacle =>
    rw [decode] at h
    cases h

end Shape

/-! ## From shapes to descriptors -/

namespace Descriptor

theorem forall₂_holds {ds : List Descriptor} {vs : List Value}
    (h : List.Forall₂ Shape.Holds (shapesIn [] ds) vs)
    (each : ∀ d ∈ ds, ∀ v, d.shape.Holds v → d.Holds v) : List.Forall₂ Holds ds vs := by
  induction ds generalizing vs with
  | nil =>
    rw [shapesIn] at h
    cases h
    exact .nil
  | cons d rest ih =>
    rw [shapesIn] at h
    rw [List.forall_mem_cons] at each
    cases h with
    | cons first others => exact .cons (each.1 _ first) (ih others each.2)

/-- The fields of a record of shapes are those of the descriptors behind it. -/
theorem fields_of_shapes {fields : List Field} {vs : List (String × Value)}
    (names : (vs.map (·.1)).Perm ((fieldShapes [] fields).map (·.1)))
    (each : ∀ f ∈ fieldShapes [] fields, ∀ v, (f.1, v) ∈ vs → f.2.Holds v)
    (ih : ∀ f ∈ fields, ∀ v, f.2.shape.Holds v → f.2.Holds v) :
    (vs.map (·.1)).Perm (fields.map (·.1)) ∧ ∀ f ∈ fields, ∀ v, (f.1, v) ∈ vs → f.2.Holds v :=
  ⟨map_fst_fieldShapes [] fields ▸ names,
    fun f hf v hv => ih f hf v (each _ (mem_fieldShapes hf) v hv)⟩

/-- **What has the shape of a descriptor has its type.** -/
theorem holds_of_shape {d : Descriptor} {v : Value} (h : d.shape.Holds v) : d.Holds v := by
  induction d using opening generalizing v with
  | scalar kind =>
    cases h with
    | scalar h => exact .scalar h
  | temporal kind =>
    cases h with
    | temporal h => exact .temporal h
  | enum e =>
    cases h with
    | enum h => exact .enum h
  | list element ih =>
    cases h with
    | list each => exact .list fun v hv => ih (each v hv)
  | variadic items item single ih =>
    rw [shape_variadic single] at h
    cases h with
    | list each => exact .variadic single fun v hv => ih (each v hv)
  | tuple items ih =>
    cases h with
    | tuple each => exact .tuple (forall₂_holds each fun d hd _ => ih d hd)
  | mapping key value ihKey ihValue =>
    cases h with
    | mapping keys values =>
      exact .mapping (fun e he => ihKey (keys e he)) fun e he => ihValue (values e he)
  | optional inner ih =>
    cases h with
    | absent => exact .absent inner
    | present _ h => exact .present (ih h)
  | union members inner member ih =>
    rw [shape_union member] at h
    cases h with
    | absent => exact .unionAbsent member
    | present _ h => exact .unionPresent member (ih h)
  | record name fields transparent wraps ih =>
    rw [shape_record wraps] at h
    cases h with
    | record names each =>
      obtain ⟨names, each⟩ := fields_of_shapes names each fun f hf _ => ih f hf
      exact .record wraps names each
  | wrapper name fields transparent field wraps ih =>
    rw [shape_wrapper wraps] at h
    cases h with
    | wrapper h => exact .wrapper wraps (ih h)
  | template name params fields ih =>
    cases h with
    | bareTemplate names each =>
      obtain ⟨names, each⟩ := fields_of_shapes names each fun f hf _ => ih f hf
      exact .template names each
  | application origin args i instance_eq ih =>
    rcases shape_application instance_eq with record | opened
    · rw [record] at h
      cases h with
      | record names each =>
        obtain ⟨names, each⟩ := fields_of_shapes names each fun f hf _ => ih f hf
        exact .application instance_eq names each
    · rw [opened] at h
      cases h with
      | opened names each =>
        obtain ⟨names, each⟩ := fields_of_shapes names each fun f hf _ => ih f hf
        exact .application instance_eq names each
  | blocked d e obstacle shape_eq =>
    rw [shape_eq] at h
    cases h

/-- **What is read for a descriptor has its type**, if the fields of each of its records have
distinct names. -/
theorem holds_of_decode {d : Descriptor} {j : Json} {v : Value}
    (distinct : d.Distinct) (h : d.decode j = .ok v) : d.Holds v := by
  refine holds_of_shape (Shape.holds_of_decode (fun q hq => ?_) h)
  obtain ⟨p, hp, comes⟩ := exists_part_of_shape hq
  exact (distinct p hp).sublist comes.names

end Descriptor

end RpcBridge
