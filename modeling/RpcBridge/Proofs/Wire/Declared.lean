import RpcBridge.Proofs.Descriptor.Opening
import RpcBridge.Proofs.Wire.Missing

/-!
# Proofs/Wire/Declared — only what is declared is read

A record is read field by field, in the order of its declaration: each field looks its own member
up, and nothing looks at the others.  So it makes no difference in which order the members of an
object stand, nor which other members there are, neither for the value nor for the first of several
errors.

* `Descriptor.Agree` — JSON values that differ only in what is not declared;
* `Descriptor.Agree.of_members` — other members, and another order;
* `Descriptor.decode_of_agree` — values that agree are read alike.
-/

namespace RpcBridge

/-! ## Walks over values that are read alike -/

/-- Two lists whose items are read alike, one by one, are read alike. -/
theorem Wired.items_congr {α β : Type} {item : α → Wired β} {as bs : List α}
    (length : as.length = bs.length) (each : ∀ p ∈ as.zip bs, item p.1 = item p.2) (start : Nat) :
    items item start as = items item start bs := by
  induction as generalizing bs start with
  | nil => rw [List.length_eq_zero_iff.1 length.symm]
  | cons a rest ih =>
    cases bs with
    | nil => cases length
    | cons b bs =>
      rw [List.zip_cons_cons, List.forall_mem_cons] at each
      rw [items_cons, items_cons, each.1, ih (Nat.succ.inj length) each.2]

namespace Wire

theorem decodeItems_congr {items : List Shape} {js ks : List Json}
    (length : js.length = ks.length)
    (each : ∀ t ∈ items.zip (js.zip ks), decode t.1 t.2.1 = decode t.1 t.2.2) (start : Nat) :
    decodeItems items start js = decodeItems items start ks := by
  induction items generalizing js ks start with
  | nil => simp only [decodeItems]
  | cons s rest ih =>
    cases js with
    | nil => rw [List.length_eq_zero_iff.1 length.symm]
    | cons j js =>
      cases ks with
      | nil => cases length
      | cons k ks =>
        rw [List.zip_cons_cons, List.zip_cons_cons, List.forall_mem_cons] at each
        rw [decodeItems, decodeItems, each.1, ih (Nat.succ.inj length) each.2]

/-- The members of a mapping are read alike if they have the same names in the same order. -/
theorem decodeMembers_congr {keyShape : Shape} {key value : Json → Wired Value} {ms ns : Members}
    (names : ms.map (·.1) = ns.map (·.1))
    (each : ∀ p ∈ ms.zip ns, value p.1.2 = value p.2.2) :
    decodeMembers keyShape key value ms = decodeMembers keyShape key value ns := by
  induction ms generalizing ns with
  | nil => rw [List.map_eq_nil_iff.1 names.symm]
  | cons m rest ih =>
    cases ns with
    | nil => cases names
    | cons n ns =>
      rw [List.zip_cons_cons, List.forall_mem_cons] at each
      rw [List.map_cons, List.map_cons] at names
      injection names with name names
      rw [decodeMembers, decodeMembers, name, each.1, ih names each.2]

/-- The fields of a record are read alike if each of them is. -/
theorem decodeFields_congr {fields : List (String × Shape)} {ms ns : Members}
    (each : ∀ f ∈ fields, readField ms f = readField ns f) :
    decodeFields fields ms = decodeFields fields ns := by
  induction fields with
  | nil => simp only [decodeFields]
  | cons f rest ih =>
    rw [List.forall_mem_cons] at each
    rw [decodeFields_cons, decodeFields_cons, each.1, ih each.2]

/-- A field is read alike from two objects if both have it or neither does, and what they have is
read alike. -/
theorem readField_congr {f : String × Shape} {ms ns : Members}
    (presence : (ms.lookup f.1).isSome = (ns.lookup f.1).isSome)
    (value : ∀ j k, ms.lookup f.1 = some j → ns.lookup f.1 = some k → decode f.2 j = decode f.2 k) :
    readField ms f = readField ns f := by
  rw [readField, readField]
  cases first : ms.lookup f.1 with
  | none =>
    rw [first] at presence
    rw [Option.isNone_iff_eq_none.1 (Option.isSome_eq_false_iff.1 presence.symm)]
  | some j =>
    rw [first] at presence
    obtain ⟨k, second⟩ := Option.isSome_iff_exists.1 presence.symm
    simp only [second, value j k first second]

theorem decode_optional_congr {inner : Shape} {j k : Json} (null : j = .null ↔ k = .null)
    (inside : decode inner j = decode inner k) :
    decode (.optional inner) j = decode (.optional inner) k := by
  by_cases h : j = .null
  · rw [h, null.1 h]
  · rw [decode_optional h, decode_optional (mt null.2 h), inside]

end Wire

namespace Descriptor

/-! ## Values that agree -/

/-- Two JSON values agree for a type if they differ at most in the members of objects that are read
as records: in their order, and in those that no field declares. -/
inductive Agree : Descriptor → Json → Json → Prop where
  | same (d : Descriptor) (j : Json) : Agree d j j
  | list {element : Descriptor} {js ks : List Json} (length : js.length = ks.length)
      (items : ∀ p ∈ js.zip ks, Agree element p.1 p.2) :
    Agree (.list element) (.array js) (.array ks)
  | variadic {items : List Descriptor} {item : Descriptor} {j k : Json}
      (single : variadicItem items = .ok item) (list : Agree (.list item) j k) :
    Agree (.variadic items) j k
  | tuple {items : List Descriptor} {js ks : List Json} (length : js.length = ks.length)
      (each : ∀ t ∈ items.zip (js.zip ks), Agree t.1 t.2.1 t.2.2) :
    Agree (.tuple items) (.array js) (.array ks)
  /-- A mapping keeps its keys and their order. -/
  | mapping {key value : Descriptor} {ms ns : Members} (names : ms.map (·.1) = ns.map (·.1))
      (values : ∀ p ∈ ms.zip ns, Agree value p.1.2 p.2.2) :
    Agree (.mapping key value) (.object ms) (.object ns)
  | optional {inner : Descriptor} {j k : Json} (inside : Agree inner j k) :
    Agree (.optional inner) j k
  | union {members : List Descriptor} {inner : Descriptor} {j k : Json}
      (member : optionalMember members = .ok inner) (inside : Agree inner j k) :
    Agree (.union members) j k
  | wrapper {name : String} {fields : List Field} {transparent : Bool} {field : Field} {j k : Json}
      (wraps : wrappedField name fields transparent = .ok (some field))
      (inside : Agree field.2 j k) : Agree (.record name fields transparent) j k
  /-- Each field is in both objects or in neither. -/
  | fields {d : Descriptor} {fields : List Field} {ms ns : Members} (has : d.HasFields fields)
      (presence : ∀ f ∈ fields, (ms.lookup f.1).isSome = (ns.lookup f.1).isSome)
      (values : ∀ f ∈ fields, ∀ j k, ms.lookup f.1 = some j → ns.lookup f.1 = some k →
        Agree f.2 j k) : Agree d (.object ms) (.object ns)

namespace Agree

variable {d : Descriptor} {j k : Json}

/-- Values that agree are both null or neither is. -/
theorem null_iff (h : d.Agree j k) : j = .null ↔ k = .null := by
  induction h with
  | same => exact Iff.rfl
  | list | tuple | mapping | fields => exact ⟨nofun, nofun⟩
  | variadic _ _ ih | optional _ ih | union _ _ ih | wrapper _ _ ih => exact ih

/-- **Other members, and another order**: two objects without repeated names agree for a record if
they have the same members of declared names. -/
theorem of_members {fields : List Field} {ms ns : Members} (has : d.HasFields fields)
    (distinct : (ms.map (·.1)).Nodup) (distinct' : (ns.map (·.1)).Nodup)
    (same : ∀ f ∈ fields, ∀ j, (f.1, j) ∈ ms ↔ (f.1, j) ∈ ns) :
    d.Agree (.object ms) (.object ns) := by
  have found (f : Field) (hf : f ∈ fields) : ms.lookup f.1 = ns.lookup f.1 := by
    refine Option.ext fun j => ⟨fun there => ?_, fun there => ?_⟩
    · exact lookup_eq_some_of_mem distinct' ((same f hf j).1 (mem_of_lookup_eq_some there))
    · exact lookup_eq_some_of_mem distinct ((same f hf j).2 (mem_of_lookup_eq_some there))
  refine .fields has (fun f hf => by rw [found f hf]) fun f hf j k first second => ?_
  rw [found f hf, second] at first
  cases first
  exact .same _ _

end Agree

/-- **Only what is declared is read**: values that agree come to the same value, or to the same
error at the same place. -/
theorem decode_of_agree {d : Descriptor} {j k : Json} (h : d.Agree j k) :
    d.decode j = d.decode k := by
  induction h with
  | same => rfl
  | @list element js ks length _ ih =>
    have each : ∀ p ∈ js.zip ks, Wire.decode element.shape p.1 = Wire.decode element.shape p.2 := ih
    change Wire.decode (.list element.shape) _ = Wire.decode (.list element.shape) _
    rw [Wire.decode, Wire.decode, Wired.items_congr length each]
  | @variadic items item j k single _ ih =>
    rw [decode, decode, shape_variadic single]
    exact ih
  | @tuple items js ks length _ ih =>
    change Wire.decode (.tuple (shapesIn [] items)) _ = Wire.decode (.tuple (shapesIn [] items)) _
    rw [Wire.decode, Wire.decode, length, Wire.decodeItems_congr length fun t ht => ?_]
    rw [shapesIn_eq_map, List.zip_map_left] at ht
    obtain ⟨t', ht', rfl⟩ := List.mem_map.1 ht
    exact ih t' ht'
  | @mapping key value ms ns names _ ih =>
    have each : ∀ p ∈ ms.zip ns, Wire.decode value.shape p.1.2 = Wire.decode value.shape p.2.2 := ih
    change Wire.decode (.mapping key.shape value.shape) _ =
      Wire.decode (.mapping key.shape value.shape) _
    rw [Wire.decode, Wire.decode, Wire.decodeMembers_congr names each]
  | optional inside ih => exact Wire.decode_optional_congr inside.null_iff ih
  | union member inside ih =>
    rw [decode, decode, shape_union member]
    exact Wire.decode_optional_congr inside.null_iff ih
  | wrapper wraps _ ih =>
    rw [decode, decode, shape_wrapper wraps, Wire.decode, Wire.decode]
    exact ih
  | @fields d fields ms ns has presence _ ih =>
    obtain ⟨name, reads⟩ := has.readsFields
    rw [decode, decode, Wire.decode_record reads, Wire.decode_record reads,
      Wire.decodeFields_congr fun s hs => ?_]
    rw [fieldShapes_eq_map] at hs
    obtain ⟨f, hf, rfl⟩ := List.mem_map.1 hs
    exact Wire.readField_congr (presence f hf) (ih f hf)

/-- Two pages with an order each, one with its members in another order and with others between
them; they are read alike, and so they are if the order is not numbered by an integer. -/
theorem decode_of_agree_page :
    let order := record "Order" [("id", .scalar .int), ("note", .optional (.scalar .string))] false
    let d := application (.template "Page" ["T"]
      [("items", .list (.param "T")), ("size", .scalar .int)]) [order]
    let page (id : Json) := Json.object
      [("items", .array [.object [("id", id), ("note", .string "late")]]), ("size", .ofInt64 1)]
    let other (id : Json) := Json.object [("size", .ofInt64 1), ("next", .null),
      ("items", .array [.object [("note", .string "late"), ("weight", .null), ("id", id)]])]
    (∀ id, d.Agree (page id) (other id)) ∧
      d.decode (page (.ofInt64 7)) = d.decode (other (.ofInt64 7)) ∧
      d.decode (page (.ofInt64 7)) = .ok (.record "Page" [("items", .list
        [.record "Order" [("id", .int 7), ("note", .string "late")]]), ("size", .int 1)]) ∧
      d.decode (page (.string "7")) = d.decode (other (.string "7")) ∧
      d.decode (page (.string "7")) =
        .error ⟨[.member "items", .index 0, .member "id"], .mismatch "int" "string"⟩ := by
  intro order d page other
  have orders (id : Json) :
      order.Agree (.object [("id", id), ("note", .string "late")])
        (.object [("note", .string "late"), ("weight", .null), ("id", id)]) := by
    refine .of_members (.record rfl) (by simp) (by simp) fun f hf k => ?_
    rcases List.mem_pair.1 hf with rfl | rfl
    · simp
    · simp
  have pages (id : Json) : d.Agree (page id) (other id) := by
    have applied : instantiate (template "Page" ["T"]
        [("items", .list (.param "T")), ("size", .scalar .int)]) [order] =
        .ok ⟨"Page", [("items", .list order), ("size", .scalar .int)]⟩ := rfl
    have has : d.HasFields [("items", .list order), ("size", .scalar .int)] := .application applied
    refine .fields has (fun f hf => ?_) fun f hf j k first second => ?_
    · rcases List.mem_pair.1 hf with rfl | rfl
      · rfl
      · rfl
    · rcases List.mem_pair.1 hf with rfl | rfl
      · cases first
        cases second
        exact .list rfl (List.forall_mem_singleton.2 (orders id))
      · cases first
        cases second
        exact .same _ _
  exact ⟨pages, decode_of_agree (pages _), rfl, decode_of_agree (pages _), rfl⟩

end Descriptor

end RpcBridge
