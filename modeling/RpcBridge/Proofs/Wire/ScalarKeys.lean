import RpcBridge.Proofs.Wire.Echo

/-!
# Proofs/Wire/ScalarKeys — keys that can be member names

The keys of a dictionary travel as member names, so each of them has to travel as a text, a number
or a truth value.  Whether it does depends on the type of the keys, and for an untyped or optional
key, or a member of an enum, on the key itself (`Shape.IsName`).  This is all that can go wrong with
a value that has the type it is written for: it is written if all the keys in it can be names
(`Shape.Keyed`), and otherwise its writing ends at a key that cannot (`Descriptor.hinges`).

* `Wired.HingesOn` — a step that fails at such a key, unless something is the case;
* `Shape.AlwaysName`, `Shape.NeverName` — types all of whose values can be names, and none.
-/

namespace RpcBridge

/-! ## Keys that are names -/

/-- A JSON value that can be written as the name of a member. -/
def Json.IsScalar : Json → Prop
  | .string _ | .number _ | .bool _ => True
  | _ => False

/-- A literal that is a text or a number of JSON; a number that is not finite is none. -/
def EnumLiteral.IsFinite : EnumLiteral → Prop
  | .float x => ∃ y, x = .finite y
  | _ => True

namespace Shape

/-- The keys of a type that travel as scalars. -/
def IsName : Shape → Value → Prop
  | .scalar .any, v => ∃ j, v = .raw j ∧ j.IsScalar
  | .scalar .anyList, _ | .scalar .none, _ => False
  | .scalar _, _ | .temporal _, _ => True
  | .enum e, v => ∀ typeName name m, v = .enum typeName name → e.member? name = some m →
    m.value.IsFinite
  | .optional inner, v => v ≠ .null ∧ inner.IsName v
  | .wrapper _ _ inner, v => inner.IsName v
  | _, _ => False

/-- The types all of whose values travel as scalars. -/
def AlwaysName : Shape → Prop
  | .scalar kind => kind ≠ .any ∧ kind ≠ .anyList ∧ kind ≠ .none
  | .temporal _ => True
  | .enum e => ∀ m ∈ e.members, m.value.IsFinite
  | .wrapper _ _ inner => inner.AlwaysName
  | _ => False

/-- The types none of whose values does. -/
def NeverName : Shape → Prop
  | .scalar kind => kind = .anyList ∨ kind = .none
  | .temporal _ | .enum _ | .blocked _ _ => False
  | .list _ | .tuple _ | .mapping _ _ | .record _ _ | .bareTemplate _ _ _ | .opened _ _ _ => True
  | .optional inner | .wrapper _ _ inner => inner.NeverName

mutual

/-- Values all of whose keys travel as scalars. -/
def Keyed : Shape → Value → Prop
  | .list element, .list vs => ∀ v ∈ vs, element.Keyed v
  | .tuple items, .list vs => ItemsKeyed items vs
  | .mapping key value, .map entries => ∀ e ∈ entries, key.IsName e.1 ∧ value.Keyed e.2
  | .optional inner, v => v = .null ∨ inner.Keyed v
  | .record _ fields, .record _ vs
  | .bareTemplate _ _ fields, .record _ vs
  | .opened _ _ fields, .record _ vs => FieldsKeyed fields vs
  | .wrapper _ _ inner, v => inner.Keyed v
  | _, _ => True

/-- The same of the items of a tuple. -/
def ItemsKeyed : List Shape → List Value → Prop
  | s :: rest, v :: vs => s.Keyed v ∧ ItemsKeyed rest vs
  | _, _ => True

/-- The same of the fields of a record. -/
def FieldsKeyed : List (String × Shape) → List (String × Value) → Prop
  | [], _ => True
  | (name, s) :: rest, vs => (∀ v, vs.lookup name = some v → s.Keyed v) ∧ FieldsKeyed rest vs

end

/-- A value of a type whose values always travel as scalars is a name. -/
theorem isName_of_always {s : Shape} (always : s.AlwaysName) (v : Value) : s.IsName v := by
  induction s with
  | scalar kind =>
    obtain ⟨any, anyList, none⟩ := always
    cases kind <;> simp_all [IsName]
  | temporal kind => simp [IsName]
  | enum e =>
    rw [IsName]
    intro _ name m _ found
    exact always m (List.mem_of_find?_eq_some found)
  | wrapper _ _ inner ih =>
    rw [IsName]
    exact ih always
  | _ => exact always.elim

/-- A value of a type whose values never travel as scalars is no name. -/
theorem not_isName_of_never {s : Shape} (never : s.NeverName) (v : Value) : ¬s.IsName v := by
  induction s with
  | scalar kind => rcases never with rfl | rfl <;> simp [IsName]
  | temporal | enum | blocked => exact never.elim
  | optional inner ih =>
    rw [IsName]
    exact fun h => ih never h.2
  | wrapper _ _ inner ih =>
    rw [IsName]
    exact ih never
  | _ => simp [IsName]

/-- There are no keys in an absent value. -/
theorem keyed_null {s : Shape} (allowed : s.allowsAbsence = true) : s.Keyed .null := by
  unfold allowsAbsence at allowed
  split at allowed
  · rw [Keyed]
    exact .inl rfl
  · simp [Keyed]
  · cases allowed

/-- The keys in a record are those in its declared fields. -/
theorem keyed_record {s : Shape} {name : String} {fields : List (String × Shape)}
    (reads : Wire.ReadsFields s name fields) (n : String) (vs : List (String × Value)) :
    s.Keyed (.record n vs) ↔ FieldsKeyed fields vs := by
  cases reads <;> rw [Keyed]

/-- Fields whose every value is keyed are keyed. -/
theorem fieldsKeyed {fields : List (String × Shape)} (vs : List (String × Value))
    (each : ∀ f ∈ fields, ∀ v, f.2.Keyed v) : FieldsKeyed fields vs := by
  induction fields with
  | nil => exact trivial
  | cons f rest ih =>
    rw [List.forall_mem_cons] at each
    exact ⟨fun v _ => each.1 v, ih each.2⟩

/-- Items whose every value is keyed are keyed. -/
theorem itemsKeyed {items : List Shape} (vs : List Value) (each : ∀ s ∈ items, ∀ v, s.Keyed v) :
    ItemsKeyed items vs := by
  induction items generalizing vs with
  | nil => cases vs <;> exact trivial
  | cons s rest ih =>
    rw [List.forall_mem_cons] at each
    cases vs with
    | nil => exact trivial
    | cons v vs => exact ⟨each.1 v, ih vs each.2⟩

/-- **Among types of keys that are always names**, every value can be written as far as its keys
are concerned. -/
theorem keyed_of_always {s : Shape}
    (always : ∀ key value, (Shape.mapping key value).OccursIn s → key.AlwaysName) (v : Value) :
    s.Keyed v := by
  have record {s : Shape} {name : String} {fields : List (String × Shape)}
      (reads : Wire.ReadsFields s name fields)
      (always : ∀ key value, (Shape.mapping key value).OccursIn s → key.AlwaysName)
      (each : ∀ f ∈ fields, (∀ key value, (Shape.mapping key value).OccursIn f.2 →
        key.AlwaysName) → ∀ v, f.2.Keyed v) (v : Value) : s.Keyed v := by
    cases v with
    | record n vs =>
      refine (keyed_record reads n vs).2 (fieldsKeyed vs fun f hf => each f hf ?_)
      exact fun key value there => always key value (reads.occursIn hf there)
    | _ => cases reads <;> simp [Keyed]
  induction s generalizing v with
  | list element ih =>
    cases v with
    | list vs =>
      rw [Keyed]
      exact fun v _ => ih (fun key value there => always key value (.list there)) v
    | _ => simp [Keyed]
  | tuple items ih =>
    cases v with
    | list vs =>
      rw [Keyed]
      exact itemsKeyed vs fun s hs =>
        ih s hs fun key value there => always key value (.tuple hs there)
    | _ => simp [Keyed]
  | mapping key value _ ih =>
    cases v with
    | map entries =>
      rw [Keyed]
      exact fun e _ => ⟨isName_of_always (always key value .here) e.1,
        ih (fun k w there => always k w (.value there)) e.2⟩
    | _ => simp [Keyed]
  | optional inner ih =>
    rw [Keyed]
    exact .inr (ih (fun key value there => always key value (.optional there)) v)
  | wrapper _ _ inner ih =>
    rw [Keyed]
    exact ih (fun key value there => always key value (.wrapper there)) v
  | record name fields ih | bareTemplate _ name fields ih | opened _ name fields ih =>
    exact record (by constructor) always ih v
  | _ => simp [Keyed]

end Shape

/-! ## Steps that hinge on a key -/

/-- A step that succeeds if `P` is the case, and fails at a key that is no scalar if not. -/
def Wired.HingesOn {α : Type} (w : Wired α) (P : Prop) : Prop :=
  (P ∧ ∃ a, w = .ok a) ∨ ¬P ∧ ∃ e found, w = .error e ∧ e.cause = .keyNotScalar found

namespace Wired.HingesOn

variable {α β : Type} {w : Wired α} {f : α → Wired β} {P Q : Prop}

/-- What succeeds hinges on whatever holds. -/
theorem ok (a : α) (h : P) : HingesOn (.ok a) P := .inl ⟨h, a, rfl⟩

/-- What an outcome hinges on may be said in any equivalent way. -/
theorem congr (h : w.HingesOn P) (same : P ↔ Q) : w.HingesOn Q := propext same ▸ h

/-- Going a step inside does not change what an outcome hinges on. -/
theorem within (h : w.HingesOn P) (step : Step) : (w.within step).HingesOn P := by
  rcases h with ⟨h, a, rfl⟩ | ⟨h, e, found, rfl, cause⟩
  · exact .inl ⟨h, a, rfl⟩
  · exact .inr ⟨h, e.within step, found, rfl, cause⟩

/-- Steps one after the other hinge on what each of them does. -/
theorem bind (first : w.HingesOn P) (second : ∀ a, w = .ok a → (f a).HingesOn Q) :
    (w >>= f).HingesOn (P ∧ Q) := by
  rcases first with ⟨h, a, rfl⟩ | ⟨h, e, found, rfl, cause⟩
  · exact (second a rfl).congr (by simp [h])
  · exact .inr ⟨fun both => h both.1, e, found, rfl, cause⟩

/-- A step that is followed by one that cannot fail. -/
theorem map (first : w.HingesOn P) (g : α → β) : (w >>= fun a => .ok (g a)).HingesOn P :=
  (first.bind fun a _ => ok (g a) trivial).congr (and_iff_left trivial)

/-- An outcome that hinges on a property succeeds exactly when the property holds. -/
theorem iff_ok (h : w.HingesOn P) : (∃ a, w = .ok a) ↔ P := by
  rcases h with ⟨h, a, rfl⟩ | ⟨h, e, found, rfl, -⟩
  · exact iff_of_true ⟨a, rfl⟩ h
  · exact iff_of_false nofun h

/-- An outcome that hinges on a property fails for a key that is no scalar, and for nothing else. -/
theorem cause (h : w.HingesOn P) {e : WireError} (failed : w = .error e) :
    ∃ found, e.cause = .keyNotScalar found := by
  rcases h with ⟨-, a, rfl⟩ | ⟨-, e', found, rfl, cause⟩
  · cases failed
  · cases failed
    exact ⟨found, cause⟩

/-- A sequence hinges on what each of its items hinges on. -/
theorem items {item : α → Wired β} {as : List α} {R : α → Prop} (start : Nat)
    (each : ∀ a ∈ as, (item a).HingesOn (R a)) :
    (Wired.items item start as).HingesOn (∀ a ∈ as, R a) := by
  induction as generalizing start with
  | nil => exact ok _ (List.forall_mem_nil _)
  | cons a rest ih =>
    rw [List.forall_mem_cons] at each
    rw [items_cons, List.forall_mem_cons]
    exact (each.1.within _).bind fun b _ => (ih (start + 1) each.2).map _

end Wired.HingesOn

namespace Wire

open Wired

/-- What travels as a scalar can be a name, and nothing else can. -/
theorem hinges_memberName (j : Json) : (memberName j).HingesOn j.IsScalar := by
  match j with
  | .string s => exact .ok s trivial
  | .number n => exact .ok n.toText trivial
  | .bool true => exact .ok "true" trivial
  | .bool false => exact .ok "false" trivial
  | .null | .array _ | .object _ => exact .inr ⟨id, _, _, rfl, rfl⟩

/-- Writing entries hinges on what writing their keys and their values hinges on. -/
theorem hinges_entries {key value : Value → Wired Json} {K R : Value → Prop}
    {entries : List (Value × Value)} (done : Members)
    (keys : ∀ e ∈ entries, (key e.1 >>= memberName).HingesOn (K e.1))
    (values : ∀ e ∈ entries, (value e.2).HingesOn (R e.2)) :
    (encodeEntries key value done entries).HingesOn (∀ e ∈ entries, K e.1 ∧ R e.2) := by
  induction entries generalizing done with
  | nil =>
    rw [encodeEntries]
    exact .ok _ (List.forall_mem_nil _)
  | cons e rest ih =>
    obtain ⟨k, v⟩ := e
    rw [List.forall_mem_cons] at keys values
    rw [encodeEntries, List.forall_mem_cons]
    have entry : (key k >>= fun j => memberName j >>= fun name => value v >>= fun j =>
        (.ok (name, j) : Wired (String × Json))).HingesOn (K k ∧ R v) := by
      have := keys.1.bind (f := fun name => value v >>= fun j => .ok (name, j)) fun name _ =>
        values.1.map (Prod.mk name)
      rwa [bind_assoc] at this
    exact (entry.within _).bind fun named _ => ih _ keys.2 values.2

/-- Writing items hinges on what writing each of them hinges on. -/
theorem hinges_items {items : List Shape} {vs : List Value} (start : Nat)
    (each : List.Forall₂ (fun s v => (encode s v).HingesOn (s.Keyed v)) items vs) :
    (encodeItems items start vs).HingesOn (Shape.ItemsKeyed items vs) := by
  induction each generalizing start with
  | nil =>
    rw [encodeItems]
    · exact .ok _ trivial
    · intro _ _ _ _ impossible
      cases impossible
  | cons first _ ih =>
    rw [encodeItems, Shape.ItemsKeyed]
    exact (first.within _).bind fun j _ => (ih (start + 1)).map _

/-- Writing fields hinges on what writing each of them hinges on. -/
theorem hinges_fields {fields : List (String × Shape)} {vs : List (String × Value)}
    (done : Members) (each : ∀ f ∈ fields, ∃ v, vs.lookup f.1 = some v ∧
      (encode f.2 v).HingesOn (f.2.Keyed v)) :
    (encodeFields fields vs done).HingesOn (Shape.FieldsKeyed fields vs) := by
  induction fields generalizing done with
  | nil =>
    rw [encodeFields]
    exact .ok _ trivial
  | cons f rest ih =>
    obtain ⟨name, s⟩ := f
    rw [List.forall_mem_cons] at each
    obtain ⟨⟨v, there, first⟩, others⟩ := each
    have here : (∀ w, vs.lookup name = some w → s.Keyed w) ↔ s.Keyed v := by
      simp [there]
    rw [Shape.FieldsKeyed, here]
    by_cases left : v = .null ∧ s.allowsAbsence = true
    · obtain ⟨rfl, allowed⟩ := left
      have absent : Value.fieldOf vs name = .null := by rw [Value.fieldOf, there]; rfl
      rw [encodeFields_skip absent allowed]
      exact (ih done others).congr (and_iff_right (Shape.keyed_null allowed)).symm
    · have needed : v = .null → s.allowsAbsence = false := fun null =>
        Bool.eq_false_iff.2 fun allowed => left ⟨null, allowed⟩
      rw [encodeFields_present there needed]
      exact (first.within _).bind fun j _ => ih _ others

/-! ## Values of a type -/

/-- Writing a value hinges on the keys in it, and writing it as a key on whether it is a name. -/
structure Hinges (s : Shape) (v : Value) : Prop where
  whole : (encode s v).HingesOn (s.Keyed v)
  key : (keyName s v).HingesOn (s.IsName v)

/-- What has no keys is written, and is a name if it is written as a scalar. -/
theorem hinges_of_ok {s : Shape} {v : Value} {j : Json} (written : encode s v = .ok j)
    (keyed : s.Keyed v) (name : j.IsScalar ↔ s.IsName v) : Hinges s v where
  whole := written ▸ .ok j keyed
  key := by
    rw [keyName, written, ok_bind]
    exact (hinges_memberName j).congr name

/-- What is never written as a scalar is no name. -/
theorem hinges_of_never {s : Shape} {v : Value} (whole : (encode s v).HingesOn (s.Keyed v))
    (never : s.NeverName) (written : ∀ j, encode s v = .ok j → ¬j.IsScalar) : Hinges s v where
  whole := whole
  key := by
    have fails := whole.bind fun j hj =>
      (hinges_memberName j).congr (iff_false_intro (written j hj))
    exact fails.congr (iff_of_false And.right (Shape.not_isName_of_never never v))

/-- A scalar is always written, and is a name if it is one of JSON's scalars. -/
theorem hinges_scalar {kind : ScalarKind} {v : Value} (h : kind.Holds v) :
    Hinges (.scalar kind) v := by
  cases h with
  | any j =>
    refine hinges_of_ok (j := j) rfl (by simp [Shape.Keyed]) ?_
    rw [Shape.IsName]
    exact ⟨fun scalar => ⟨j, rfl, scalar⟩, fun ⟨_, same, scalar⟩ => Value.raw.inj same ▸ scalar⟩
  | _ =>
    refine hinges_of_ok rfl (by simp [Shape.Keyed]) ?_
    simp [Shape.IsName, Json.IsScalar, Json.ofInt64]

/-- A temporal value is always written, and is a name. -/
theorem hinges_temporal {kind : TemporalKind} {v : Value} (h : kind.Holds v) :
    Hinges (.temporal kind) v := by
  cases h <;>
    exact hinges_of_ok rfl (by simp [Shape.Keyed]) (by simp [Shape.IsName, Json.IsScalar])

/-- A literal is written as a scalar exactly when it is finite. -/
theorem isScalar_toJson {l : EnumLiteral} : l.toJson.IsScalar ↔ l.IsFinite := by
  cases l with
  | float x => cases x <;> simp [EnumLiteral.toJson, EnumLiteral.IsFinite, Json.ofDouble,
      JsonNumber.ofDouble?, Json.IsScalar]
  | _ => exact iff_of_true trivial trivial

/-- An enum member is always written, and is a name if its literal is finite. -/
theorem hinges_enum {e : EnumDef} {v : Value} (h : e.Holds v) : Hinges (.enum e) v := by
  obtain ⟨m, hm, rfl⟩ := h
  obtain ⟨n, found⟩ := EnumDef.exists_member? hm
  have written : encode (.enum e) (.enum e.name m.name) = .ok n.value.toJson := by
    simp only [encode, encodeEnum, if_true, found]
  refine hinges_of_ok written (by simp [Shape.Keyed]) ?_
  rw [isScalar_toJson, Shape.IsName]
  constructor
  · rintro finite _ _ n' ⟨⟩ found'
    exact Option.some.inj (found.symm.trans found') ▸ finite
  · exact fun finite => finite _ _ n rfl found

/-- Writing a list hinges on its elements, and a list is no name. -/
theorem hinges_list {element : Shape} {vs : List Value}
    (each : ∀ v ∈ vs, (encode element v).HingesOn (element.Keyed v)) :
    Hinges (.list element) (.list vs) := by
  have written : encode (.list element) (.list vs) =
      (Wired.items (encode element) 0 vs >>= fun js => .ok (.array js)) := by
    rw [encode]
    rfl
  refine hinges_of_never ?_ trivial fun j h => ?_
  · rw [written, Shape.Keyed]
    exact (HingesOn.items 0 each).map _
  · rw [written] at h
    obtain ⟨js, -, h⟩ := bind_eq_ok.1 h
    cases h
    exact id

/-- Writing a tuple hinges on its items, and a tuple is no name. -/
theorem hinges_tuple {items : List Shape} {vs : List Value}
    (each : List.Forall₂ (fun s v => (encode s v).HingesOn (s.Keyed v)) items vs) :
    Hinges (.tuple items) (.list vs) := by
  have written : encode (.tuple items) (.list vs) =
      (encodeItems items 0 vs >>= fun js => .ok (.array js)) := by
    rw [encode, if_pos each.length_eq.symm]
    rfl
  refine hinges_of_never ?_ trivial fun j h => ?_
  · rw [written, Shape.Keyed]
    exact (hinges_items 0 each).map _
  · rw [written] at h
    obtain ⟨js, -, h⟩ := bind_eq_ok.1 h
    cases h
    exact id

/-- Writing a mapping hinges on its keys being names and on its values being keyed. -/
theorem hinges_mapping {key value : Shape} {entries : List (Value × Value)}
    (keys : ∀ e ∈ entries, Hinges key e.1) (values : ∀ e ∈ entries, Hinges value e.2) :
    Hinges (.mapping key value) (.map entries) := by
  have written : encode (.mapping key value) (.map entries) =
      (encodeEntries (encode key) (encode value) [] entries >>= fun ms => .ok (.object ms)) := by
    rw [encode]
    rfl
  refine hinges_of_never ?_ trivial fun j h => ?_
  · rw [written, Shape.Keyed]
    exact (hinges_entries [] (fun e he => (keys e he).key) fun e he => (values e he).whole).map _
  · rw [written] at h
    obtain ⟨ms, -, h⟩ := bind_eq_ok.1 h
    cases h
    exact id

/-- An absent value is always written, and is no name. -/
theorem hinges_absent (inner : Shape) : Hinges (.optional inner) .null := by
  refine hinges_of_ok (j := .null) (by rw [encode]) ?_ ?_
  · rw [Shape.Keyed]
    exact .inl rfl
  · rw [Shape.IsName]
    exact iff_of_false id fun h => h.1 rfl

/-- A present value hinges on what it does without the option. -/
theorem hinges_present {inner : Shape} {v : Value} (h : Hinges inner v) :
    Hinges (.optional inner) v := by
  by_cases null : v = .null
  · exact null ▸ hinges_absent inner
  · constructor
    · rw [encode_optional null, Shape.Keyed]
      exact h.whole.congr (or_iff_right null).symm
    · rw [keyName, encode_optional null, Shape.IsName]
      exact h.key.congr (and_iff_right null).symm

/-- A wrapped value hinges on what it does without the wrapper. -/
theorem hinges_wrapper {inner : Shape} {v : Value} (h : Hinges inner v) (name field : String) :
    Hinges (.wrapper name field inner) v where
  whole := by
    rw [encode, Shape.Keyed]
    exact h.whole
  key := by
    rw [keyName, encode, Shape.IsName]
    exact h.key

/-- A record whose fields are all there hinges on the keys in them. -/
theorem hinges_record {s : Shape} {name : String} {fields : List Field}
    {vs : List (String × Value)} (reads : ReadsFields s name (Descriptor.fieldShapes [] fields))
    (names : (vs.map (·.1)).Perm (fields.map (·.1)))
    (each : ∀ f ∈ fields, ∀ v, (f.1, v) ∈ vs → Hinges f.2.shape v) :
    Hinges s (.record name vs) := by
  have written := encode_record reads name vs
  refine hinges_of_never ?_ (by cases reads <;> trivial) fun j h => ?_
  · rw [written, Shape.keyed_record reads]
    refine (hinges_fields [] fun f hf => ?_).map _
    rw [Descriptor.fieldShapes_eq_map] at hf
    obtain ⟨g, hg, rfl⟩ := List.mem_map.1 hf
    obtain ⟨w, there⟩ := exists_lookup (names.mem_iff.2 (List.mem_map_of_mem hg))
    exact ⟨w, there, (each g hg w (mem_of_lookup_eq_some there)).whole⟩
  · rw [written] at h
    obtain ⟨ms, -, h⟩ := bind_eq_ok.1 h
    cases h
    exact id

end Wire

namespace Descriptor

open Wire

/-- What cannot be carried out has no values. -/
theorem ne_blocked_of_holds {d e : Descriptor} {v : Value} {obstacle : Obstacle}
    (typed : d.Holds v) : d.shape ≠ .blocked e obstacle := by
  cases typed with
  | variadic single => exact shape_variadic single ▸ nofun
  | unionAbsent member => exact shape_union member ▸ nofun
  | unionPresent member => exact shape_union member ▸ nofun
  | record ordinary => exact shape_record ordinary ▸ nofun
  | wrapper wraps => exact shape_wrapper wraps ▸ nofun
  | application instance_eq =>
    rcases shape_application instance_eq with record | opened
    · exact record ▸ nofun
    · exact opened ▸ nofun
  | _ => nofun

/-- What relates descriptors to values item by item relates their shapes to them too. -/
theorem forall₂_shapesIn {ds : List Descriptor} {vs : List Value} {R : Shape → Value → Prop}
    (each : List.Forall₂ Holds ds vs) (ih : ∀ d ∈ ds, ∀ v, d.Holds v → R d.shape v) :
    List.Forall₂ R (shapesIn [] ds) vs := by
  induction each with
  | nil =>
    rw [shapesIn]
    exact .nil
  | cons first _ others =>
    rw [List.forall_mem_cons] at ih
    rw [shapesIn]
    exact .cons (ih.1 _ first) (others ih.2)

/-- **A value of a type can be written but for its keys**: this hinges on the keys in it, and its
use as a key on whether it is a name. -/
theorem hinges {d : Descriptor} {v : Value} (typed : d.Holds v) : Hinges d.shape v := by
  induction d using opening generalizing v with
  | scalar kind =>
    cases typed with
    | scalar h => exact hinges_scalar h
  | temporal kind =>
    cases typed with
    | temporal h => exact hinges_temporal h
  | enum e =>
    cases typed with
    | enum h => exact hinges_enum h
  | list element ih =>
    cases typed with
    | list each => exact hinges_list fun v hv => (ih (each v hv)).whole
  | variadic items item single ih =>
    rw [shape_variadic single]
    cases typed with
    | variadic single' each =>
      obtain rfl := Except.ok.inj (single.symm.trans single')
      exact hinges_list fun v hv => (ih (each v hv)).whole
  | tuple items ih =>
    cases typed with
    | tuple each =>
      exact hinges_tuple (forall₂_shapesIn each fun d hd v h => (ih d hd h).whole)
  | mapping key value ihKey ihValue =>
    cases typed with
    | mapping keys values =>
      exact hinges_mapping (fun e he => ihKey (keys e he)) fun e he => ihValue (values e he)
  | optional inner ih =>
    cases typed with
    | absent => exact hinges_absent inner.shape
    | present h => exact hinges_present (ih h)
  | union members inner member ih =>
    rw [shape_union member]
    cases typed with
    | unionAbsent => exact hinges_absent inner.shape
    | unionPresent member' h =>
      obtain rfl := Except.ok.inj (member.symm.trans member')
      exact hinges_present (ih h)
  | record name fields transparent ordinary ih =>
    rw [shape_record ordinary]
    cases typed with
    | record _ names each =>
      exact hinges_record (.record _ _) names fun f hf v hv => ih f hf (each f hf v hv)
    | wrapper wraps => cases ordinary.symm.trans wraps
  | wrapper name fields transparent field wraps ih =>
    rw [shape_wrapper wraps]
    cases typed with
    | record ordinary => cases ordinary.symm.trans wraps
    | wrapper wraps' h =>
      obtain rfl := Option.some.inj (Except.ok.inj (wraps.symm.trans wraps'))
      exact hinges_wrapper (ih h) _ _
  | template name params fields ih =>
    cases typed with
    | template names each =>
      exact hinges_record (.bareTemplate _ _ _) names fun f hf v hv => ih f hf (each f hf v hv)
  | application origin args i instance_eq ih =>
    cases typed with
    | application instance_eq' names each =>
      obtain rfl := Except.ok.inj (instance_eq.symm.trans instance_eq')
      rcases shape_application instance_eq with record | opened
      · rw [record]
        exact hinges_record (.record _ _) names fun f hf v hv => ih f hf (each f hf v hv)
      · rw [opened]
        exact hinges_record (.opened _ _ _) names fun f hf v hv => ih f hf (each f hf v hv)
  | blocked d e obstacle blocked => exact absurd blocked (ne_blocked_of_holds typed)

end Descriptor

end RpcBridge
