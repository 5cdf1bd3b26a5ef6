import RpcBridge.Proofs.Wire.Keys
import RpcBridge.Proofs.Wire.Taken

/-!
# Proofs/Wire/RoundTrip — values that cross the wire and come back

Encoder and decoder follow the shape, each in its own way; they meet in one JSON value.  A round
trip (`RoundTrips`) says how they meet, and is put together along the shape: a container's parts
go round trip one by one, and the members that a record leaves out are read as null.

Two things are lost on the way.  An instant with a leap second in the middle of a minute is written
as the second that follows, and is read as that one.  And a key that is no text is only recovered
where the outermost node of its type says how.  So a value comes back exactly if its instants are
regular and the keys of its dictionaries recoverable (`Shape.ComesBack`).

* `roundTrips` — every conforming value that is such goes round trip;
* `comesBack_of_taken` — no other is read as the same value;
* `Descriptor.roundTrip_iff` — both together.
-/

namespace RpcBridge

namespace Shape

mutual

/-- The values of a shape whose instants have no leap second out of place, and the keys of whose
dictionaries are recoverable. -/
def ComesBack : Shape → Value → Prop
  | .temporal _, v => v.Regular
  | .list element, .list vs => ∀ w ∈ vs, element.ComesBack w
  | .tuple items, .list vs => ItemsComeBack items vs
  | .mapping key value, .map entries =>
    ∀ e ∈ entries, key.Recoverable e.1 ∧ value.ComesBack e.2
  | .optional inner, v => inner.ComesBack v
  | .record _ fields, .record _ vs
  | .bareTemplate _ _ fields, .record _ vs
  | .opened _ _ fields, .record _ vs => FieldsComeBack fields vs
  | .wrapper _ _ inner, v => inner.ComesBack v
  | _, _ => True

/-- The items of a tuple come back. -/
def ItemsComeBack : List Shape → List Value → Prop
  | s :: rest, v :: vs => s.ComesBack v ∧ ItemsComeBack rest vs
  | _, _ => True

/-- The fields of a record come back. -/
def FieldsComeBack : List (String × Shape) → List (String × Value) → Prop
  | [], _ => True
  | (name, s) :: rest, vs => s.ComesBack (Value.fieldOf vs name) ∧ FieldsComeBack rest vs

end

/-- Nothing is lost of what is absent. -/
theorem comesBack_null (s : Shape) : s.ComesBack .null := by
  induction s with
  | temporal kind =>
    rw [ComesBack]
    rintro i ⟨⟩
  | optional inner ih | wrapper _ _ inner ih =>
    rw [ComesBack]
    exact ih
  | _ => trivial

/-- Fields come back exactly when what stands under each name does. -/
theorem fieldsComeBack_iff {fields : List (String × Shape)} {vs : List (String × Value)} :
    FieldsComeBack fields vs ↔ ∀ f ∈ fields, f.2.ComesBack (Value.fieldOf vs f.1) := by
  induction fields with
  | nil => exact iff_of_true trivial (List.forall_mem_nil _)
  | cons f rest ih => rw [FieldsComeBack, ih, List.forall_mem_cons]

/-- A record comes back if its fields do. -/
theorem comesBack_record {s : Shape} {name n : String} {fields : List (String × Shape)}
    {vs : List (String × Value)} (reads : Wire.ReadsFields s name fields) :
    s.ComesBack (.record n vs) ↔ ∀ f ∈ fields, f.2.ComesBack (Value.fieldOf vs f.1) := by
  cases reads <;> rw [ComesBack, fieldsComeBack_iff]

/-- The values of a shape that is read as a record, as far as they can be written. -/
theorem conforms_record {s : Shape} {name : String} {fields : List (String × Shape)} {v : Value}
    (reads : Wire.ReadsFields s name fields) : s.Conforms v ↔
      ∃ vs, v = .record name vs ∧ (fields.map (·.1)).Nodup ∧
        (∀ f ∈ vs, f.1 ∈ fields.map (·.1) ∨ f.2 = .null) ∧ FieldsConform fields vs := by
  cases reads <;> rw [Conforms]

/-- What stands under the name of a field conforms to the field's type. -/
theorem conforms_of_lookup {fields : List (String × Shape)} {vs : List (String × Value)}
    (h : FieldsConform fields vs) {f : String × Shape} (hf : f ∈ fields) {v : Value}
    (there : vs.lookup f.1 = some v) : f.2.Conforms v := by
  induction fields with
  | nil => cases hf
  | cons g rest ih =>
    rw [FieldsConform] at h
    rcases List.mem_cons.1 hf with rfl | hf
    · rw [there] at h
      exact h.1
    · exact ih h.2 hf

end Shape

/-- The values of a descriptor's type that come back. -/
def Descriptor.ComesBack (d : Descriptor) (v : Value) : Prop := d.shape.ComesBack v

namespace Wire

/-- A value of a shape, how it travels, and what is read back. -/
structure RoundTrips (s : Shape) (v : Value) (j : Json) (back : Value) : Prop where
  encodes : encode s v = .ok j
  decodes : decode s j = .ok back
  same : back.same v = true
  encodes_again : encode s back = .ok j

/-! ## Scalars, dates and enums -/

/-- A value that is read back as it is. -/
theorem RoundTrips.of_eq {s : Shape} {v : Value} {j : Json} (encodes : encode s v = .ok j)
    (decodes : decode s j = .ok v) (same : v.same v = true) : RoundTrips s v j v :=
  ⟨encodes, decodes, same, encodes⟩

/-- A carried scalar comes back as it was. -/
theorem scalar_roundTrips {kind : ScalarKind} {v : Value} (h : kind.Carries v) :
    ∃ j, RoundTrips (.scalar kind) v j v := by
  cases h with
  | string s =>
    exact ⟨.string s, .of_eq (by simp only [encode, encodeScalar])
      (by simp only [decode, decodeScalar]) (by simp [Value.same])⟩
  | bool b =>
    exact ⟨.bool b, .of_eq (by simp only [encode, encodeScalar])
      (by simp only [decode, decodeScalar]) (by simp [Value.same])⟩
  | int n =>
    have read : decode (.scalar .int) (.ofInt64 n) = .ok (.int n) := by
      simp only [decode, Json.ofInt64, decodeScalar, JsonNumber.toInt64?, Whole.toInt64?_ofInt64]
    exact ⟨.ofInt64 n, .of_eq (by simp only [encode, encodeScalar]) read (by simp [Value.same])⟩
  | float x =>
    have same : (Value.float (.finite x)).same (.float (.finite x)) = true := by
      simp [Value.same, Double.same, Finite.same]
    exact ⟨.number (.real x), .of_eq (by simp only [encode, encodeScalar, JsonNumber.ofDouble?])
      (by simp only [decode, decodeScalar, JsonNumber.toDouble]) same⟩
  | @any j settled =>
    have same : (Value.raw j).same (.raw j) = true := by rw [Value.same, Json.same_refl settled]
    exact ⟨j, .of_eq (by simp only [encode, encodeScalar]) (by simp only [decode, decodeScalar])
      same⟩
  | @anyList items settled =>
    have same : (Value.raw (.array items)).same (.raw (.array items)) = true := by
      rw [Value.same, Json.same_refl settled]
    exact ⟨.array items, .of_eq (by simp only [encode, encodeScalar])
      (by simp only [decode, decodeScalar]) same⟩
  | none =>
    exact ⟨.null, .of_eq (by simp only [encode, encodeScalar])
      (by simp only [decode, decodeScalar]) (by simp [Value.same])⟩

/-- A date goes round trip, and so does an instant without a leap second out of place. -/
theorem temporal_roundTrips {kind : TemporalKind} {v : Value} (h : kind.Carries v)
    (regular : v.Regular) : ∃ j, RoundTrips (.temporal kind) v j v := by
  cases h with
  | date d =>
    have read : decode (.temporal .date) (.string d.toText) = .ok (.date d) := by
      simp only [decode, decodeTemporal, readTemporal?, Date.ofText?_toText, Option.map_some]
    exact ⟨.string d.toText, .of_eq (by simp only [encode, encodeTemporal]) read
      (by simp [Value.same])⟩
  | @dateTime i few low high =>
    have valid := Instant.isValid_of_regular few (regular i .here) low high
    have read : decode (.temporal .dateTime) (.string i.wire) = .ok (.dateTime i) := by
      simp only [decode, decodeTemporal, readTemporal?, Instant.ofText?_wire valid low high,
        Option.map_some]
    exact ⟨.string i.wire, .of_eq (by simp only [encode, encodeTemporal]) read
      (by simp [Value.same])⟩

/-- A carried enum member comes back as it was. -/
theorem enum_roundTrips {e : EnumDef} {v : Value} (h : e.Carries v) :
    ∃ j, RoundTrips (.enum e) v j v := by
  obtain ⟨m, first, rfl, declared, denoted, named⟩ := h
  refine ⟨m.value.toJson, .of_eq ?_ ?_ (by simp [Value.same])⟩
  · simp only [encode, encodeEnum, if_true, declared]
  · simp only [decode, decodeEnum, denoted, named]

/-! ## Lists and tuples -/

/-- A list comes back when each of its elements does. -/
theorem list_roundTrips {element : Shape} {vs : List Value} (start : Nat)
    (each : ∀ v ∈ vs, ∃ j back, RoundTrips element v j back) :
    ∃ js backs, Wired.items (encode element) start vs = .ok js ∧
      Wired.items (decode element) start js = .ok backs ∧ Value.sameItems backs vs = true ∧
      Wired.items (encode element) start backs = .ok js := by
  induction vs generalizing start with
  | nil => exact ⟨[], [], rfl, rfl, by rw [Value.sameItems], rfl⟩
  | cons v rest ih =>
    rw [List.forall_mem_cons] at each
    obtain ⟨⟨j, back, first⟩, others⟩ := each
    obtain ⟨js, backs, encodes, decodes, same, again⟩ := ih (start + 1) others
    refine ⟨j :: js, back :: backs, ?_, ?_, ?_, ?_⟩
    · simp only [Wired.items_cons, first.encodes, encodes, Wired.within_ok, ok_bind]
    · simp only [Wired.items_cons, first.decodes, decodes, Wired.within_ok, ok_bind]
    · rw [Value.sameItems, first.same, same, Bool.and_self]
    · simp only [Wired.items_cons, first.encodes_again, again, Wired.within_ok, ok_bind]

/-- The items of a tuple come back when each of them does. -/
theorem items_roundTrip {items : List Shape} {vs : List Value} (start : Nat)
    (h : Shape.ItemsConform items vs) (comesBack : Shape.ItemsComeBack items vs)
    (each : ∀ s ∈ items, ∀ v, s.Conforms v → s.ComesBack v → ∃ j back, RoundTrips s v j back) :
    ∃ js backs, (vs.length = items.length ∧ js.length = items.length ∧
        backs.length = items.length) ∧
      encodeItems items start vs = .ok js ∧ decodeItems items start js = .ok backs ∧
      Value.sameItems backs vs = true ∧ encodeItems items start backs = .ok js := by
  induction items generalizing vs start with
  | nil =>
    rw [Shape.ItemsConform] at h
    subst h
    refine ⟨[], [], ⟨rfl, rfl, rfl⟩, ?_, ?_, ?_, ?_⟩
    · simp only [encodeItems]
    · simp only [decodeItems]
    · rw [Value.sameItems]
    · simp only [encodeItems]
  | cons s rest ih =>
    rw [Shape.ItemsConform] at h
    obtain ⟨v, ws, rfl, hv, hws⟩ := h
    rw [Shape.ItemsComeBack] at comesBack
    rw [List.forall_mem_cons] at each
    obtain ⟨j, back, first⟩ := each.1 v hv comesBack.1
    obtain ⟨js, backs, ⟨hvs, hjs, hbacks⟩, encodes, decodes, same, again⟩ :=
      ih (start + 1) hws comesBack.2 each.2
    refine ⟨j :: js, back :: backs, ⟨by simp [hvs], by simp [hjs], by simp [hbacks]⟩,
      ?_, ?_, ?_, ?_⟩
    · simp only [encodeItems, first.encodes, encodes, Wired.within_ok, ok_bind, pure_eq_ok]
    · simp only [decodeItems, first.decodes, decodes, Wired.within_ok, ok_bind, pure_eq_ok]
    · rw [Value.sameItems, first.same, same, Bool.and_self]
    · simp only [encodeItems, first.encodes_again, again, Wired.within_ok, ok_bind, pure_eq_ok]

/-! ## Maps -/

/-- A key that is recovered as itself from the name it travels as. -/
def Recovers (key : Shape) (k : Value) : Prop :=
  ∃ j name, encode key k = .ok j ∧ memberName j = .ok name ∧ readKey key name = .ok k ∧
    k.same k = true

/-- A conforming key that is recoverable is recovered. -/
theorem recovers {key : Shape} {k : Value} (h : key.Conforms k) (recoverable : key.Recoverable k) :
    Recovers key k := by
  obtain ⟨j, name, written, named⟩ := exists_name_of_recoverable recoverable
  have travels := keyWritten_of_conforms h written named
  exact ⟨j, name, written, named, readKey_of_recoverable travels named recoverable,
    same_of_recoverable travels recoverable⟩

/-- The entries of a map whose keys travel as distinct names are members in the same order. -/
theorem entries_roundTrip {key value : Shape} {entries : List (Value × Value)} {done : Members}
    (new : ∀ e ∈ entries, ∀ name, keyName key e.1 = .ok name → done.lookup name = none)
    (distinct : (entries.map fun e => keyName key e.1).Nodup)
    (keys : ∀ e ∈ entries, Recovers key e.1)
    (values : ∀ e ∈ entries, ∃ j back, RoundTrips value e.2 j back) :
    ∃ ms backs, encodeEntries (encode key) (encode value) done entries = .ok (done ++ ms) ∧
      decodeMembers key (decode key) (decode value) ms = .ok backs ∧
      Value.sameEntries backs entries = true ∧
      encodeEntries (encode key) (encode value) done backs = .ok (done ++ ms) := by
  induction entries generalizing done with
  | nil =>
    refine ⟨[], [], ?_, ?_, ?_, ?_⟩
    · rw [encodeEntries, List.append_nil]
    · rw [decodeMembers]
    · rw [Value.sameEntries]
    · rw [encodeEntries, List.append_nil]
  | cons e rest ih =>
    obtain ⟨k, v⟩ := e
    rw [List.forall_mem_cons] at new keys values
    rw [List.map_cons, List.nodup_cons] at distinct
    obtain ⟨⟨jk, name, written, named, read, sameKey⟩, keys⟩ := keys
    obtain ⟨kj, stands, keyed⟩ := bind_eq_ok.1 read
    obtain ⟨⟨jv, vback, vtrip⟩, values⟩ := values
    have hname : keyName key k = .ok name := by simp only [keyName, written, ok_bind, named]
    have enter : putEntry done name jv = done ++ [(name, jv)] :=
      putEntry_of_lookup_eq_none jv (new.1 name hname)
    have new_rest : ∀ e ∈ rest, ∀ n, keyName key e.1 = .ok n →
        (putEntry done name jv).lookup n = none := by
      intro e he n hn
      rw [lookup_putEntry, if_neg, new.2 e he n hn]
      rintro rfl
      exact distinct.1 (List.mem_map.2 ⟨e, he, hn.trans hname.symm⟩)
    obtain ⟨ms, backs, encodes, decodes, same, again⟩ := ih new_rest distinct.2 keys values
    have append : putEntry done name jv ++ ms = done ++ (name, jv) :: ms := by
      rw [enter, List.append_assoc, List.singleton_append]
    refine ⟨(name, jv) :: ms, (k, vback) :: backs, ?_, ?_, ?_, ?_⟩
    · simp only [encodeEntries, written, named, vtrip.encodes, ok_bind, pure_eq_ok,
        Wired.within_ok, encodes, append]
    · simp only [decodeMembers, stands, keyed, vtrip.decodes, ok_bind, pure_eq_ok,
        Wired.within_ok, decodes]
    · rw [Value.sameEntries, sameKey, vtrip.same, same, Bool.and_self, Bool.and_self]
    · simp only [encodeEntries, written, named, vtrip.encodes_again, ok_bind,
        pure_eq_ok, Wired.within_ok, again, append]

/-! ## Records -/

/-- The fields of a record, the members they travel as, and the fields that are read back. -/
structure FieldsRoundTrip (fields : List (String × Shape)) (vs : List (String × Value))
    (ms : Members) (backs : List (String × Value)) : Prop where
  encodes : ∀ done : Members, (∀ f ∈ fields, done.lookup f.1 = none) →
    encodeFields fields vs done = .ok (done ++ ms)
  /-- Nothing travels but declared fields. -/
  declared : ∀ m ∈ ms, m.1 ∈ fields.map (·.1)
  decodes : ∀ members : Members, (∀ f ∈ fields, members.lookup f.1 = ms.lookup f.1) →
    decodeFields fields members = .ok backs
  /-- Every declared field is read back, also one that did not travel. -/
  names : backs.map (·.1) = fields.map (·.1)
  same : ∀ f ∈ backs, f.2.same (Value.fieldOf vs f.1) = true
  encodes_again : ∀ ws : List (String × Value), (∀ f ∈ backs, ws.lookup f.1 = some f.2) →
    ∀ done : Members, (∀ f ∈ fields, done.lookup f.1 = none) →
      encodeFields fields ws done = .ok (done ++ ms)

namespace FieldsRoundTrip

variable {name : String} {s : Shape} {rest : List (String × Shape)}
  {vs : List (String × Value)} {ms : Members} {backs : List (String × Value)}

theorem nil : FieldsRoundTrip [] vs [] [] where
  encodes _ _ := by rw [encodeFields, List.append_nil]
  declared := nofun
  decodes _ _ := by rw [decodeFields]
  names := rfl
  same := nofun
  encodes_again _ _ _ _ := by rw [encodeFields, List.append_nil]

/-- One more field, which is left out. -/
theorem skip (trip : FieldsRoundTrip rest vs ms backs) (new : name ∉ rest.map (·.1))
    (absent : Value.fieldOf vs name = .null) (allowed : s.allowsAbsence = true) :
    FieldsRoundTrip ((name, s) :: rest) vs ms ((name, .null) :: backs) where
  encodes done fresh := by
    rw [List.forall_mem_cons] at fresh
    rw [encodeFields_skip absent allowed, trip.encodes done fresh.2]
  declared m hm := List.mem_cons_of_mem _ (trip.declared m hm)
  decodes members agree := by
    rw [List.forall_mem_cons] at agree
    have missing : ms.lookup name = none := by
      refine lookup_eq_none fun h => ?_
      obtain ⟨m, hm, rfl⟩ := List.mem_map.1 h
      exact new (trip.declared m hm)
    rw [decodeFields_skip (agree.1.trans missing) allowed, trip.decodes members agree.2, ok_bind]
  names := by rw [List.map_cons, List.map_cons, trip.names]
  same := by
    rw [List.forall_mem_cons]
    refine ⟨?_, trip.same⟩
    rw [absent, Value.same]
  encodes_again ws found done fresh := by
    rw [List.forall_mem_cons] at found fresh
    have null : Value.fieldOf ws name = .null := by rw [Value.fieldOf, found.1, Option.getD_some]
    rw [encodeFields_skip null allowed, trip.encodes_again ws found.2 done fresh.2]

/-- One more field, which travels. -/
theorem present (trip : FieldsRoundTrip rest vs ms backs) (new : name ∉ rest.map (·.1)) {v : Value}
    (there : vs.lookup name = some v) (needed : v = .null → s.allowsAbsence = false) {j : Json}
    {back : Value} (field : RoundTrips s v j back) :
    FieldsRoundTrip ((name, s) :: rest) vs ((name, j) :: ms) ((name, back) :: backs) := by
  have fresh_rest {done : Members} (fresh : ∀ f ∈ rest, done.lookup f.1 = none) :
      ∀ f ∈ rest, (putEntry done name j).lookup f.1 = none := by
    intro f hf
    rw [lookup_putEntry, if_neg, fresh f hf]
    rintro rfl
    exact new (List.mem_map.2 ⟨f, hf, rfl⟩)
  have append {done : Members} (fresh : done.lookup name = none) :
      putEntry done name j ++ ms = done ++ (name, j) :: ms := by
    rw [putEntry_of_lookup_eq_none j fresh, List.append_assoc, List.singleton_append]
  constructor
  case encodes =>
    intro done fresh
    rw [List.forall_mem_cons] at fresh
    rw [encodeFields_present there needed, field.encodes, Wired.within_ok, ok_bind,
      trip.encodes _ (fresh_rest fresh.2), append fresh.1]
  case declared =>
    intro m hm
    rcases List.mem_cons.1 hm with rfl | hm
    · exact List.mem_cons_self ..
    · exact List.mem_cons_of_mem _ (trip.declared m hm)
  case decodes =>
    intro members agree
    rw [List.forall_mem_cons] at agree
    have found : members.lookup name = some j := by rw [agree.1, List.lookup_cons_self]
    have others : ∀ f ∈ rest, members.lookup f.1 = ms.lookup f.1 := by
      intro f hf
      rw [agree.2 f hf, lookup_cons_eq, if_neg]
      rintro rfl
      exact new (List.mem_map.2 ⟨f, hf, rfl⟩)
    rw [decodeFields_present found, field.decodes, Wired.within_ok, ok_bind,
      trip.decodes members others, ok_bind]
  case names => rw [List.map_cons, List.map_cons, trip.names]
  case same =>
    rw [List.forall_mem_cons]
    refine ⟨?_, trip.same⟩
    rw [Value.fieldOf, there, Option.getD_some]
    exact field.same
  case encodes_again =>
    intro ws found done fresh
    rw [List.forall_mem_cons] at found fresh
    have needed_again : back = .null → s.allowsAbsence = false := by
      rintro rfl
      exact needed (Value.same_null_left field.same)
    rw [encodeFields_present found.1 needed_again, field.encodes_again, Wired.within_ok, ok_bind,
      trip.encodes_again ws found.2 _ (fresh_rest fresh.2), append fresh.1]

end FieldsRoundTrip

/-- The fields of a record come back when each value that is there does. -/
theorem fields_roundTrip {fields : List (String × Shape)} {vs : List (String × Value)}
    (distinct : (fields.map (·.1)).Nodup) (h : Shape.FieldsConform fields vs)
    (each : ∀ f ∈ fields, ∀ v, vs.lookup f.1 = some v → f.2.Conforms v →
      ∃ j back, RoundTrips f.2 v j back) :
    ∃ ms backs, FieldsRoundTrip fields vs ms backs := by
  induction fields with
  | nil => exact ⟨[], [], .nil⟩
  | cons f rest ih =>
    obtain ⟨name, s⟩ := f
    rw [List.map_cons, List.nodup_cons] at distinct
    rw [List.forall_mem_cons] at each
    rw [Shape.FieldsConform] at h
    obtain ⟨ms, backs, trip⟩ := ih distinct.2 h.2 each.2
    cases there : vs.lookup name with
    | none =>
      have absent : Value.fieldOf vs name = .null := by rw [Value.fieldOf, there, Option.getD_none]
      simp only [there] at h
      exact ⟨ms, _, trip.skip distinct.1 absent h.1⟩
    | some v =>
      simp only [there] at h
      by_cases left : v = .null ∧ s.allowsAbsence = true
      · have absent : Value.fieldOf vs name = .null := by
          rw [Value.fieldOf, there, Option.getD_some, left.1]
        exact ⟨ms, _, trip.skip distinct.1 absent left.2⟩
      · obtain ⟨j, back, field⟩ := each.1 v there h.1
        have needed : v = .null → s.allowsAbsence = false := fun null =>
          Bool.eq_false_iff.2 fun allowed => left ⟨null, allowed⟩
        exact ⟨(name, j) :: ms, _, trip.present distinct.1 there needed field⟩

/-- **A record goes round trip**: what is read back has every declared field, what is absent as
null. -/
theorem record_roundTrip (name : String) {fields : List (String × Shape)}
    {vs : List (String × Value)} (distinct : (fields.map (·.1)).Nodup)
    (known : ∀ f ∈ vs, f.1 ∈ fields.map (·.1) ∨ f.2 = .null)
    (h : Shape.FieldsConform fields vs)
    (each : ∀ f ∈ fields, ∀ v, vs.lookup f.1 = some v → f.2.Conforms v →
      ∃ j back, RoundTrips f.2 v j back) :
    ∃ ms backs, encodeFields fields vs [] = .ok ms ∧ decodeFields fields ms = .ok backs ∧
      (Value.ofFields name backs).same (.record name vs) = true ∧
      encodeFields fields (Value.enterFields [] backs) [] = .ok ms := by
  obtain ⟨ms, backs, trip⟩ := fields_roundTrip distinct h each
  have distinct_backs : (backs.map (·.1)).Nodup := trip.names ▸ distinct
  have found : ∀ f ∈ backs, (Value.enterFields [] backs).lookup f.1 = some f.2 := by
    intro f hf
    rw [Value.lookup_ofFields distinct_backs]
    exact lookup_eq_some_of_mem distinct_backs hf
  refine ⟨ms, backs, ?_, ?_, ?_, ?_⟩
  · simpa using trip.encodes [] fun _ _ => List.lookup_nil
  · exact trip.decodes ms fun _ _ => rfl
  · rw [Value.ofFields_eq, Value.same, beq_self_eq_true, Bool.true_and, Bool.and_eq_true]
    refine ⟨Value.sameFields_iff.2 fun f hf => ?_, List.all_eq_true.2 fun g hg => ?_⟩
    · rcases Value.mem_enterFields hf with inBacks | inNone
      · exact trip.same f inBacks
      · cases inNone
    · rcases known g hg with declared | null
      · rw [← trip.names] at declared
        obtain ⟨f, hf, same⟩ := List.mem_map.1 declared
        rw [← same, found f hf, Option.isSome_some, Bool.true_or]
      · rw [null, Value.isNull, Bool.or_true]
  · simpa using trip.encodes_again _ found [] fun _ _ => List.lookup_nil

/-! ## Every value -/

/-- A list goes round trip item by item. -/
theorem array_roundTrips {element : Shape} {vs : List Value}
    (each : ∀ v ∈ vs, ∃ j back, RoundTrips element v j back) :
    ∃ j back, RoundTrips (.list element) (.list vs) j back := by
  obtain ⟨js, backs, encodes, decodes, same, again⟩ := list_roundTrips 0 each
  refine ⟨.array js, .list backs, ?_, ?_, ?_, ?_⟩
  · rw [encode, encodes, ok_bind, pure_eq_ok]
  · rw [decode, decodes, ok_bind, pure_eq_ok]
  · rw [Value.same, same]
  · rw [encode, again, ok_bind, pure_eq_ok]

/-- A map goes round trip entry by entry, if its keys are recovered from distinct names. -/
theorem mapping_roundTrips {key value : Shape} {entries : List (Value × Value)}
    (distinct : (entries.map fun e => keyName key e.1).Nodup)
    (keys : ∀ e ∈ entries, Recovers key e.1)
    (values : ∀ e ∈ entries, ∃ j back, RoundTrips value e.2 j back) :
    ∃ j back, RoundTrips (.mapping key value) (.map entries) j back := by
  obtain ⟨ms, backs, encodes, decodes, same, again⟩ :=
    @entries_roundTrip key value entries [] (fun _ _ _ _ => List.lookup_nil) distinct keys values
  rw [List.nil_append] at encodes again
  refine ⟨.object ms, .map backs, ?_, ?_, ?_, ?_⟩
  · rw [encode, encodes, ok_bind, pure_eq_ok]
  · rw [decode, decodes, ok_bind, pure_eq_ok]
  · rw [Value.same, same]
  · rw [encode, again, ok_bind, pure_eq_ok]

/-- Null goes round trip as itself; anything else that conforms to an optional type does not travel
as null, so it is read as what it is. -/
theorem optional_roundTrips {inner : Shape} {v : Value} (h : (Shape.optional inner).Conforms v)
    (present : inner.Conforms v → ∃ j back, RoundTrips inner v j back) :
    ∃ j back, RoundTrips (.optional inner) v j back := by
  rw [Shape.Conforms] at h
  by_cases null : v = .null
  · subst null
    refine ⟨.null, .null, ?_, ?_, ?_, ?_⟩
    · rw [encode]
    · rw [decode]
    · rw [Value.same]
    · rw [encode]
  · obtain ⟨notRaw, conform⟩ := h.resolve_left null
    obtain ⟨j, back, trip⟩ := present conform
    have written : j ≠ .null := by
      rintro rfl
      exact encode_ne_null conform null notRaw trip.encodes
    have read : back ≠ .null := by
      rintro rfl
      exact null (Value.same_null_left trip.same)
    refine ⟨j, back, ?_, ?_, trip.same, ?_⟩
    · rw [encode_optional null, trip.encodes]
    · rw [decode_optional written, trip.decodes]
    · rw [encode_optional read, trip.encodes_again]

/-- **Every conforming value goes round trip**, if its instants are regular and its keys
recoverable. -/
theorem roundTrips {s : Shape} {v : Value} (h : s.Conforms v) (comesBack : s.ComesBack v) :
    ∃ j back, RoundTrips s v j back := by
  induction s generalizing v with
  | scalar kind =>
    rw [Shape.Conforms] at h
    obtain ⟨j, trip⟩ := scalar_roundTrips h
    exact ⟨j, v, trip⟩
  | temporal kind =>
    rw [Shape.Conforms] at h
    rw [Shape.ComesBack] at comesBack
    obtain ⟨j, trip⟩ := temporal_roundTrips h comesBack
    exact ⟨j, v, trip⟩
  | enum e =>
    rw [Shape.Conforms] at h
    obtain ⟨j, trip⟩ := enum_roundTrips h
    exact ⟨j, v, trip⟩
  | list element ih =>
    rw [Shape.Conforms] at h
    obtain ⟨vs, rfl, conform⟩ := h
    rw [Shape.ComesBack] at comesBack
    exact array_roundTrips fun v hv => ih (conform v hv) (comesBack v hv)
  | tuple items ih =>
    rw [Shape.Conforms] at h
    obtain ⟨vs, rfl, conform⟩ := h
    rw [Shape.ComesBack] at comesBack
    obtain ⟨js, backs, ⟨hvs, hjs, hbacks⟩, encodes, decodes, same, again⟩ :=
      items_roundTrip 0 conform comesBack fun s hs v => ih s hs
    refine ⟨.array js, .list backs, ?_, ?_, ?_, ?_⟩
    · rw [encode, if_pos hvs, encodes, ok_bind, pure_eq_ok]
    · rw [decode, if_pos hjs, decodes, ok_bind, pure_eq_ok]
    · rw [Value.same, same]
    · rw [encode, if_pos hbacks, again, ok_bind, pure_eq_ok]
  | mapping key value _ ih =>
    rw [Shape.Conforms] at h
    obtain ⟨entries, rfl, distinct, conform⟩ := h
    rw [Shape.ComesBack] at comesBack
    exact mapping_roundTrips distinct (fun e he => recovers (conform e he).1 (comesBack e he).1)
      fun e he => ih (conform e he).2 (comesBack e he).2
  | optional inner ih =>
    rw [Shape.ComesBack] at comesBack
    exact optional_roundTrips h fun conform => ih conform comesBack
  | record name fields ih | bareTemplate _ name fields ih | opened _ name fields ih =>
    obtain ⟨vs, rfl, distinct, known, conform⟩ := (Shape.conforms_record (by constructor)).1 h
    have comesBack := (Shape.comesBack_record (by constructor)).1 comesBack
    obtain ⟨ms, backs, encodes, decodes, same, again⟩ :=
      record_roundTrip name distinct known conform fun f hf v there conforms => by
        have field := comesBack f hf
        rw [Value.fieldOf, there, Option.getD_some] at field
        exact ih f hf conforms field
    refine ⟨.object ms, .ofFields name backs, ?_, ?_, same, ?_⟩
    · rw [encode, encodes, ok_bind, pure_eq_ok]
    · rw [decode, decodes, ok_bind, pure_eq_ok]
    · rw [Value.ofFields_eq, encode, again, ok_bind, pure_eq_ok]
  | wrapper _ _ inner ih =>
    rw [Shape.Conforms] at h
    rw [Shape.ComesBack] at comesBack
    obtain ⟨j, back, trip⟩ := ih h comesBack
    refine ⟨j, back, ?_, ?_, trip.same, ?_⟩
    · rw [encode, trip.encodes]
    · rw [decode, trip.decodes]
    · rw [encode, trip.encodes_again]
  | blocked d obstacle =>
    rw [Shape.Conforms] at h
    exact h.elim

/-- What is written for a value that comes back is taken for it. -/
theorem takenFor_of_conforms {s : Shape} {v : Value} {j : Json} (h : s.Conforms v)
    (comesBack : s.ComesBack v) (written : encode s v = .ok j) : TakenFor s j v := by
  obtain ⟨j', back, trip⟩ := roundTrips h comesBack
  obtain rfl : j = j' := Except.ok.inj (written.symm.trans trip.encodes)
  exact ⟨back, trip.decodes, trip.same⟩

/-! ## Nothing else comes back -/

/-- An instant that is taken for what it was has no leap nanosecond outside second 59. -/
theorem regular_of_taken {kind : TemporalKind} {v : Value} {j : Json} (h : kind.Carries v)
    (written : encode (.temporal kind) v = .ok j) (taken : TakenFor (.temporal kind) j v) :
    v.Regular := by
  obtain ⟨back, read, same⟩ := taken
  have conforms : (Shape.temporal kind).Conforms v := by rwa [Shape.Conforms]
  obtain ⟨t, rfl⟩ : ∃ t, j = .string t := by
    rw [encode] at written
    cases h <;> cases written <;> exact ⟨_, rfl⟩
  exact (intact_of_decode_text (keyWritten_of_conforms conforms written rfl) read same).2

/-- Items that are taken for what they were come back. -/
theorem itemsComeBack_of_taken {items : List Shape} {start : Nat} {vs : List Value} {js : List Json}
    (h : Shape.ItemsConform items vs) (written : encodeItems items start vs = .ok js)
    (taken : ItemsTaken items js vs)
    (each : ∀ s ∈ items, ∀ {v j}, s.Conforms v → encode s v = .ok j → TakenFor s j v →
      s.ComesBack v) : Shape.ItemsComeBack items vs := by
  induction items generalizing start vs js with
  | nil => trivial
  | cons s rest ih =>
    rw [Shape.ItemsConform] at h
    obtain ⟨v, ws, rfl, hv, hws⟩ := h
    obtain ⟨j, others, rfl, first, written⟩ := written_items written
    obtain ⟨_, _, _, _, ⟨⟩, ⟨⟩, takenFirst, taken⟩ := taken
    rw [List.forall_mem_cons] at each
    rw [Shape.ItemsComeBack]
    exact ⟨each.1 hv first takenFirst, ih hws written taken each.2⟩

/-- A key that is read as what it was is recoverable. -/
theorem recoverable_of_taken {key value : Shape} {m : String × Json} {e : Value × Value}
    (h : key.Conforms e.1) (written : keyName key e.1 = .ok m.1)
    (taken : EntryTaken key value m e) : key.Recoverable e.1 := by
  obtain ⟨j, written, named⟩ := bind_eq_ok.1 written
  obtain ⟨⟨k, read, same⟩, -⟩ := taken
  exact recoverable_of_readKey (keyWritten_of_conforms h written named) named read same

/-- Fields that are taken for what they were come back. -/
theorem fieldsComeBack_of_taken {name : String} {fields : List (String × Shape)}
    {vs : List (String × Value)} {ms : Members} {s : Shape} (reads : ReadsFields s name fields)
    (distinct : (fields.map (·.1)).Nodup)
    (known : ∀ f ∈ vs, f.1 ∈ fields.map (·.1) ∨ f.2 = .null)
    (h : Shape.FieldsConform fields vs) (written : encodeFields fields vs [] = .ok ms)
    (taken : TakenFor s (.object ms) (.record name vs))
    (each : ∀ f ∈ fields, ∀ {v j}, f.2.Conforms v → encode f.2 v = .ok j → TakenFor f.2 j v →
      f.2.ComesBack v) : ∀ f ∈ fields, f.2.ComesBack (Value.fieldOf vs f.1) := by
  obtain ⟨-, -, fieldsWritten⟩ := written_record distinct written
  intro f hf
  cases there : vs.lookup f.1 with
  | none =>
    rw [Value.fieldOf, there, Option.getD_none]
    exact Shape.comesBack_null _
  | some v =>
    have field : Value.fieldOf vs f.1 = v := by rw [Value.fieldOf, there, Option.getD_some]
    have conforms := Shape.conforms_of_lookup h hf there
    have taken := (takenFor_record reads distinct known).1 taken f hf
    have written := fieldsWritten f hf
    rw [FieldWritten, field] at written
    rw [field] at taken ⊢
    rcases written with ⟨rfl, -⟩ | ⟨-, j, written, member⟩
    · exact Shape.comesBack_null _
    rcases taken with ⟨j', member', taken⟩ | ⟨missing, -⟩
    · obtain rfl : j = j' := Option.some.inj (member.symm.trans member')
      exact each f hf conforms written taken
    · rw [missing] at member
      cases member

/-- **No other value is read as the same again.** -/
theorem comesBack_of_taken {s : Shape} {v : Value} {j : Json} (h : s.Conforms v)
    (written : encode s v = .ok j) (taken : TakenFor s j v) : s.ComesBack v := by
  induction s generalizing v j with
  | scalar kind | enum e => trivial
  | temporal kind =>
    rw [Shape.Conforms] at h
    rw [Shape.ComesBack]
    exact regular_of_taken h written taken
  | list element ih =>
    rw [Shape.Conforms] at h
    obtain ⟨vs, rfl, conform⟩ := h
    obtain ⟨_, js, ⟨⟩, rfl, writtenAll⟩ := written_list written
    have both := List.Forall₂.mp (fun _ _ => And.intro) writtenAll (takenFor_list.1 taken).flip
    rw [Shape.ComesBack]
    intro w hw
    obtain ⟨k, -, written, taken⟩ := exists_of_forall₂ both.flip hw
    exact ih (conform w hw) written taken
  | tuple items ih =>
    rw [Shape.Conforms] at h
    obtain ⟨vs, rfl, conform⟩ := h
    obtain ⟨_, js, ⟨⟩, rfl, -, writtenAll⟩ := written_tuple written
    rw [Shape.ComesBack]
    exact itemsComeBack_of_taken conform writtenAll (takenFor_tuple.1 taken) fun s hs => ih s hs
  | mapping key value _ ih =>
    rw [Shape.Conforms] at h
    obtain ⟨entries, rfl, distinct, conform⟩ := h
    obtain ⟨members, rfl, writtenAll⟩ := written_mapping distinct written
    have both := List.Forall₂.mp (fun _ _ => And.intro) writtenAll (takenFor_mapping.1 taken).flip
    rw [Shape.ComesBack]
    intro e he
    obtain ⟨m, -, ⟨named, written⟩, taken⟩ := exists_of_forall₂ both.flip he
    exact ⟨recoverable_of_taken (conform e he).1 named taken,
      ih (conform e he).2 written taken.2⟩
  | optional inner ih =>
    rw [Shape.Conforms] at h
    rw [Shape.ComesBack]
    by_cases null : v = .null
    · subst null
      exact Shape.comesBack_null inner
    · obtain ⟨notRaw, conform⟩ := h.resolve_left null
      rw [encode_optional null] at written
      have present : j ≠ .null := by
        rintro rfl
        exact encode_ne_null conform null notRaw written
      exact ih conform written ((takenFor_optional present).1 taken)
  | record name fields ih | bareTemplate _ name fields ih | opened _ name fields ih =>
    obtain ⟨vs, rfl, distinct, known, conform⟩ := (Shape.conforms_record (by constructor)).1 h
    rw [encode] at written
    obtain ⟨ms, writtenAll, written⟩ := bind_eq_ok.1 written
    cases written
    exact (Shape.comesBack_record (by constructor)).2
      (fieldsComeBack_of_taken (by constructor) distinct known conform writtenAll taken ih)
  | wrapper record field inner ih =>
    rw [Shape.Conforms] at h
    rw [encode] at written
    rw [Shape.ComesBack]
    exact ih h written (takenFor_wrapper.1 taken)
  | blocked d obstacle =>
    rw [Shape.Conforms] at h
    exact h.elim

end Wire

namespace Descriptor

open Wire

/-- **The round trip of a service.**  A conforming value is written and read back as the same value
exactly if its instants have no leap second out of place and its keys are recoverable; and what is
read back as the same value is written in the same way again. -/
theorem roundTrip_iff (d : Descriptor) (v : Value) (h : d.Conforms v) :
    ((∃ j back, d.encode v = .ok j ∧ d.decode j = .ok back ∧ back.same v = true) ↔
      d.ComesBack v) ∧
    ∀ j back, d.encode v = .ok j → d.decode j = .ok back → back.same v = true →
      d.encode back = .ok j := by
  have comesBack {j : Json} {back : Value} (written : d.encode v = .ok j)
      (read : d.decode j = .ok back) (same : back.same v = true) : d.ComesBack v :=
    comesBack_of_taken h written ⟨back, read, same⟩
  refine ⟨⟨fun ⟨j, back, written, read, same⟩ => comesBack written read same, fun regular => ?_⟩,
    fun j back written read same => ?_⟩
  · obtain ⟨j, back, trip⟩ := roundTrips h regular
    exact ⟨j, back, trip.encodes, trip.decodes, trip.same⟩
  · obtain ⟨j', back', trip⟩ := roundTrips h (comesBack written read same)
    obtain rfl : j = j' := Except.ok.inj (written.symm.trans trip.encodes)
    obtain rfl : back = back' := Except.ok.inj (read.symm.trans trip.decodes)
    exact trip.encodes_again

/-- A page of dictionaries whose second field is left out: a leap second that ends a minute comes
back, one in the middle of a minute does not.  Nor does a number as the key of an optional type. -/
theorem roundTrip_iff_page :
    let page := Descriptor.application
      (.template "Page" ["T"] [("items", .list (.param "T")), ("next", .optional (.param "T"))])
      [.mapping (.scalar .int) (.optional (.temporal .dateTime))]
    let v (i : Instant) := Value.record "Page"
      [("items", .list [.map [(.int 1, .null), (.int (-1), .dateTime i)]])]
    let atEnd : Instant := ⟨1709289059, 1500000000⟩
    let within : Instant := ⟨1709289015, 1500000000⟩
    let sevens := Descriptor.mapping (.optional (.scalar .int)) (.scalar .string)
    let seven := Value.map [(.int 7, .string "seven")]
    (page.Conforms (v atEnd) ∧ ∃ j back, page.encode (v atEnd) = .ok j ∧ page.decode j = .ok back ∧
      back.same (v atEnd) = true) ∧
    (page.Conforms (v within) ∧ ¬∃ j back, page.encode (v within) = .ok j ∧
      page.decode j = .ok back ∧ back.same (v within) = true) ∧
    (sevens.Conforms seven ∧ ¬∃ j back, sevens.encode seven = .ok j ∧ sevens.decode j = .ok back ∧
      back.same seven = true) := by
  intro page v atEnd within sevens seven
  have shape : page.shape = .record "Page"
      [("items", .list (.mapping (.scalar .int) (.optional (.temporal .dateTime)))),
        ("next", .optional (.mapping (.scalar .int) (.optional (.temporal .dateTime))))] := rfl
  have conforms {i : Instant} (few : i.nanos < 2 * Calendar.second) (low : 0 ≤ i.civil.year)
      (high : i.civil.year ≤ 9999) : page.Conforms (v i) := by
    have names : (["1", "-1"].map (Except.ok (ε := WireError))).Nodup :=
      List.Nodup.map (fun _ _ => Except.ok.inj) (by decide)
    have key (n : Int64) : (Shape.scalar .int).Conforms (.int n) := by
      rw [Shape.Conforms]
      exact .int n
    have present : (Shape.optional (.temporal .dateTime)).Conforms (.dateTime i) := by
      rw [Shape.Conforms, Shape.Conforms]
      exact Or.inr ⟨Value.noConfusion, .dateTime few low high⟩
    have absent : (Shape.optional (.temporal .dateTime)).Conforms .null := by
      rw [Shape.Conforms]
      exact Or.inl rfl
    rw [Descriptor.Conforms, shape, Shape.Conforms]
    refine ⟨_, rfl, by decide, by simp, ?_⟩
    have entries : ∀ e ∈ [(Value.int 1, Value.null), (Value.int (-1), Value.dateTime i)],
        (Shape.scalar .int).Conforms e.1 ∧ (Shape.optional (.temporal .dateTime)).Conforms e.2 :=
      List.forall_mem_cons.2 ⟨⟨key 1, absent⟩, List.forall_mem_singleton.2 ⟨key (-1), present⟩⟩
    have dictionary : (Shape.mapping (.scalar .int) (.optional (.temporal .dateTime))).Conforms
        (.map [(.int 1, .null), (.int (-1), .dateTime i)]) := by
      rw [Shape.Conforms]
      exact ⟨_, rfl, names, entries⟩
    simp only [Shape.FieldsConform, lookup_cons_eq, reduceIte]
    refine ⟨?_, rfl, trivial⟩
    rw [Shape.Conforms]
    exact ⟨_, rfl, List.forall_mem_singleton.2 dictionary⟩
  have regular {i : Instant} (comesBack : page.ComesBack (v i)) : i.Regular := by
    rw [Descriptor.ComesBack, shape] at comesBack
    have entries := (Shape.comesBack_record (.record "Page" _)).1 comesBack _ (.head _) _ (.head _)
    exact (entries _ (.tail _ (.head _))).2 i .here
  have comesBack {i : Instant} (regular : i.Regular) : page.ComesBack (v i) := by
    have entries : ∀ e ∈ [(Value.int 1, Value.null), (Value.int (-1), Value.dateTime i)],
        (Shape.scalar .int).Recoverable e.1 ∧
          (Shape.optional (.temporal .dateTime)).ComesBack e.2 := by
      refine List.forall_mem_cons.2 ⟨⟨.int 1, Shape.comesBack_null _⟩, ?_⟩
      refine List.forall_mem_singleton.2 ⟨.int (-1), fun k hk => ?_⟩
      cases hk
      exact regular
    rw [Descriptor.ComesBack, shape, Shape.comesBack_record (.record "Page" _)]
    exact List.forall_mem_cons.2 ⟨List.forall_mem_singleton.2 entries,
      List.forall_mem_singleton.2 trivial⟩
  have conformsEnd : page.Conforms (v atEnd) := conforms (by decide) (by decide) (by decide)
  have conformsWithin : page.Conforms (v within) := conforms (by decide) (by decide) (by decide)
  have conformsSeven : sevens.Conforms seven := by
    change (Shape.mapping (.optional (.scalar .int)) (.scalar .string)).Conforms seven
    simp only [Shape.Conforms]
    exact ⟨_, rfl, List.pairwise_singleton _ _,
      List.forall_mem_singleton.2 ⟨Or.inr ⟨Value.noConfusion, .int 7⟩, .string _⟩⟩
  refine ⟨⟨conformsEnd, (roundTrip_iff page _ conformsEnd).1.2 (comesBack (Or.inr (by decide)))⟩,
    ⟨conformsWithin, fun back => ?_⟩, conformsSeven, fun back => ?_⟩
  · exact absurd (regular ((roundTrip_iff page _ conformsWithin).1.1 back)) (by decide)
  · have keys := ((roundTrip_iff sevens _ conformsSeven).1.1 back) _ (.head _)
    cases keys.1 with
    | text written => cases written

end Descriptor

end RpcBridge
