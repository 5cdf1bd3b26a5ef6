import Mathlib
import RpcBridge.Proofs.Wire.RoundTrip
import RpcBridge.Proofs.Wire.Typed

/-!
# Proofs/Wire/Echo — what a service accepts it can echo

What has been read can be written, and what is written then is read as the same value.  There is one
exception: an instant is read with an offset that may take it out of the years that have four
digits, and then its text in UTC is no timestamp any more.  So an echo is accepted exactly when the
value is *timely* (`Descriptor.echo`).

* `Shape.conforms_of_decode` — what is read is a timely value's worth of `Shape.Conforms`;
* `Wire.exists_encode`, `Wire.comesBack_of_holds` — a value that has a shape can be written, and
  comes back;
* `Wire.timely_of_echo` — an echo that is accepted is that of a timely value.
-/

namespace RpcBridge

/-! ## What is asked of values and types -/

/-- The members of an enum have distinct names, and no JSON value denotes two of them. -/
structure EnumDef.Unambiguous (e : EnumDef) : Prop where
  names : (e.members.map (·.name)).Nodup
  literals : ∀ m ∈ e.members, ∀ n ∈ e.members, ∀ j, m.value.accepts j = true →
    n.value.accepts j = true → m = n

/-- A shape without dictionaries, whose records have fields of distinct names and whose enums are
unambiguous. -/
structure Shape.Plain (s : Shape) : Prop where
  mapless : ∀ key value, ¬(Shape.mapping key value).OccursIn s
  distinct : ∀ q : Shape, q.OccursIn s → q.fieldNames.Nodup
  enums : ∀ e, (Shape.enum e).OccursIn s → e.Unambiguous

/-- A descriptor without dictionaries, whose records have fields of distinct names and whose enums
are unambiguous. -/
structure Descriptor.Plain (d : Descriptor) : Prop where
  mapless : ∀ key value, ¬(Descriptor.mapping key value).OccursIn d
  distinct : d.Distinct
  enums : ∀ e, (Descriptor.enum e).OccursIn d → e.Unambiguous

theorem Shape.Plain.part {s t : Shape} (h : s.Plain)
    (part : ∀ q : Shape, q.OccursIn t → q.OccursIn s) : t.Plain where
  mapless key value there := h.mapless key value (part _ there)
  distinct q hq := h.distinct q (part q hq)
  enums e he := h.enums e (part _ he)

theorem Descriptor.Plain.shape {d : Descriptor} (h : d.Plain) : d.shape.Plain where
  mapless key value there := by
    obtain ⟨p, hp, comes⟩ := exists_part_of_shape there
    obtain ⟨key, value, rfl⟩ := comes.mapping key value rfl
    exact h.mapless key value hp
  distinct q hq := by
    obtain ⟨p, hp, comes⟩ := exists_part_of_shape hq
    exact (h.distinct p hp).sublist comes.names
  enums e he := by
    obtain ⟨p, hp, comes⟩ := exists_part_of_shape he
    obtain rfl := comes.enum e rfl
    exact h.enums e hp

/-! ## What is read conforms -/

/-- A literal that denotes anything denotes what it is written as. -/
theorem EnumLiteral.accepts_toJson {l : EnumLiteral} {j : Json} (h : l.accepts j = true) :
    l.accepts l.toJson = true := by
  cases l with
  | int n => simp [toJson, accepts, Json.ofInt64, JsonNumber.toInt64?, Whole.toInt64?_ofInt64]
  | text s => simp [toJson, accepts]
  | float x =>
    cases j with
    | number m =>
      obtain ⟨y, finite⟩ := m.exists_finite
      rw [accepts, finite] at h
      cases x with
      | finite x => simp [toJson, accepts, Json.ofDouble, JsonNumber.ofDouble?,
          JsonNumber.toDouble, Double.same, Finite.same]
      | infinity s => cases h
      | nan => cases h
    | _ => cases h

namespace Shape

open Wire

theorem carries_of_decodeScalar {kind : ScalarKind} {j : Json} {v : Value} (settled : j.Settled)
    (h : decodeScalar kind j = .ok v) : kind.Carries v := by
  cases holds_of_decodeScalar h with
  | string s => exact .string s
  | bool b => exact .bool b
  | int n => exact .int n
  | float x => exact .float x
  | any k =>
    obtain rfl : k = j := read_raw (s := .scalar .any) (by rw [decode, h])
    exact .any settled
  | anyList items =>
    obtain rfl : .array items = j := read_raw (s := .scalar .anyList) (by rw [decode, h])
    exact .anyList settled
  | none => exact .none

theorem carries_of_decodeEnum {e : EnumDef} {j : Json} {v : Value} (enum : e.Unambiguous)
    (h : decodeEnum e j = .ok v) : e.Carries v := by
  unfold decodeEnum at h
  split at h
  case h_2 => cases h
  next m found =>
    cases h
    obtain ⟨declared, accepted⟩ := EnumDef.mem_of_memberFor? found
    have self := EnumLiteral.accepts_toJson accepted
    obtain ⟨first, hfirst⟩ := EnumDef.exists_memberFor? declared self
    obtain ⟨inFirst, acceptsFirst⟩ := EnumDef.mem_of_memberFor? hfirst
    obtain rfl := enum.literals first inFirst m declared _ acceptsFirst self
    exact ⟨first, first, rfl, EnumDef.member?_name enum.names declared, hfirst, rfl⟩

theorem itemsConform {items : List Shape} {vs : List Value}
    (h : List.Forall₂ (fun s v => v.Timely → s.Conforms v) items vs)
    (timely : ∀ v ∈ vs, v.Timely) : ItemsConform items vs := by
  induction h with
  | nil => rw [ItemsConform]
  | cons first _ ih =>
    rw [List.forall_mem_cons] at timely
    rw [ItemsConform]
    exact ⟨_, _, rfl, first timely.1, ih timely.2⟩

theorem fieldsConform {fields : List (String × Shape)} {vs : List (String × Value)}
    (each : ∀ f ∈ fields, ∃ v, vs.lookup f.1 = some v ∧ f.2.Conforms v) :
    FieldsConform fields vs := by
  induction fields with
  | nil => rw [FieldsConform]; trivial
  | cons f rest ih =>
    rw [List.forall_mem_cons] at each
    obtain ⟨⟨v, there, conforms⟩, others⟩ := each
    rw [FieldsConform, there]
    exact ⟨conforms, ih others⟩

theorem conforms_null {s : Shape} (allowed : s.allowsAbsence = true) : s.Conforms .null := by
  unfold allowsAbsence at allowed
  split at allowed
  · rw [Conforms]
    exact Or.inl rfl
  · rw [Conforms]
    exact .none
  · cases allowed

/-- What is read for a record conforms to it, if what is read for each field does. -/
theorem conforms_of_record {s : Shape} {name : String} {fields : List (String × Shape)} {j : Json}
    {v : Value} (reads : ReadsFields s name fields) (plain : s.Plain) (settled : j.Settled)
    (timely : v.Timely) (h : decode s j = .ok v)
    (each : ∀ f ∈ fields, ∀ {j v}, f.2.Plain → j.Settled → v.Timely → decode f.2 j = .ok v →
      f.2.Conforms v) : s.Conforms v := by
  have distinct : (fields.map (·.1)).Nodup := reads.fieldNames ▸ plain.distinct s .here
  have member {n : String} {m : Json} (there : j.member? n = some m) : m.Settled := by
    cases settled with
    | object _ inner => exact inner _ (mem_of_lookup_eq_some there)
    | _ => cases there
  obtain ⟨vs, rfl, names, all⟩ := fields_of_record (R := fun s v => v.Timely → s.Conforms v) reads
    distinct (fun f hf m there _ read timely =>
      each f hf (plain.part fun _ => reads.occursIn hf) (member there) timely read)
    (fun _ _ allowed _ => conforms_null allowed) h
  rw [conforms_record reads]
  refine ⟨vs, rfl, distinct, fun g hg => Or.inl (names.mem_iff.1 (List.mem_map.2 ⟨g, hg, rfl⟩)),
    fieldsConform fun f hf => ?_⟩
  obtain ⟨w, there⟩ := exists_lookup (names.mem_iff.2 (List.mem_map.2 ⟨f, hf, rfl⟩))
  have hw := mem_of_lookup_eq_some there
  exact ⟨w, there, all f hf w hw fun i hi => timely i (.field hw hi)⟩

/-- **What is read for a plain shape conforms to it**, as far as its instants can be written. -/
theorem conforms_of_decode {s : Shape} {j : Json} {v : Value} (plain : s.Plain)
    (settled : j.Settled) (timely : v.Timely) (h : decode s j = .ok v) : s.Conforms v := by
  induction s generalizing j v with
  | scalar kind =>
    rw [decode] at h
    rw [Conforms]
    exact carries_of_decodeScalar settled h
  | temporal kind =>
    rw [decode] at h
    rw [Conforms]
    cases holds_of_decodeTemporal h with
    | date d => exact .date d
    | dateTime valid =>
      obtain ⟨low, high⟩ := timely _ .here
      exact .dateTime (Instant.regular_of_isValid valid).1 low high
  | enum e =>
    rw [decode] at h
    rw [Conforms]
    exact carries_of_decodeEnum (plain.enums e .here) h
  | list element ih =>
    obtain ⟨js, vs, rfl, rfl, all⟩ := read_list h
    cases settled with
    | array inner =>
      rw [Conforms]
      refine ⟨vs, rfl, fun w hw => ?_⟩
      obtain ⟨k, hk, read⟩ := exists_of_forall₂ all hw
      exact ih (plain.part fun _ => .list) (inner k hk) (fun i hi => timely i (.item hw hi)) read
  | tuple items ih =>
    obtain ⟨js, vs, rfl, rfl, length, all⟩ := read_tuple h
    cases settled with
    | array inner =>
      rw [Conforms]
      refine ⟨vs, rfl, itemsConform (forall₂_decodeItems length all ?_)
        fun w hw i hi => timely i (.item hw hi)⟩
      exact fun s hs k hk w read timely =>
        ih s hs (plain.part fun _ => .tuple hs) (inner k hk) timely read
  | mapping key value => exact absurd .here (plain.mapless key value)
  | optional inner ih =>
    rw [Conforms]
    by_cases null : j = .null
    · subst null
      rw [decode] at h
      cases h
      exact Or.inl rfl
    · rw [decode_optional null] at h
      refine Or.inr ⟨?_, ih (plain.part fun _ => .optional) settled timely h⟩
      rintro rfl
      exact null (read_raw h).symm
  | record name fields ih | bareTemplate _ name fields ih | opened _ name fields ih =>
    exact conforms_of_record (by constructor) plain settled timely h ih
  | wrapper name field inner ih =>
    rw [decode] at h
    rw [Conforms]
    exact ih (plain.part fun _ => .wrapper) settled timely h
  | blocked d obstacle =>
    rw [decode] at h
    cases h

end Shape

namespace Wire

/-! ## What has a shape can be written -/

theorem exists_items {α β : Type} {item : α → Wired β} {as : List α} (start : Nat)
    (each : ∀ a ∈ as, ∃ b, item a = .ok b) : ∃ bs, Wired.items item start as = .ok bs := by
  induction as generalizing start with
  | nil => exact ⟨[], rfl⟩
  | cons a rest ih =>
    rw [List.forall_mem_cons] at each
    obtain ⟨⟨b, first⟩, others⟩ := each
    obtain ⟨bs, written⟩ := ih (start + 1) others
    exact ⟨b :: bs, by rw [Wired.items_cons, first, Wired.within_ok, ok_bind, written, ok_bind]⟩

theorem exists_encodeItems {items : List Shape} {vs : List Value} (start : Nat)
    (h : List.Forall₂ (fun s v => ∃ j, encode s v = .ok j) items vs) :
    ∃ js, encodeItems items start vs = .ok js := by
  induction h generalizing start with
  | nil => exact ⟨[], by simp only [encodeItems]⟩
  | cons first _ ih =>
    obtain ⟨j, first⟩ := first
    obtain ⟨js, written⟩ := ih (start + 1)
    exact ⟨j :: js, by rw [encodeItems, first, Wired.within_ok, ok_bind, written, ok_bind]; rfl⟩

theorem exists_encodeFields {fields : List (String × Shape)} {vs : List (String × Value)}
    (done : Members)
    (each : ∀ f ∈ fields, ∃ v, vs.lookup f.1 = some v ∧ ∃ j, encode f.2 v = .ok j) :
    ∃ ms, encodeFields fields vs done = .ok ms := by
  induction fields generalizing done with
  | nil => exact ⟨done, by rw [encodeFields]⟩
  | cons f rest ih =>
    obtain ⟨name, s⟩ := f
    rw [List.forall_mem_cons] at each
    obtain ⟨⟨v, there, j, first⟩, others⟩ := each
    by_cases left : v = .null ∧ s.allowsAbsence = true
    · have absent : Value.fieldOf vs name = .null := by rw [Value.fieldOf, there, left.1]; rfl
      obtain ⟨ms, written⟩ := ih done others
      exact ⟨ms, by rw [encodeFields_skip absent left.2, written]⟩
    · have needed : v = .null → s.allowsAbsence = false := fun null =>
        Bool.eq_false_iff.2 fun allowed => left ⟨null, allowed⟩
      obtain ⟨ms, written⟩ := ih (putEntry done name j) others
      exact ⟨ms, by rw [encodeFields_present there needed, first, Wired.within_ok, ok_bind, written]⟩

/-- The values of a shape that is read as a record. -/
theorem fields_of_holds {s : Shape} {name : String} {fields : List (String × Shape)} {v : Value}
    (reads : ReadsFields s name fields) (h : s.Holds v) :
    ∃ vs, v = .record name vs ∧ (vs.map (·.1)).Perm (fields.map (·.1)) ∧
      ∀ f ∈ fields, ∀ v, (f.1, v) ∈ vs → f.2.Holds v := by
  cases reads <;> cases h <;> exact ⟨_, rfl, by assumption, by assumption⟩

theorem exists_encode_record {s : Shape} {name : String} {fields : List (String × Shape)}
    {v : Value} (reads : ReadsFields s name fields)
    (mapless : ∀ key value, ¬(Shape.mapping key value).OccursIn s) (h : s.Holds v)
    (each : ∀ f ∈ fields, ∀ {v}, (∀ key value, ¬(Shape.mapping key value).OccursIn f.2) →
      f.2.Holds v → ∃ j, encode f.2 v = .ok j) : ∃ j, encode s v = .ok j := by
  obtain ⟨vs, rfl, names, all⟩ := fields_of_holds reads h
  obtain ⟨ms, written⟩ := @exists_encodeFields fields vs [] fun f hf => by
    obtain ⟨w, there⟩ := exists_lookup (names.mem_iff.2 (List.mem_map.2 ⟨f, hf, rfl⟩))
    exact ⟨w, there, each f hf (fun key value there => mapless key value (reads.occursIn hf there))
      (all f hf w (mem_of_lookup_eq_some there))⟩
  exact ⟨.object ms, by rw [encode_record reads, written, ok_bind]⟩

/-- **A value of a shape without dictionaries can be written.** -/
theorem exists_encode {s : Shape} {v : Value}
    (mapless : ∀ key value, ¬(Shape.mapping key value).OccursIn s) (h : s.Holds v) :
    ∃ j, encode s v = .ok j := by
  induction s generalizing v with
  | scalar kind =>
    rw [encode]
    cases h with
    | scalar h => cases h <;> exact ⟨_, rfl⟩
  | temporal kind =>
    rw [encode]
    cases h with
    | temporal h => cases h <;> exact ⟨_, rfl⟩
  | enum e =>
    rw [encode]
    cases h with
    | enum h =>
      obtain ⟨m, hm, rfl⟩ := h
      obtain ⟨n, found⟩ := EnumDef.exists_member? hm
      exact ⟨n.value.toJson, by simp only [encodeEnum, if_true, found]⟩
  | list element ih =>
    cases h with
    | @list _ vs each =>
      obtain ⟨js, written⟩ := exists_items 0 fun v hv =>
        ih (fun key value there => mapless key value (.list there)) (each v hv)
      exact ⟨.array js, by rw [encode, written, ok_bind]; rfl⟩
  | tuple items ih =>
    cases h with
    | @tuple _ vs each =>
      have length := each.length_eq
      obtain ⟨js, written⟩ := exists_encodeItems 0 (List.forall₂_iff_zip.2 ⟨length, fun there =>
        ih _ (List.of_mem_zip there).1 (fun key value part =>
          mapless key value (.tuple (List.of_mem_zip there).1 part))
            ((List.forall₂_iff_zip.1 each).2 there)⟩)
      exact ⟨.array js, by rw [encode, if_pos length.symm, written, ok_bind]; rfl⟩
  | mapping key value => exact absurd .here (mapless key value)
  | optional inner ih =>
    by_cases null : v = .null
    · exact ⟨.null, by rw [null, encode]⟩
    · rw [encode_optional null]
      cases h with
      | absent => exact absurd rfl null
      | present _ h => exact ih (fun key value there => mapless key value (.optional there)) h
  | record name fields ih | bareTemplate _ name fields ih | opened _ name fields ih =>
    exact exists_encode_record (by constructor) mapless h ih
  | wrapper name field inner ih =>
    rw [encode]
    cases h with
    | wrapper h => exact ih (fun key value there => mapless key value (.wrapper there)) h
  | blocked d obstacle => cases h

/-! ## What has a shape comes back -/

theorem itemsComeBack_of_holds {items : List Shape} {vs : List Value}
    (h : List.Forall₂ Shape.Holds items vs)
    (each : ∀ s ∈ items, ∀ {v}, s.Holds v → s.ComesBack v) : Shape.ItemsComeBack items vs := by
  induction h with
  | nil => trivial
  | cons first _ ih =>
    rw [List.forall_mem_cons] at each
    rw [Shape.ItemsComeBack]
    exact ⟨each.1 first, ih each.2⟩

/-- **A value of a shape without dictionaries comes back**: its instants are those of the
calendar. -/
theorem comesBack_of_holds {s : Shape} {v : Value}
    (mapless : ∀ key value, ¬(Shape.mapping key value).OccursIn s) (h : s.Holds v) :
    s.ComesBack v := by
  induction s generalizing v with
  | scalar kind | enum e => trivial
  | temporal kind =>
    rw [Shape.ComesBack]
    cases h with
    | temporal h =>
      intro i hi
      cases h with
      | date d => cases hi
      | dateTime valid =>
        cases hi
        exact (Instant.regular_of_isValid valid).2
  | list element ih =>
    cases h with
    | list each =>
      rw [Shape.ComesBack]
      exact fun w hw => ih (fun key value there => mapless key value (.list there)) (each w hw)
  | tuple items ih =>
    cases h with
    | tuple each =>
      rw [Shape.ComesBack]
      exact itemsComeBack_of_holds each fun s hs _ =>
        ih s hs fun key value there => mapless key value (.tuple hs there)
  | mapping key value => exact absurd .here (mapless key value)
  | optional inner ih =>
    rw [Shape.ComesBack]
    cases h with
    | absent => exact Shape.comesBack_null inner
    | present _ h => exact ih (fun key value there => mapless key value (.optional there)) h
  | record name fields ih | bareTemplate _ name fields ih | opened _ name fields ih =>
    obtain ⟨vs, rfl, names, all⟩ := fields_of_holds (by constructor) h
    refine (Shape.comesBack_record (by constructor)).2 fun f hf => ?_
    obtain ⟨w, there⟩ := exists_lookup (names.mem_iff.2 (List.mem_map.2 ⟨f, hf, rfl⟩))
    rw [Value.fieldOf, there, Option.getD_some]
    exact ih f hf (fun key value part => mapless key value (ReadsFields.occursIn (by constructor)
      hf part)) (all f hf w (mem_of_lookup_eq_some there))
  | wrapper name field inner ih =>
    rw [Shape.ComesBack]
    cases h with
    | wrapper h => exact ih (fun key value there => mapless key value (.wrapper there)) h
  | blocked d obstacle => cases h

/-! ## What is accepted is timely -/

theorem timely_of_scalar {kind : ScalarKind} {v : Value} (h : kind.Holds v) : v.Timely := by
  intro i hi
  cases h <;> cases hi

theorem timely_of_enum {e : EnumDef} {v : Value} (h : e.Holds v) : v.Timely := by
  intro i hi
  obtain ⟨m, -, rfl⟩ := h
  cases hi

/-- What travels as null holds no instant. -/
theorem timely_of_null {s : Shape} {v : Value} (h : s.Holds v) (null : encode s v = .ok .null) :
    v.Timely := by
  -- a record travels as an object
  have noRecord {s : Shape} {name : String} {fields : List (String × Shape)}
      (reads : ReadsFields s name fields) (h : s.Holds v) (null : encode s v = .ok .null) :
      v.Timely := by
    obtain ⟨vs, rfl, -⟩ := fields_of_holds reads h
    rw [encode_record reads] at null
    obtain ⟨ms, -, null⟩ := bind_eq_ok.1 null
    cases null
  induction s with
  | scalar kind =>
    cases h with
    | scalar h => exact timely_of_scalar h
  | temporal kind =>
    rw [encode] at null
    cases h with
    | temporal h => cases h <;> cases null
  | enum e =>
    cases h with
    | enum h => exact timely_of_enum h
  | list element =>
    obtain ⟨vs, js, -, ⟨⟩, -⟩ := written_list null
  | tuple items =>
    obtain ⟨vs, js, -, ⟨⟩, -⟩ := written_tuple null
  | mapping key value =>
    cases h with
    | mapping keys values =>
      rw [encode] at null
      obtain ⟨ms, -, null⟩ := bind_eq_ok.1 null
      cases null
  | optional inner ih =>
    cases h with
    | absent =>
      intro i hi
      cases hi
    | present _ h =>
      by_cases absent : v = .null
      · subst absent
        intro i hi
        cases hi
      · exact ih h (encode_optional absent ▸ null)
  | record name fields | bareTemplate _ name fields | opened _ name fields =>
    exact noRecord (by constructor) h null
  | wrapper name field inner ih =>
    rw [encode] at null
    cases h with
    | wrapper h => exact ih h null
  | blocked d obstacle => cases h

theorem timely_of_items {items : List Shape} {vs backs : List Value} {js : List Json}
    {start again : Nat} (h : List.Forall₂ Shape.Holds items vs)
    (written : encodeItems items start vs = .ok js) (read : decodeItems items again js = .ok backs)
    (each : ∀ s ∈ items, ∀ {v back j}, s.Holds v → encode s v = .ok j → decode s j = .ok back →
      v.Timely) : ∀ v ∈ vs, v.Timely := by
  induction h generalizing js backs start again with
  | nil => exact nofun
  | cons first _ ih =>
    rw [List.forall_mem_cons] at each
    obtain ⟨j, js, rfl, writtenFirst, written⟩ := written_items written
    rw [decodeItems] at read
    obtain ⟨back, readFirst, read⟩ := bind_eq_ok.1 read
    obtain ⟨backs, read, -⟩ := bind_eq_ok.1 read
    exact List.forall_mem_cons.2
      ⟨each.1 first writtenFirst (Wired.within_eq_ok.1 readFirst), ih written read each.2⟩

theorem timely_of_record {s : Shape} {name : String} {fields : List (String × Shape)}
    {v back : Value} {j : Json} (reads : ReadsFields s name fields) (plain : s.Plain)
    (h : s.Holds v) (written : encode s v = .ok j) (read : decode s j = .ok back)
    (each : ∀ f ∈ fields, ∀ {v back j}, f.2.Plain → f.2.Holds v → encode f.2 v = .ok j →
      decode f.2 j = .ok back → v.Timely) : v.Timely := by
  have distinct : (fields.map (·.1)).Nodup := reads.fieldNames ▸ plain.distinct s .here
  obtain ⟨vs, rfl, names, all⟩ := fields_of_holds reads h
  rw [encode_record reads] at written
  obtain ⟨ms, writtenFields, hj⟩ := bind_eq_ok.1 written
  cases hj
  obtain ⟨-, -, writtenAll⟩ := written_record distinct writtenFields
  obtain ⟨members, backs, ⟨⟩, rfl, readAll⟩ := read_record reads read
  intro i hi
  cases hi with
  | @field _ _ g hg inner =>
    obtain ⟨n, w⟩ := g
    obtain ⟨f, hf, rfl⟩ := List.mem_map.1 (names.mem_iff.1 (List.mem_map.2 ⟨(n, w), hg, rfl⟩))
    have there : Value.fieldOf vs f.1 = w := by
      rw [Value.fieldOf, lookup_eq_some_of_mem (names.nodup_iff.2 distinct) hg]
      rfl
    have field := writtenAll f hf
    rw [FieldWritten, there] at field
    rcases field with ⟨null, -⟩ | ⟨-, m, writtenField, member⟩
    · rw [null] at inner
      cases inner
    · obtain ⟨_, -, -, ⟨m', member', readAgain⟩ | ⟨missing, -⟩⟩ :=
        exists_of_forall₂ readAll.flip hf
      · obtain rfl : m = m' := Option.some.inj (member.symm.trans member')
        exact each f hf (plain.part fun _ => reads.occursIn hf) (all f hf w hg) writtenField
          readAgain i inner
      · rw [missing] at member
        cases member

/-- The text of an instant out of time is not read. -/
theorem timely_of_temporal {kind : TemporalKind} {v back : Value} {j : Json} (h : kind.Holds v)
    (written : encode (.temporal kind) v = .ok j) (read : decode (.temporal kind) j = .ok back) :
    v.Timely := by
  intro i hi
  cases h with
  | date d => cases hi
  | dateTime valid =>
    cases hi
    rw [encode, encodeTemporal] at written
    cases written
    by_contra untimely
    have unread := Instant.ofText?_wire_eq_none (i := i) (by omega)
    simp only [decode, decodeTemporal, readTemporal?, unread, Option.map_none] at read
    cases read

theorem timely_of_list {element : Shape} {vs : List Value} {back : Value} {j : Json}
    (h : ∀ v ∈ vs, element.Holds v) (written : encode (.list element) (.list vs) = .ok j)
    (read : decode (.list element) j = .ok back)
    (each : ∀ {v back j}, element.Holds v → encode element v = .ok j →
      decode element j = .ok back → v.Timely) : (Value.list vs).Timely := by
  obtain ⟨_, js, ⟨⟩, rfl, writtenAll⟩ := written_list written
  obtain ⟨_, backs, ⟨⟩, rfl, readAll⟩ := read_list read
  intro i hi
  cases hi with
  | item hv inner =>
    obtain ⟨k, hk, writtenItem⟩ := exists_of_forall₂ writtenAll.flip hv
    obtain ⟨_, -, readItem⟩ := exists_of_forall₂ readAll.flip hk
    exact each (h _ hv) writtenItem readItem i inner

/-- **An echo that is accepted is that of a timely value.** -/
theorem timely_of_echo {s : Shape} {v back : Value} {j : Json} (plain : s.Plain) (h : s.Holds v)
    (written : encode s v = .ok j) (read : decode s j = .ok back) : v.Timely := by
  induction s generalizing v back j with
  | scalar kind =>
    cases h with
    | scalar h => exact timely_of_scalar h
  | temporal kind =>
    cases h with
    | temporal h => exact timely_of_temporal h written read
  | enum e =>
    cases h with
    | enum h => exact timely_of_enum h
  | list element ih =>
    cases h with
    | list each => exact timely_of_list each written read (ih (plain.part fun _ => .list))
  | tuple items ih =>
    obtain ⟨vs, js, rfl, rfl, -, written⟩ := written_tuple written
    obtain ⟨_, backs, ⟨⟩, rfl, -, read⟩ := read_tuple read
    cases h with
    | tuple each =>
      intro i hi
      cases hi with
      | item hv inner =>
        exact timely_of_items each written read
          (fun s hs => ih s hs (plain.part fun _ => .tuple hs)) _ hv i inner
  | mapping key value => exact absurd .here (plain.mapless key value)
  | optional inner ih =>
    cases h with
    | absent =>
      intro i hi
      cases hi
    | present _ h =>
      by_cases absent : v = .null
      · subst absent
        intro i hi
        cases hi
      · rw [encode_optional absent] at written
        by_cases null : j = .null
        · exact timely_of_null h (null ▸ written)
        · rw [decode_optional null] at read
          exact ih (plain.part fun _ => .optional) h written read
  | record name fields ih | bareTemplate _ name fields ih | opened _ name fields ih =>
    exact timely_of_record (by constructor) plain h written read ih
  | wrapper name field inner ih =>
    rw [encode] at written
    rw [decode] at read
    cases h with
    | wrapper h => exact ih (plain.part fun _ => .wrapper) h written read
  | blocked d obstacle => cases h

end Wire

namespace Descriptor

open Wire

/-- **The echo of a service.**  Whatever is accepted for a plain descriptor can be written again;
the echo is accepted exactly when every instant lies in the years that have four digits, and what
is read then is the same value. -/
theorem echo (d : Descriptor) (j : Json) (v : Value) (plain : d.Plain) (settled : j.Settled)
    (h : d.decode j = .ok v) :
    ∃ echo, d.encode v = .ok echo ∧ ((∃ back, d.decode echo = .ok back) ↔ v.Timely) ∧
      ∀ back, d.decode echo = .ok back → back.same v = true := by
  have holds : d.shape.Holds v := Shape.holds_of_decode plain.shape.distinct h
  obtain ⟨e, written⟩ := exists_encode plain.shape.mapless holds
  have again (timely : v.Timely) : ∃ back, d.decode e = .ok back ∧ back.same v = true := by
    obtain ⟨e', back, trip⟩ :=
      roundTrips (Shape.conforms_of_decode plain.shape settled timely h)
        (comesBack_of_holds plain.shape.mapless holds)
    obtain rfl : e = e' := Except.ok.inj (written.symm.trans trip.encodes)
    exact ⟨back, trip.decodes, trip.same⟩
  refine ⟨e, written, ⟨fun ⟨back, read⟩ => ?_, fun timely => ?_⟩, fun back read => ?_⟩
  · exact timely_of_echo plain.shape holds written read
  · obtain ⟨back, read, -⟩ := again timely
    exact ⟨back, read⟩
  · obtain ⟨back', read', same⟩ := again (timely_of_echo plain.shape holds written read)
    obtain rfl : back = back' := Except.ok.inj (read.symm.trans read')
    exact same

/-- A visit in the first hour of the year 0, an hour east of Greenwich: in UTC it lies in the year
before, and its echo is refused. -/
theorem echo_visit :
    let mood := EnumDef.mk "Mood" [⟨"GOOD", .text "good"⟩, ⟨"BAD", .int 0⟩]
    let visit := Descriptor.record "Visit"
      [("at", .temporal .dateTime), ("mood", .optional (.enum mood)), ("more", .scalar .any)] false
    let j := Json.object [("at", .string "0000-01-01T00:30:00+01:00"), ("mood", .string "good"),
      ("more", .array [.null])]
    let v := Value.record "Visit" [("at", .dateTime ⟨-62167221000, 0⟩),
      ("mood", .enum "Mood" "GOOD"), ("more", .raw (.array [.null]))]
    visit.Plain ∧ j.Settled ∧ visit.decode j = .ok v ∧ ¬v.Timely ∧
      ∃ echo, visit.encode v = .ok echo ∧ ((∃ back, visit.decode echo = .ok back) ↔ v.Timely) ∧
        ∀ back, visit.decode echo = .ok back → back.same v = true := by
  intro mood visit j v
  have parts (p : Descriptor) (hp : p.OccursIn visit) : p ∈ visit.parts := mem_parts hp
  have unambiguous : mood.Unambiguous := by
    refine ⟨by decide, ?_⟩
    simp only [mood, List.forall_mem_cons, List.not_mem_nil, false_implies, implies_true, and_true,
      true_and]
    constructor <;> intro j <;> cases j <;> simp [EnumLiteral.accepts]
  have plain : visit.Plain := by
    refine ⟨fun key value there => ?_, distinct_of_parts (by decide), fun e there => ?_⟩
    · simpa [visit, Descriptor.parts, fieldParts] using parts _ there
    · obtain rfl : e = mood := by
        simpa [visit, Descriptor.parts, fieldParts] using parts _ there
      exact unambiguous
  have settled : j.Settled := by
    refine .object (by decide) ?_
    simp only [List.forall_mem_cons, List.not_mem_nil, false_implies, implies_true, and_true]
    exact ⟨.string _, .string _, .array fun k hk => List.mem_singleton.1 hk ▸ .null⟩
  have read : visit.decode j = .ok v := by
    unfold visit j v mood
    cbv
  refine ⟨plain, settled, read, fun timely => ?_, echo visit j v plain settled read⟩
  have inYears := timely ⟨-62167221000, 0⟩ (.field (.head _) .here)
  exact absurd inYears.1 (by decide)

end Descriptor

end RpcBridge
