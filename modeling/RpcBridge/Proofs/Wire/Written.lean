import Mathlib.Data.List.Forall2
import RpcBridge.Proofs.Wire.Conforms
import RpcBridge.Proofs.Wire.Outcome

/-!
# Proofs/Wire/Written — what a service has written

When a value has been written, its parts have been written too: one statement for every kind of
container says what the JSON value consists of.

* `written_list`, `written_items` — arrays, item by item;
* `written_mapping` — the members of a dictionary, in the order of its entries;
* `written_record` — the members of a record, and the fields that are left out;
* `encode_ne_null` — only an absent value travels as null.
-/

namespace RpcBridge.Wire

/-! ## One step -/

section Steps

variable {name : String} {s : Shape} {rest : List (String × Shape)}
  {vs : List (String × Value)} {done : Members}

/-- A field that is absent, or null, is left out where its type allows that. -/
theorem encodeFields_skip (absent : Value.fieldOf vs name = .null)
    (allowed : s.allowsAbsence = true) :
    encodeFields ((name, s) :: rest) vs done = encodeFields rest vs done := by
  rw [encodeFields]
  unfold Value.fieldOf at absent
  cases h : vs.lookup name with
  | none => simp only [allowed, if_true]
  | some v =>
    rw [h, Option.getD_some] at absent
    subst absent
    simp only [allowed, if_true]

/-- A field that is there is written, unless it is null and may be left out. -/
theorem encodeFields_present {v : Value} (there : vs.lookup name = some v)
    (needed : v = .null → s.allowsAbsence = false) :
    encodeFields ((name, s) :: rest) vs done = ((encode s v).within (.member name) >>= fun j =>
      encodeFields rest vs (putEntry done name j)) := by
  rw [encodeFields]
  simp only [there]
  cases v <;> first | rfl | simp [needed rfl]

/-- What is there travels as if its type were not optional. -/
theorem encode_optional {v : Value} (notNull : v ≠ .null) :
    encode (.optional s) v = encode s v := by
  cases v <;> first | rfl | exact absurd rfl notNull

end Steps

variable {v : Value} {j : Json}

/-! ## Arrays -/

theorem written_list {element : Shape} (h : encode (.list element) v = .ok j) :
    ∃ vs js, v = .list vs ∧ j = .array js ∧
      List.Forall₂ (fun v j => encode element v = .ok j) vs js := by
  have walk {start : Nat} {vs : List Value} {js : List Json}
      (h : Wired.items (encode element) start vs = .ok js) :
      List.Forall₂ (fun v j => encode element v = .ok j) vs js := by
    induction vs generalizing start js with
    | nil =>
      cases h
      exact .nil
    | cons v rest ih =>
      rw [Wired.items_cons] at h
      obtain ⟨j, first, h⟩ := bind_eq_ok.1 h
      obtain ⟨js', others, h⟩ := bind_eq_ok.1 h
      cases h
      exact .cons (Wired.within_eq_ok.1 first) (ih others)
  cases v <;> rw [encode] at h
  case list vs =>
    obtain ⟨js, items, h⟩ := bind_eq_ok.1 h
    cases h
    exact ⟨vs, js, rfl, rfl, walk items⟩
  all_goals cases h

theorem written_tuple {items : List Shape} (h : encode (.tuple items) v = .ok j) :
    ∃ vs js, v = .list vs ∧ j = .array js ∧ vs.length = items.length ∧
      encodeItems items 0 vs = .ok js := by
  cases v <;> rw [encode] at h
  case list vs =>
    split at h
    · next length =>
      obtain ⟨js, items, h⟩ := bind_eq_ok.1 h
      cases h
      exact ⟨vs, js, rfl, rfl, length, items⟩
    · cases h
  all_goals cases h

theorem written_items {s : Shape} {rest : List Shape} {start : Nat} {vs : List Value}
    {js : List Json} (h : encodeItems (s :: rest) start (v :: vs) = .ok js) :
    ∃ j others, js = j :: others ∧ encode s v = .ok j ∧
      encodeItems rest (start + 1) vs = .ok others := by
  rw [encodeItems] at h
  obtain ⟨j, first, h⟩ := bind_eq_ok.1 h
  obtain ⟨others, written, h⟩ := bind_eq_ok.1 h
  cases h
  exact ⟨j, others, rfl, Wired.within_eq_ok.1 first, written⟩

/-! ## Dictionaries -/

/-- A member of an object and the entry it is written for. -/
def EntryWritten (key value : Shape) (e : Value × Value) (m : String × Json) : Prop :=
  keyName key e.1 = .ok m.1 ∧ encode value e.2 = .ok m.2

theorem written_entries {key value : Shape} {entries : List (Value × Value)} {done ms : Members}
    (new : ∀ e ∈ entries, ∀ name, keyName key e.1 = .ok name → done.lookup name = none)
    (distinct : (entries.map fun e => keyName key e.1).Nodup)
    (h : encodeEntries (encode key) (encode value) done entries = .ok ms) :
    ∃ members, ms = done ++ members ∧
      List.Forall₂ (EntryWritten key value) entries members := by
  induction entries generalizing done with
  | nil =>
    rw [encodeEntries] at h
    cases h
    exact ⟨[], (List.append_nil _).symm, .nil⟩
  | cons e rest ih =>
    obtain ⟨k, v⟩ := e
    rw [List.forall_mem_cons] at new
    rw [List.map_cons, List.nodup_cons] at distinct
    rw [encodeEntries] at h
    obtain ⟨⟨name, j⟩, entry, others⟩ := bind_eq_ok.1 h
    obtain ⟨jk, written, entry⟩ := bind_eq_ok.1 (Wired.within_eq_ok.1 entry)
    obtain ⟨name', named, entry⟩ := bind_eq_ok.1 entry
    obtain ⟨j', value, entry⟩ := bind_eq_ok.1 entry
    cases entry
    have hname : keyName key k = .ok name := by rw [keyName, written, ok_bind, named]
    have new_rest : ∀ e ∈ rest, ∀ n, keyName key e.1 = .ok n →
        (putEntry done name j).lookup n = none := by
      intro e he n hn
      rw [lookup_putEntry, if_neg, new.2 e he n hn]
      rintro rfl
      exact distinct.1 (List.mem_map.2 ⟨e, he, hn.trans hname.symm⟩)
    obtain ⟨members, rfl, all⟩ := ih new_rest distinct.2 others
    refine ⟨(name, j) :: members, ?_, .cons ⟨hname, value⟩ all⟩
    rw [putEntry_of_lookup_eq_none j (new.1 name hname), List.append_assoc, List.singleton_append]

theorem written_mapping {key value : Shape} {entries : List (Value × Value)}
    (distinct : (entries.map fun e => keyName key e.1).Nodup)
    (h : encode (.mapping key value) (.map entries) = .ok j) :
    ∃ members, j = .object members ∧ List.Forall₂ (EntryWritten key value) entries members := by
  rw [encode] at h
  obtain ⟨ms, written, h⟩ := bind_eq_ok.1 h
  cases h
  obtain ⟨members, rfl, all⟩ :=
    written_entries (fun _ _ _ _ => List.lookup_nil) distinct written
  exact ⟨_, rfl, all⟩

/-- The members of a dictionary have the names of its keys. -/
theorem names_of_entries {key value : Shape} {entries : List (Value × Value)} {members : Members}
    (h : List.Forall₂ (EntryWritten key value) entries members) :
    entries.map (fun e => keyName key e.1) = (members.map (·.1)).map .ok := by
  induction h with
  | nil => rfl
  | cons first _ ih => rw [List.map_cons, List.map_cons, List.map_cons, first.1, ih]

/-! ## Records -/

/-- A field of a record: it is absent and left out, or it has been written as a member. -/
def FieldWritten (vs : List (String × Value)) (ms : Members) (f : String × Shape) : Prop :=
  (Value.fieldOf vs f.1 = .null ∧ f.2.allowsAbsence = true ∧ ms.lookup f.1 = none) ∨
    ((Value.fieldOf vs f.1 = .null → f.2.allowsAbsence = false) ∧
      ∃ j, encode f.2 (Value.fieldOf vs f.1) = .ok j ∧ ms.lookup f.1 = some j)

theorem written_fields {fields : List (String × Shape)} {vs : List (String × Value)}
    {done ms : Members} (distinct : (fields.map (·.1)).Nodup)
    (new : ∀ f ∈ fields, done.lookup f.1 = none) (h : encodeFields fields vs done = .ok ms) :
    ∃ members, ms = done ++ members ∧ (members.map (·.1)).Nodup ∧
      (∀ m ∈ members, m.1 ∈ fields.map (·.1)) ∧ ∀ f ∈ fields, FieldWritten vs members f := by
  induction fields generalizing done with
  | nil =>
    rw [encodeFields] at h
    cases h
    exact ⟨[], (List.append_nil _).symm, .nil, List.forall_mem_nil _, List.forall_mem_nil _⟩
  | cons f rest ih =>
    obtain ⟨name, s⟩ := f
    rw [List.map_cons, List.nodup_cons] at distinct
    rw [List.forall_mem_cons] at new
    by_cases absent : Value.fieldOf vs name = .null ∧ s.allowsAbsence = true
    · rw [encodeFields_skip absent.1 absent.2] at h
      obtain ⟨members, rfl, nodup, declared, each⟩ := ih distinct.2 new.2 h
      have missing : members.lookup name = none := lookup_eq_none fun there => by
        obtain ⟨m, hm, rfl⟩ := List.mem_map.1 there
        exact distinct.1 (declared m hm)
      refine ⟨members, rfl, nodup, fun m hm => List.mem_cons_of_mem _ (declared m hm), ?_⟩
      exact List.forall_mem_cons.2 ⟨Or.inl ⟨absent.1, absent.2, missing⟩, each⟩
    · have needed : Value.fieldOf vs name = .null → s.allowsAbsence = false := fun null =>
        Bool.eq_false_iff.2 fun allowed => absent ⟨null, allowed⟩
      obtain ⟨v, there⟩ : ∃ v, vs.lookup name = some v := by
        cases there : vs.lookup name with
        | some v => exact ⟨v, rfl⟩
        | none =>
          have null : Value.fieldOf vs name = .null := by rw [Value.fieldOf, there]; rfl
          simp only [encodeFields, there, needed null] at h
          cases h
      have field : Value.fieldOf vs name = v := by rw [Value.fieldOf, there]; rfl
      rw [encodeFields_present there (field ▸ needed)] at h
      obtain ⟨j, first, h⟩ := bind_eq_ok.1 h
      have fresh : ∀ f ∈ rest, (putEntry done name j).lookup f.1 = none := by
        intro f hf
        rw [lookup_putEntry, if_neg, new.2 f hf]
        rintro rfl
        exact distinct.1 (List.mem_map.2 ⟨f, hf, rfl⟩)
      obtain ⟨members, rfl, nodup, declared, each⟩ := ih distinct.2 fresh h
      refine ⟨(name, j) :: members, ?_, ?_, ?_, List.forall_mem_cons.2 ⟨?_, fun f hf => ?_⟩⟩
      · rw [putEntry_of_lookup_eq_none j new.1, List.append_assoc, List.singleton_append]
      · rw [List.map_cons, List.nodup_cons]
        refine ⟨fun there => ?_, nodup⟩
        obtain ⟨m, hm, rfl⟩ := List.mem_map.1 there
        exact distinct.1 (declared m hm)
      · exact List.forall_mem_cons.2
          ⟨List.mem_cons_self .., fun m hm => List.mem_cons_of_mem _ (declared m hm)⟩
      · refine Or.inr ⟨needed, j, ?_, List.lookup_cons_self ..⟩
        rw [field]
        exact Wired.within_eq_ok.1 first
      · have other : ((name, j) :: members).lookup f.1 = members.lookup f.1 := by
          rw [lookup_cons_eq, if_neg]
          rintro rfl
          exact distinct.1 (List.mem_map.2 ⟨f, hf, rfl⟩)
        rw [FieldWritten, other]
        exact each f hf

theorem written_record {fields : List (String × Shape)} {vs : List (String × Value)} {ms : Members}
    (distinct : (fields.map (·.1)).Nodup) (h : encodeFields fields vs [] = .ok ms) :
    (ms.map (·.1)).Nodup ∧ (∀ m ∈ ms, m.1 ∈ fields.map (·.1)) ∧
      ∀ f ∈ fields, FieldWritten vs ms f := by
  obtain ⟨members, rfl, rest⟩ := written_fields distinct (fun _ _ => List.lookup_nil) h
  exact rest

/-! ## Null -/

/-- **Only an absent value travels as null.** -/
theorem encode_ne_null {s : Shape} (h : s.Conforms v) (notNull : v ≠ .null)
    (notRaw : v ≠ .raw .null) : encode s v ≠ .ok .null := by
  intro null
  induction s with
  | scalar kind =>
    rw [Shape.Conforms] at h
    rw [encode] at null
    cases h with
    | any =>
      cases null
      exact notRaw rfl
    | none => exact notNull rfl
    | _ => cases null
  | temporal kind =>
    rw [Shape.Conforms] at h
    rw [encode] at null
    cases h <;> cases null
  | enum e =>
    rw [Shape.Conforms] at h
    obtain ⟨m, first, rfl, declared, denoted, -⟩ := h
    simp only [encode, encodeEnum, if_true, declared, Except.ok.injEq] at null
    rw [null, EnumDef.memberFor?_null] at denoted
    cases denoted
  | list element =>
    obtain ⟨vs, js, -, ⟨⟩, -⟩ := written_list null
  | tuple items =>
    obtain ⟨vs, js, -, ⟨⟩, -⟩ := written_tuple null
  | mapping key value =>
    rw [Shape.Conforms] at h
    obtain ⟨entries, rfl, distinct, -⟩ := h
    obtain ⟨members, ⟨⟩, -⟩ := written_mapping distinct null
  | optional inner ih =>
    rw [Shape.Conforms] at h
    rw [encode_optional notNull] at null
    exact ih (h.resolve_left notNull).2 null
  | record name fields | bareTemplate _ name fields | opened _ name fields =>
    rw [Shape.Conforms] at h
    obtain ⟨vs, rfl, -⟩ := h
    rw [encode] at null
    obtain ⟨ms, -, null⟩ := bind_eq_ok.1 null
    cases null
  | wrapper name field inner ih =>
    rw [Shape.Conforms] at h
    rw [encode] at null
    exact ih h null
  | blocked d obstacle =>
    rw [Shape.Conforms] at h
    exact h

end RpcBridge.Wire
