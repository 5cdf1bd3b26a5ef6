import Mathlib.Data.List.Forall2
import RpcBridge.Proofs.Descriptor.Parts
import RpcBridge.Proofs.Wire.Conforms
import RpcBridge.Proofs.Wire.Outcome

/-!
# Proofs/Wire/Read — what a service has read

When a value has been read, its parts have been read too: one statement for every kind of container
says where the parts of a value come from.  It is the counterpart of `Proofs/Wire/Written`.

* `read_list`, `read_tuple` — lists and tuples, item by item;
* `read_mapping` — maps, entry by entry;
* `read_record` — records, field by field.
-/

namespace RpcBridge.Wire

/-! ## One step -/

section Steps

variable {name : String} {s : Shape} {rest : List (String × Shape)} {members : Members} {j : Json}

/-- A member that is missing is read as null where its type allows that. -/
theorem decodeFields_skip (absent : members.lookup name = none) (allowed : s.allowsAbsence = true) :
    decodeFields ((name, s) :: rest) members =
      (decodeFields rest members >>= fun backs => .ok ((name, .null) :: backs)) := by
  simp only [decodeFields, absent, allowed, if_true, ok_bind, pure_eq_ok]

theorem decodeFields_present (there : members.lookup name = some j) :
    decodeFields ((name, s) :: rest) members = ((decode s j).within (.member name) >>= fun v =>
      decodeFields rest members >>= fun backs => .ok ((name, v) :: backs)) := by
  simp only [decodeFields, there, pure_eq_ok]

/-- What is there is read as if its type were not optional. -/
theorem decode_optional (notNull : j ≠ .null) : decode (.optional s) j = decode s j := by
  cases j <;> first | rfl | exact absurd rfl notNull

end Steps

variable {v : Value} {j : Json}

/-- What stands in one of two lists has its counterpart in the other. -/
theorem exists_of_forall₂ {α β : Type} {R : α → β → Prop} {as : List α} {bs : List β}
    (h : List.Forall₂ R as bs) {b : β} (hb : b ∈ bs) : ∃ a ∈ as, R a b := by
  induction h with
  | nil => cases hb
  | cons first _ ih =>
    rcases List.mem_cons.1 hb with rfl | hb
    · exact ⟨_, List.mem_cons_self .., first⟩
    · obtain ⟨a, ha, related⟩ := ih hb
      exact ⟨a, List.mem_cons_of_mem _ ha, related⟩

/-! ## Lists and tuples -/

theorem read_list {element : Shape} (h : decode (.list element) j = .ok v) :
    ∃ js vs, j = .array js ∧ v = .list vs ∧
      List.Forall₂ (fun j v => decode element j = .ok v) js vs := by
  have walk {start : Nat} {js : List Json} {vs : List Value}
      (h : Wired.items (decode element) start js = .ok vs) :
      List.Forall₂ (fun j v => decode element j = .ok v) js vs := by
    induction js generalizing start vs with
    | nil =>
      cases h
      exact .nil
    | cons j rest ih =>
      rw [Wired.items_cons] at h
      obtain ⟨v, first, h⟩ := bind_eq_ok.1 h
      obtain ⟨vs', others, h⟩ := bind_eq_ok.1 h
      cases h
      exact .cons (Wired.within_eq_ok.1 first) (ih others)
  cases j <;> rw [decode] at h
  case array js =>
    obtain ⟨vs, items, h⟩ := bind_eq_ok.1 h
    cases h
    exact ⟨js, vs, rfl, rfl, walk items⟩
  all_goals cases h

theorem read_tuple {items : List Shape} (h : decode (.tuple items) j = .ok v) :
    ∃ js vs, j = .array js ∧ v = .list vs ∧ js.length = items.length ∧
      decodeItems items 0 js = .ok vs := by
  cases j <;> rw [decode] at h
  case array js =>
    split at h
    · next length =>
      obtain ⟨vs, items, h⟩ := bind_eq_ok.1 h
      cases h
      exact ⟨js, vs, rfl, rfl, length, items⟩
    · cases h
  all_goals cases h

/-- What holds of every item that is read holds of the items of a tuple, each for its type. -/
theorem forall₂_decodeItems {R : Shape → Value → Prop} {items : List Shape} {start : Nat}
    {js : List Json} {vs : List Value} (length : js.length = items.length)
    (h : decodeItems items start js = .ok vs)
    (each : ∀ s ∈ items, ∀ j ∈ js, ∀ v, decode s j = .ok v → R s v) :
    List.Forall₂ R items vs := by
  induction items generalizing start js vs with
  | nil =>
    simp only [decodeItems] at h
    cases h
    exact .nil
  | cons s rest ih =>
    cases js with
    | nil => cases length
    | cons j js =>
      rw [decodeItems] at h
      obtain ⟨v, first, h⟩ := bind_eq_ok.1 h
      obtain ⟨vs', others, h⟩ := bind_eq_ok.1 h
      cases h
      refine .cons ?_ (ih (Nat.succ.inj length) others fun s hs j hj => ?_)
      · exact each s (List.mem_cons_self ..) j (List.mem_cons_self ..) v
          (Wired.within_eq_ok.1 first)
      · exact each s (List.mem_cons_of_mem _ hs) j (List.mem_cons_of_mem _ hj)

/-! ## Maps -/

/-- The key that a member name is read as. -/
def readKey (key : Shape) (name : String) : Wired Value := keyJson key name >>= decode key

/-- An entry of a map and the member it is read from. -/
def EntryRead (key value : Shape) (m : String × Json) (e : Value × Value) : Prop :=
  readKey key m.1 = .ok e.1 ∧ decode value m.2 = .ok e.2

theorem read_mapping {key value : Shape} (h : decode (.mapping key value) j = .ok v) :
    ∃ members entries, j = .object members ∧ v = .map entries ∧
      List.Forall₂ (EntryRead key value) members entries := by
  have walk {members : Members} {entries : List (Value × Value)}
      (h : decodeMembers key (decode key) (decode value) members = .ok entries) :
      List.Forall₂ (EntryRead key value) members entries := by
    induction members generalizing entries with
    | nil =>
      rw [decodeMembers] at h
      cases h
      exact .nil
    | cons m rest ih =>
      rw [decodeMembers] at h
      obtain ⟨e, first, h⟩ := bind_eq_ok.1 h
      obtain ⟨entries', others, h⟩ := bind_eq_ok.1 h
      cases h
      obtain ⟨kj, named, first⟩ := bind_eq_ok.1 (Wired.within_eq_ok.1 first)
      obtain ⟨k, keyed, first⟩ := bind_eq_ok.1 first
      obtain ⟨w, valued, first⟩ := bind_eq_ok.1 first
      cases first
      exact .cons ⟨bind_eq_ok.2 ⟨kj, named, keyed⟩, valued⟩ (ih others)
  cases j <;> rw [decode] at h
  case object members =>
    obtain ⟨entries, all, h⟩ := bind_eq_ok.1 h
    cases h
    exact ⟨members, entries, rfl, rfl, walk all⟩
  all_goals cases h

/-! ## Records -/

/-- Reads one field of a record. -/
def readField (members : Members) (f : String × Shape) : Wired Value :=
  match members.lookup f.1 with
  | some j => (decode f.2 j).within (.member f.1)
  | none =>
    if f.2.allowsAbsence then .ok .null else (Wired.fail .missing).within (.member f.1)

theorem decodeFields_cons (f : String × Shape) (rest : List (String × Shape)) (members : Members) :
    decodeFields (f :: rest) members = (readField members f >>= fun v =>
      decodeFields rest members >>= fun vs => .ok ((f.1, v) :: vs)) := by
  rw [decodeFields, readField]
  cases members.lookup f.1 with
  | some j => rfl
  | none => cases f.2.allowsAbsence <;> rfl

/-- A field of a record and what it is read from: a member, or nothing where its type allows
that. -/
def FieldRead (members : Members) (f : String × Shape) (g : String × Value) : Prop :=
  g.1 = f.1 ∧ ((∃ j, members.lookup f.1 = some j ∧ decode f.2 j = .ok g.2) ∨
    (members.lookup f.1 = none ∧ f.2.allowsAbsence = true ∧ g.2 = .null))

theorem fieldRead_of_readField {members : Members} {f : String × Shape} {v : Value}
    (h : readField members f = .ok v) : FieldRead members f (f.1, v) := by
  refine ⟨rfl, ?_⟩
  unfold readField at h
  cases there : members.lookup f.1 with
  | some j =>
    rw [there] at h
    exact Or.inl ⟨j, rfl, Wired.within_eq_ok.1 h⟩
  | none =>
    simp only [there] at h
    split at h
    · next allowed =>
      cases h
      exact Or.inr ⟨rfl, allowed, rfl⟩
    · cases h

theorem read_fields {fields : List (String × Shape)} {members : Members}
    {vs : List (String × Value)} (h : decodeFields fields members = .ok vs) :
    List.Forall₂ (FieldRead members) fields vs := by
  induction fields generalizing vs with
  | nil =>
    rw [decodeFields] at h
    cases h
    exact .nil
  | cons f rest ih =>
    rw [decodeFields_cons] at h
    obtain ⟨v, first, h⟩ := bind_eq_ok.1 h
    obtain ⟨vs', others, h⟩ := bind_eq_ok.1 h
    cases h
    exact .cons (fieldRead_of_readField first) (ih others)

/-- The names of the fields that are read are those that are declared. -/
theorem names_of_fields {fields : List (String × Shape)} {members : Members}
    {vs : List (String × Value)} (h : List.Forall₂ (FieldRead members) fields vs) :
    vs.map (·.1) = fields.map (·.1) := by
  induction h with
  | nil => rfl
  | cons first _ ih => rw [List.map_cons, List.map_cons, first.1, ih]

/-- A shape that is read as a record of fields. -/
inductive ReadsFields : Shape → String → List (String × Shape) → Prop where
  | record (name : String) (fields : List (String × Shape)) :
    ReadsFields (.record name fields) name fields
  | bareTemplate (origin : Descriptor) (name : String) (fields : List (String × Shape)) :
    ReadsFields (.bareTemplate origin name fields) name fields
  | opened (origin : Descriptor) (name : String) (fields : List (String × Shape)) :
    ReadsFields (.opened origin name fields) name fields

/-- What occurs in a field of a record occurs in the record. -/
theorem ReadsFields.occursIn {s q : Shape} {name : String} {fields : List (String × Shape)}
    (reads : ReadsFields s name fields) {f : String × Shape} (hf : f ∈ fields)
    (inner : q.OccursIn f.2) : q.OccursIn s := by
  cases reads with
  | record => exact .record hf inner
  | bareTemplate => exact .bareTemplate hf inner
  | opened => exact .opened hf inner

/-- A record has the names of its fields. -/
theorem ReadsFields.fieldNames {s : Shape} {name : String} {fields : List (String × Shape)}
    (reads : ReadsFields s name fields) : s.fieldNames = fields.map (·.1) := by
  cases reads <;> rfl

theorem encode_record {s : Shape} {name : String} {fields : List (String × Shape)}
    (reads : ReadsFields s name fields) (n : String) (vs : List (String × Value)) :
    encode s (.record n vs) = (encodeFields fields vs [] >>= fun ms => .ok (.object ms)) := by
  cases reads <;> rw [encode] <;> rfl

theorem decode_record {s : Shape} {name : String} {fields : List (String × Shape)}
    (reads : ReadsFields s name fields) (members : Members) : decode s (.object members) =
      (decodeFields fields members >>= fun vs => .ok (.ofFields name vs)) := by
  cases reads <;> rw [decode] <;> rfl

theorem read_record {s : Shape} {name : String} {fields : List (String × Shape)}
    (record : ReadsFields s name fields) (h : decode s j = .ok v) :
    ∃ members vs, j = .object members ∧ v = .ofFields name vs ∧
      List.Forall₂ (FieldRead members) fields vs := by
  cases record <;>
  · cases j <;> rw [decode] at h
    case object members =>
      obtain ⟨vs, all, h⟩ := bind_eq_ok.1 h
      cases h
      exact ⟨members, vs, rfl, rfl, read_fields all⟩
    all_goals cases h

/-! ## Untyped values -/

/-- An untyped value is read as it is. -/
theorem read_raw {s : Shape} {k : Json} (h : decode s j = .ok (.raw k)) : k = j := by
  induction s with
  | scalar kind =>
    rw [decode] at h
    unfold decodeScalar at h
    split at h
    case h_3 => split at h <;> cases h
    all_goals
      cases h
      try rfl
  | temporal kind =>
    rw [decode] at h
    unfold decodeTemporal at h
    split at h
    · split at h
      · next read =>
        cases h
        cases kind <;> obtain ⟨_, -, ⟨⟩⟩ := Option.map_eq_some_iff.1 read
      · cases h
    · cases h
  | enum e =>
    rw [decode] at h
    unfold decodeEnum at h
    split at h <;> cases h
  | list element =>
    obtain ⟨_, _, -, ⟨⟩, -⟩ := read_list h
  | tuple items =>
    obtain ⟨_, _, -, ⟨⟩, -⟩ := read_tuple h
  | mapping key value =>
    obtain ⟨_, _, -, ⟨⟩, -⟩ := read_mapping h
  | record name fields | bareTemplate _ name fields | opened _ name fields =>
    obtain ⟨_, _, -, ⟨⟩, -⟩ := read_record (by constructor) h
  | optional inner ih =>
    by_cases null : j = .null
    · subst null
      rw [decode] at h
      cases h
    · rw [decode_optional null] at h
      exact ih h
  | wrapper name field inner ih =>
    rw [decode] at h
    exact ih h
  | blocked d obstacle =>
    rw [decode] at h
    cases h

end RpcBridge.Wire
