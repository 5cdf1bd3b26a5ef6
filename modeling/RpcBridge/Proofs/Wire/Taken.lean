import RpcBridge.Proofs.Wire.Read

/-!
# Proofs/Wire/Taken — what a service takes JSON for

A JSON value is taken for a value if it is read, and as the same value.  Whether it is depends on
its parts alone: one statement for every kind of container says which parts have to be taken for
which.

* `takenFor_list`, `takenFor_tuple` — arrays, item by item, and of the same length;
* `takenFor_mapping` — dictionaries, entry by entry;
* `takenFor_record` — records, field by field, where a missing field stands for an absent value.
-/

namespace RpcBridge.Wire

/-- What is read is the same as a value. -/
def TakenFor (s : Shape) (j : Json) (v : Value) : Prop :=
  ∃ back, decode s j = .ok back ∧ back.same v = true

variable {s : Shape} {j : Json} {v : Value}

/-! ## Lists and tuples -/

theorem takenFor_list {element : Shape} {js : List Json} {vs : List Value} :
    TakenFor (.list element) (.array js) (.list vs) ↔ List.Forall₂ (TakenFor element) js vs := by
  have walk (start : Nat) : (∃ backs, Wired.items (decode element) start js = .ok backs ∧
      Value.sameItems backs vs = true) ↔ List.Forall₂ (TakenFor element) js vs := by
    induction js generalizing start vs with
    | nil => cases vs <;> simp [Wired.items_nil, Value.sameItems]
    | cons j rest ih =>
      cases vs with
      | nil =>
        refine ⟨?_, fun h => by cases h⟩
        rintro ⟨backs, read, same⟩
        rw [Wired.items_cons] at read
        obtain ⟨back, -, read⟩ := bind_eq_ok.1 read
        obtain ⟨backs', -, read⟩ := bind_eq_ok.1 read
        cases read
        simp [Value.sameItems] at same
      | cons v vs =>
        rw [List.forall₂_cons, ← ih (start + 1)]
        constructor
        · rintro ⟨backs, read, same⟩
          rw [Wired.items_cons] at read
          obtain ⟨back, first, read⟩ := bind_eq_ok.1 read
          obtain ⟨backs', others, read⟩ := bind_eq_ok.1 read
          cases read
          rw [Value.sameItems, Bool.and_eq_true] at same
          exact ⟨⟨back, Wired.within_eq_ok.1 first, same.1⟩, backs', others, same.2⟩
        · rintro ⟨⟨back, first, same⟩, backs, others, sames⟩
          refine ⟨back :: backs, ?_, ?_⟩
          · rw [Wired.items_cons, first, Wired.within_ok, ok_bind, others, ok_bind]
          · rw [Value.sameItems, same, sames, Bool.and_self]
  rw [← walk 0]
  constructor
  · rintro ⟨back, read, same⟩
    rw [decode] at read
    obtain ⟨backs, items, read⟩ := bind_eq_ok.1 read
    cases read
    rw [Value.same] at same
    exact ⟨backs, items, same⟩
  · rintro ⟨backs, items, same⟩
    refine ⟨.list backs, ?_, ?_⟩
    · rw [decode, items, ok_bind, pure_eq_ok]
    · rw [Value.same, same]

/-- The items of a tuple, each taken for a value of its own type. -/
def ItemsTaken : List Shape → List Json → List Value → Prop
  | [], js, vs => js = [] ∧ vs = []
  | s :: rest, js, vs => ∃ j js' v vs', js = j :: js' ∧ vs = v :: vs' ∧ TakenFor s j v ∧
    ItemsTaken rest js' vs'

theorem takenFor_tuple {items : List Shape} {js : List Json} {vs : List Value} :
    TakenFor (.tuple items) (.array js) (.list vs) ↔ ItemsTaken items js vs := by
  have walk (start : Nat) : (js.length = items.length ∧ ∃ backs,
      decodeItems items start js = .ok backs ∧ Value.sameItems backs vs = true) ↔
      ItemsTaken items js vs := by
    induction items generalizing start js vs with
    | nil =>
      cases js with
      | nil => cases vs <;> simp [ItemsTaken, decodeItems, Value.sameItems]
      | cons => simp [ItemsTaken]
    | cons s rest ih =>
      rw [ItemsTaken]
      constructor
      · rintro ⟨length, backs, read, same⟩
        cases js with
        | nil => cases length
        | cons j js =>
          rw [decodeItems] at read
          obtain ⟨back, first, read⟩ := bind_eq_ok.1 read
          obtain ⟨backs', others, read⟩ := bind_eq_ok.1 read
          cases read
          cases vs with
          | nil => simp [Value.sameItems] at same
          | cons v vs =>
            rw [Value.sameItems, Bool.and_eq_true] at same
            exact ⟨j, js, v, vs, rfl, rfl, ⟨back, Wired.within_eq_ok.1 first, same.1⟩,
              (ih (start + 1)).1 ⟨Nat.succ.inj length, backs', others, same.2⟩⟩
      · rintro ⟨j, js', v, vs', rfl, rfl, ⟨back, first, same⟩, taken⟩
        obtain ⟨length, backs, others, sames⟩ := (ih (start + 1)).2 taken
        refine ⟨congrArg Nat.succ length, back :: backs, ?_, ?_⟩
        · rw [decodeItems, first, Wired.within_ok, ok_bind, others, ok_bind, pure_eq_ok]
        · rw [Value.sameItems, same, sames, Bool.and_self]
  rw [← walk 0]
  constructor
  · rintro ⟨back, read, same⟩
    rw [decode] at read
    split at read
    · next length =>
      obtain ⟨backs, items, read⟩ := bind_eq_ok.1 read
      cases read
      rw [Value.same] at same
      exact ⟨length, backs, items, same⟩
    · cases read
  · rintro ⟨length, backs, items, same⟩
    refine ⟨.list backs, ?_, ?_⟩
    · rw [decode, if_pos length, items, ok_bind, pure_eq_ok]
    · rw [Value.same, same]

/-! ## Maps -/

/-- A member of an object that is taken for an entry of a map. -/
def EntryTaken (key value : Shape) (m : String × Json) (e : Value × Value) : Prop :=
  (∃ k, readKey key m.1 = .ok k ∧ k.same e.1 = true) ∧ TakenFor value m.2 e.2

theorem takenFor_mapping {key value : Shape} {ms : Members} {es : List (Value × Value)} :
    TakenFor (.mapping key value) (.object ms) (.map es) ↔
      List.Forall₂ (EntryTaken key value) ms es := by
  have walk : (∃ backs, decodeMembers key (decode key) (decode value) ms = .ok backs ∧
      Value.sameEntries backs es = true) ↔ List.Forall₂ (EntryTaken key value) ms es := by
    induction ms generalizing es with
    | nil => cases es <;> simp [decodeMembers, Value.sameEntries]
    | cons m rest ih =>
      constructor
      · rintro ⟨backs, read, same⟩
        rw [decodeMembers] at read
        obtain ⟨back, first, read⟩ := bind_eq_ok.1 read
        obtain ⟨backs', others, read⟩ := bind_eq_ok.1 read
        cases read
        obtain ⟨kj, named, first⟩ := bind_eq_ok.1 (Wired.within_eq_ok.1 first)
        obtain ⟨k, keyed, first⟩ := bind_eq_ok.1 first
        obtain ⟨w, valued, first⟩ := bind_eq_ok.1 first
        cases first
        cases es with
        | nil => simp [Value.sameEntries] at same
        | cons e es =>
          rw [Value.sameEntries, Bool.and_eq_true, Bool.and_eq_true] at same
          exact .cons ⟨⟨k, bind_eq_ok.2 ⟨kj, named, keyed⟩, same.1.1⟩, w, valued, same.1.2⟩
            (ih.1 ⟨backs', others, same.2⟩)
      · intro taken
        cases taken with
        | cons first others =>
          obtain ⟨⟨k, read, sameKey⟩, w, valued, same⟩ := first
          obtain ⟨kj, named, keyed⟩ := bind_eq_ok.1 read
          obtain ⟨backs, others, sames⟩ := ih.2 others
          refine ⟨(k, w) :: backs, ?_, ?_⟩
          · simp only [decodeMembers, named, keyed, valued, ok_bind, pure_eq_ok, Wired.within_ok,
              others]
          · rw [Value.sameEntries, sameKey, same, sames, Bool.and_self, Bool.and_self]
  rw [← walk]
  constructor
  · rintro ⟨back, read, same⟩
    rw [decode] at read
    obtain ⟨backs, entries, read⟩ := bind_eq_ok.1 read
    cases read
    rw [Value.same] at same
    exact ⟨backs, entries, same⟩
  · rintro ⟨backs, entries, same⟩
    refine ⟨.map backs, ?_, ?_⟩
    · rw [decode, entries, ok_bind, pure_eq_ok]
    · rw [Value.same, same]

/-! ## Records -/

/-- A field that is taken for a value: a member of its name, or nothing where it may be absent. -/
def FieldTaken (members : Members) (f : String × Shape) (v : Value) : Prop :=
  (∃ j, members.lookup f.1 = some j ∧ TakenFor f.2 j v) ∨
    (members.lookup f.1 = none ∧ f.2.allowsAbsence = true ∧ v = .null)

theorem fieldTaken_iff {members : Members} {f : String × Shape} :
    FieldTaken members f v ↔ ∃ w, readField members f = .ok w ∧ w.same v = true := by
  unfold FieldTaken readField
  cases there : members.lookup f.1 with
  | some j =>
    simp only [Option.some.injEq, exists_eq_left', reduceCtorEq, false_and, or_false,
      Wired.within_eq_ok]
    rfl
  | none =>
    simp only [reduceCtorEq, false_and, exists_false, false_or, true_and]
    constructor
    · rintro ⟨allowed, rfl⟩
      exact ⟨.null, by rw [if_pos allowed], by rw [Value.same]⟩
    · rintro ⟨w, read, same⟩
      split at read
      · next allowed =>
        cases read
        exact ⟨allowed, Value.same_null_left same⟩
      · cases read

theorem fieldsTaken_iff {fields : List (String × Shape)} {members : Members}
    {vs : List (String × Value)} : (∀ f ∈ fields, FieldTaken members f (Value.fieldOf vs f.1)) ↔
      ∃ backs, decodeFields fields members = .ok backs ∧
        ∀ g ∈ backs, g.2.same (Value.fieldOf vs g.1) = true := by
  induction fields with
  | nil => simp [decodeFields]
  | cons f rest ih =>
    rw [List.forall_mem_cons, ih, fieldTaken_iff, decodeFields_cons]
    constructor
    · rintro ⟨⟨w, read, same⟩, backs, others, sames⟩
      refine ⟨(f.1, w) :: backs, ?_, List.forall_mem_cons.2 ⟨same, sames⟩⟩
      rw [read, ok_bind, others, ok_bind]
    · rintro ⟨backs, read, sames⟩
      obtain ⟨w, first, read⟩ := bind_eq_ok.1 read
      obtain ⟨backs', others, read⟩ := bind_eq_ok.1 read
      cases read
      rw [List.forall_mem_cons] at sames
      exact ⟨⟨w, first, sames.1⟩, backs', others, sames.2⟩

/-- **A record is taken for its value field by field**, if it has no field of its own but null ones. -/
theorem takenFor_record {name : String} {fields : List (String × Shape)} {members : Members}
    {vs : List (String × Value)} (reads : ReadsFields s name fields)
    (distinct : (fields.map (·.1)).Nodup)
    (known : ∀ f ∈ vs, f.1 ∈ fields.map (·.1) ∨ f.2 = .null) :
    TakenFor s (.object members) (.record name vs) ↔
      ∀ f ∈ fields, FieldTaken members f (Value.fieldOf vs f.1) := by
  rw [fieldsTaken_iff, TakenFor, decode_record reads]
  have sames {backs : List (String × Value)} (read : decodeFields fields members = .ok backs) :
      (Value.ofFields name backs).same (.record name vs) = true ↔
        ∀ g ∈ backs, g.2.same (Value.fieldOf vs g.1) = true := by
    have names : backs.map (·.1) = fields.map (·.1) := names_of_fields (read_fields read)
    have entered : (Value.enterFields [] backs).Perm (backs ++ []) :=
      Value.perm_enterFields (names ▸ distinct) fun _ _ => List.not_mem_nil
    rw [List.append_nil] at entered
    have rest : (vs.all fun g =>
        ((Value.enterFields [] backs).lookup g.1).isSome || g.2.isNull) = true := by
      refine List.all_eq_true.2 fun g hg => ?_
      rcases known g hg with declared | null
      · obtain ⟨w, there⟩ := exists_lookup (names ▸ declared)
        rw [Value.lookup_ofFields (names ▸ distinct), there]
        rfl
      · rw [null, Value.isNull, Bool.or_true]
    rw [Value.ofFields_eq, Value.same, beq_self_eq_true, Bool.true_and, rest, Bool.and_true,
      Value.sameFields_iff]
    exact ⟨fun h g hg => h g (entered.mem_iff.2 hg), fun h g hg => h g (entered.mem_iff.1 hg)⟩
  constructor
  · rintro ⟨back, read, same⟩
    obtain ⟨backs, all, read⟩ := bind_eq_ok.1 read
    cases read
    exact ⟨backs, all, (sames all).1 same⟩
  · rintro ⟨backs, all, same⟩
    exact ⟨_, by rw [all, ok_bind], (sames all).2 same⟩

theorem takenFor_wrapper {name field : String} {inner : Shape} :
    TakenFor (.wrapper name field inner) j v ↔ TakenFor inner j v := by
  rw [TakenFor, decode, TakenFor]

/-! ## Absent values -/

theorem takenFor_optional {inner : Shape} (present : j ≠ .null) :
    TakenFor (.optional inner) j v ↔ TakenFor inner j v := by
  rw [TakenFor, decode_optional present, TakenFor]

theorem takenFor_null (allowed : s.allowsAbsence = true) : TakenFor s .null v ↔ v = .null := by
  have read : decode s .null = .ok .null := by
    cases s <;> simp only [Shape.allowsAbsence] at allowed
    case optional inner => rw [decode]
    case scalar kind =>
      cases kind <;> simp at allowed
      rw [decode, decodeScalar]
    all_goals cases allowed
  rw [TakenFor, read]
  constructor
  · rintro ⟨_, ⟨⟩, same⟩
    exact Value.same_null_left same
  · rintro rfl
    exact ⟨.null, rfl, by rw [Value.same]⟩

/-- Null is read as null, in the way of an optional or of an untyped value. -/
theorem read_null (h : decode s .null = .ok v) : v = .null ∨ v = .raw .null := by
  induction s with
  | scalar kind =>
    cases kind <;> simp only [decode, decodeScalar] at h <;> cases h
    · exact Or.inr rfl
    · exact Or.inl rfl
  | temporal kind => cases kind <;> simp only [decode, decodeTemporal] at h <;> cases h
  | optional inner =>
    rw [decode] at h
    cases h
    exact Or.inl rfl
  | wrapper name field inner ih =>
    rw [decode] at h
    exact ih h
  | enum e =>
    simp only [decode, decodeEnum, EnumDef.memberFor?_null] at h
    cases h
  | list | tuple | mapping | record | bareTemplate | opened | blocked =>
    simp only [decode] at h
    cases h

theorem null_of_takenFor (taken : TakenFor s .null v) : v = .null ∨ v = .raw .null := by
  obtain ⟨back, read, same⟩ := taken
  rcases read_null read with rfl | rfl
  · exact Or.inl (Value.same_null_left same)
  · cases v with
    | raw j =>
      rw [Value.same] at same
      cases j <;> simp [Json.same] at same
      exact Or.inr rfl
    | _ => simp [Value.same] at same

end RpcBridge.Wire
