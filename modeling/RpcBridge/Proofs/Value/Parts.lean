import Mathlib.Data.List.Forall2
import Mathlib.Data.String.Basic
import RpcBridge.Proofs.Json.Settled

/-!
# Proofs/Value/Parts — what a value consists of

Values are compared part by part: lists item by item, maps entry by entry, records field by field.
A record is meant to have one field of a name, in the order of the names; a value that is made of
such records, and of untyped values without repeated names, is *settled* (`Value.Settled`).  What is
entered with `Value.ofFields` is.

* `Value.OccursIn` — the parts of a value;
* `Value.same_list`, `Value.same_map`, `Value.same_record` — sameness, part by part;
* `Value.settled_ofFields` — a record of settled fields is settled.
-/

namespace RpcBridge.Value

/-- Whether a value has no parts. -/
def isLeaf : Value → Bool
  | .list _ | .map _ | .record _ _ => false
  | _ => true

/-- **Induction on values**: items, entries and fields are reached by membership. -/
@[induction_eliminator]
theorem induction {motive : Value → Prop} (leaf : ∀ v, v.isLeaf = true → motive v)
    (list : ∀ items, (∀ v ∈ items, motive v) → motive (.list items))
    (map : ∀ entries, (∀ e ∈ entries, motive e.1 ∧ motive e.2) → motive (.map entries))
    (record : ∀ typeName fields, (∀ f ∈ fields, motive f.2) → motive (.record typeName fields))
    (v : Value) : motive v :=
  @Value.rec motive (fun items => ∀ v ∈ items, motive v)
    (fun entries => ∀ e ∈ entries, motive e.1 ∧ motive e.2)
    (fun fields => ∀ f ∈ fields, motive f.2) (fun e => motive e.1 ∧ motive e.2)
    (fun f => motive f.2)
    (leaf _ rfl) (fun _ => leaf _ rfl) (fun _ => leaf _ rfl) (fun _ => leaf _ rfl)
    (fun _ => leaf _ rfl) (fun _ => leaf _ rfl) (fun _ => leaf _ rfl) list map record
    (fun _ _ => leaf _ rfl) (fun _ => leaf _ rfl)
    (List.forall_mem_nil _) (fun _ _ head tail => List.forall_mem_cons.2 ⟨head, tail⟩)
    (List.forall_mem_nil _) (fun _ _ head tail => List.forall_mem_cons.2 ⟨head, tail⟩)
    (List.forall_mem_nil _) (fun _ _ head tail => List.forall_mem_cons.2 ⟨head, tail⟩)
    (fun _ _ key value => ⟨key, value⟩) (fun _ _ h => h) v

/-! ## Parts -/

/-- A part of a value, the value itself included. -/
inductive OccursIn (p : Value) : Value → Prop where
  | here : OccursIn p p
  | item {vs : List Value} {v : Value} (hv : v ∈ vs) (inner : OccursIn p v) : OccursIn p (.list vs)
  | key {entries : List (Value × Value)} {e : Value × Value} (he : e ∈ entries)
      (inner : OccursIn p e.1) : OccursIn p (.map entries)
  | value {entries : List (Value × Value)} {e : Value × Value} (he : e ∈ entries)
      (inner : OccursIn p e.2) : OccursIn p (.map entries)
  | field {name : String} {fields : List (String × Value)} {f : String × Value} (hf : f ∈ fields)
      (inner : OccursIn p f.2) : OccursIn p (.record name fields)

section Occurrences

variable {p v : Value}

/-- Nothing but itself occurs in a value without parts. -/
theorem occursIn_leaf (leaf : v.isLeaf = true) : p.OccursIn v ↔ p = v := by
  constructor
  · intro there
    cases there with
    | here => rfl
    | _ => cases leaf
  · rintro rfl
    exact .here

/-- A leaf occurs in a list exactly when it occurs in one of the items. -/
theorem occursIn_list {items : List Value} (leaf : p.isLeaf = true) :
    p.OccursIn (.list items) ↔ ∃ v ∈ items, p.OccursIn v := by
  constructor
  · intro there
    cases there with
    | here => cases leaf
    | item hv inner => exact ⟨_, hv, inner⟩
  · rintro ⟨v, hv, inner⟩
    exact .item hv inner

/-- A leaf occurs in a map exactly when it occurs in one of the keys or values. -/
theorem occursIn_map {entries : List (Value × Value)} (leaf : p.isLeaf = true) :
    p.OccursIn (.map entries) ↔ ∃ e ∈ entries, p.OccursIn e.1 ∨ p.OccursIn e.2 := by
  constructor
  · intro there
    cases there with
    | here => cases leaf
    | key he inner => exact ⟨_, he, .inl inner⟩
    | value he inner => exact ⟨_, he, .inr inner⟩
  · rintro ⟨e, he, inner | inner⟩
    · exact .key he inner
    · exact .value he inner

/-- A leaf occurs in a record exactly when it occurs in one of the fields. -/
theorem occursIn_record {name : String} {fields : List (String × Value)} (leaf : p.isLeaf = true) :
    p.OccursIn (.record name fields) ↔ ∃ f ∈ fields, p.OccursIn f.2 := by
  constructor
  · intro there
    cases there with
    | here => cases leaf
    | field hf inner => exact ⟨_, hf, inner⟩
  · rintro ⟨f, hf, inner⟩
    exact .field hf inner

end Occurrences

/-! ## Sameness, part by part -/

section Sameness

attribute [local simp] same

/-- Nothing but null equals null. -/
theorem same_null_left {v : Value} (h : Value.null.same v = true) : v = .null := by
  cases v <;> simp at h ⊢

theorem same_null_right {v : Value} (h : v.same .null = true) : v = .null := by
  cases v <;> simp at h ⊢

/-- The fields of one record are the same in another when each is found there, null where it is
absent. -/
theorem sameFields_iff {fs gs : List (String × Value)} :
    sameFields fs gs = true ↔ ∀ f ∈ fs, f.2.same (fieldOf gs f.1) = true := by
  induction fs with
  | nil => simp [sameFields]
  | cons f rest ih => rw [sameFields, Bool.and_eq_true, ih, List.forall_mem_cons]

/-- Lists of items are the same exactly when they are item by item. -/
theorem sameItems_iff {vs ws : List Value} :
    sameItems vs ws = true ↔ List.Forall₂ (fun v w => v.same w = true) vs ws := by
  induction vs generalizing ws with
  | nil => cases ws <;> simp [sameItems]
  | cons v vs ih =>
    cases ws with
    | nil => simp [sameItems]
    | cons w ws => rw [sameItems, Bool.and_eq_true, ih, List.forall₂_cons]

/-- A list equals nothing but lists of the same items. -/
theorem same_list {vs : List Value} {w : Value} : (list vs).same w = true ↔
    ∃ ws, w = .list ws ∧ List.Forall₂ (fun v w => v.same w = true) vs ws := by
  cases w <;> simp [sameItems_iff]

/-- Two entries with the same key and the same value. -/
def SameEntry (e f : Value × Value) : Prop := e.1.same f.1 = true ∧ e.2.same f.2 = true

/-- Entries are the same exactly when keys and values are, one by one. -/
theorem sameEntries_iff {es fs : List (Value × Value)} :
    sameEntries es fs = true ↔ List.Forall₂ SameEntry es fs := by
  induction es generalizing fs with
  | nil => cases fs <;> simp [sameEntries]
  | cons e es ih =>
    cases fs with
    | nil => simp [sameEntries]
    | cons f fs =>
      rw [sameEntries, Bool.and_eq_true, Bool.and_eq_true, ih, List.forall₂_cons, SameEntry]

/-- A map equals nothing but maps of the same entries in the same order. -/
theorem same_map {es : List (Value × Value)} {w : Value} :
    (map es).same w = true ↔ ∃ fs, w = .map fs ∧ List.Forall₂ SameEntry es fs := by
  cases w <;> simp [sameEntries_iff]

end Sameness

section Fields

variable {name : String} {fields : List (String × Value)} {v : Value}

/-- Among distinct names, a field that is there is the one found under its name. -/
theorem fieldOf_of_mem (distinct : (fields.map (·.1)).Nodup) (h : (name, v) ∈ fields) :
    fieldOf fields name = v := by
  rw [fieldOf, lookup_eq_some_of_mem distinct h, Option.getD_some]

/-- A field that is not null is there. -/
theorem mem_of_fieldOf_ne (present : fieldOf fields name ≠ .null) :
    (name, fieldOf fields name) ∈ fields := by
  rw [fieldOf] at present ⊢
  cases found : fields.lookup name with
  | none =>
    rw [found] at present
    exact absurd rfl present
  | some v => exact mem_of_lookup_eq_some found

end Fields

/-! ## Settled values -/

/-- A value whose records have one field of a name, and whose untyped values are settled. -/
structure Settled (v : Value) : Prop where
  distinct : ∀ name fields, (Value.record name fields).OccursIn v → (fields.map (·.1)).Nodup
  untyped : ∀ j, (Value.raw j).OccursIn v → j.Settled

/-- A leaf is settled unless it is an untyped value that is not. -/
theorem settled_leaf {v : Value} (leaf : v.isLeaf = true)
    (untyped : ∀ j, v = .raw j → j.Settled) : v.Settled where
  distinct _ _ there := by cases there <;> cases leaf
  untyped j there := by
    cases there with
    | here => exact untyped j rfl
    | _ => cases leaf

theorem settled_null : null.Settled := settled_leaf rfl nofun

namespace Settled

variable {v w : Value} {vs : List Value} {entries : List (Value × Value)} {name : String}
  {fields : List (String × Value)}

/-- A part of a settled value is settled. -/
theorem part (h : v.Settled) (part : ∀ p : Value, p.OccursIn w → p.OccursIn v) : w.Settled where
  distinct name fields there := h.distinct name fields (part _ there)
  untyped j there := h.untyped j (part _ there)

theorem item (h : (list vs).Settled) : ∀ v ∈ vs, v.Settled := fun _ hv => h.part fun _ => .item hv

theorem key (h : (map entries).Settled) : ∀ e ∈ entries, e.1.Settled :=
  fun _ he => h.part fun _ => .key he

theorem value (h : (map entries).Settled) : ∀ e ∈ entries, e.2.Settled :=
  fun _ he => h.part fun _ => .value he

/-- The fields of a settled record have distinct names. -/
theorem names (h : (record name fields).Settled) : (fields.map (·.1)).Nodup :=
  h.distinct _ _ .here

theorem field (h : (record name fields).Settled) : ∀ f ∈ fields, f.2.Settled :=
  fun _ hf => h.part fun _ => .field hf

/-- What is null or missing is settled like any other field. -/
theorem fieldOf (h : (record name fields).Settled) (a : String) :
    (fieldOf fields a).Settled := by
  by_cases present : Value.fieldOf fields a = .null
  · rw [present]
    exact settled_null
  · exact h.field _ (mem_of_fieldOf_ne present)

end Settled

/-- A list of settled items is settled. -/
theorem settled_list {items : List Value} (each : ∀ v ∈ items, v.Settled) :
    (list items).Settled where
  distinct _ _ there := by
    cases there with
    | item hv inner => exact (each _ hv).distinct _ _ inner
  untyped _ there := by
    cases there with
    | item hv inner => exact (each _ hv).untyped _ inner

/-- A map of settled keys and values is settled. -/
theorem settled_map {entries : List (Value × Value)}
    (each : ∀ e ∈ entries, e.1.Settled ∧ e.2.Settled) : (map entries).Settled where
  distinct _ _ there := by
    cases there with
    | key he inner => exact (each _ he).1.distinct _ _ inner
    | value he inner => exact (each _ he).2.distinct _ _ inner
  untyped _ there := by
    cases there with
    | key he inner => exact (each _ he).1.untyped _ inner
    | value he inner => exact (each _ he).2.untyped _ inner

/-- A record of distinct names and settled fields is settled. -/
theorem settled_record {name : String} {fields : List (String × Value)}
    (distinct : (fields.map (·.1)).Nodup) (each : ∀ f ∈ fields, f.2.Settled) :
    (record name fields).Settled where
  distinct _ _ there := by
    cases there with
    | here => exact distinct
    | field hf inner => exact (each _ hf).distinct _ _ inner
  untyped _ there := by
    cases there with
    | field hf inner => exact (each _ hf).untyped _ inner

/-! ## Records as they are entered -/

/-- Entering a field keeps the names in order. -/
theorem pairwise_putField {fields : List (String × Value)}
    (sorted : fields.Pairwise (·.1 < ·.1)) (name : String) (v : Value) :
    (putField fields name v).Pairwise (·.1 < ·.1) := by
  induction fields with
  | nil => exact List.pairwise_singleton _ _
  | cons g rest ih =>
    obtain ⟨first, sorted⟩ := List.pairwise_cons.1 sorted
    rw [putField]
    split
    · next before =>
      refine List.pairwise_cons.2 ⟨List.forall_mem_cons.2 ⟨before, fun f hf => ?_⟩,
        List.pairwise_cons.2 ⟨first, sorted⟩⟩
      exact before.trans (first f hf)
    · next after =>
      split
      · next named => exact List.pairwise_cons.2 ⟨named ▸ first, sorted⟩
      · next other =>
        refine List.pairwise_cons.2 ⟨fun f hf => ?_, ih sorted⟩
        rcases mem_putField hf with rfl | hf
        · exact (not_lt.1 after).lt_of_ne other
        · exact first f hf

/-- Fields entered into a record that is sorted by name leave it sorted. -/
theorem pairwise_enterFields {done : List (String × Value)}
    (sorted : done.Pairwise (·.1 < ·.1)) (fields : List (String × Value)) :
    (enterFields done fields).Pairwise (·.1 < ·.1) := by
  induction fields generalizing done with
  | nil => exact sorted
  | cons f rest ih => exact ih (pairwise_putField sorted _ _)

/-- **A record that is entered from settled fields is settled**, whatever their names are. -/
theorem settled_ofFields (name : String) {fields : List (String × Value)}
    (each : ∀ f ∈ fields, f.2.Settled) : (ofFields name fields).Settled := by
  rw [ofFields_eq]
  refine settled_record ?_ fun f hf => ?_
  · exact (pairwise_enterFields .nil fields).map _ fun _ _ => ne_of_lt
  · rcases mem_enterFields hf with entered | none
    · exact each f entered
    · cases none

/-! ## Sameness of records -/

/-- **Records are compared field by field**, and a field that is missing is null. -/
theorem same_record {n : String} {fs : List (String × Value)} {w : Value}
    (settled : (record n fs).Settled) (settled' : w.Settled) :
    (record n fs).same w = true ↔
      ∃ gs, w = .record n gs ∧ ∀ name, (fieldOf fs name).same (fieldOf gs name) = true := by
  cases w with
  | record m gs =>
    simp only [same, Bool.and_eq_true, beq_iff_eq, sameFields_iff, List.all_eq_true, and_assoc]
    constructor
    · rintro ⟨rfl, here, there⟩
      refine ⟨gs, rfl, fun name => ?_⟩
      cases found : fs.lookup name with
      | some v =>
        have same := here _ (mem_of_lookup_eq_some found)
        rwa [fieldOf, found]
      | none =>
        have missing : fieldOf gs name = .null := by
          by_contra present
          have null := there _ (mem_of_fieldOf_ne present)
          rw [found, Option.isSome_none, Bool.false_or] at null
          cases value : fieldOf gs name <;> simp [value, isNull] at null present
        rw [missing, fieldOf, found, Option.getD_none, Value.same]
    · rintro ⟨_, ⟨rfl, rfl⟩, each⟩
      refine ⟨rfl, ?_, ?_⟩
      · rintro ⟨name, v⟩ hf
        have same := each name
        rwa [fieldOf_of_mem settled.names hf] at same
      · rintro ⟨name, w⟩ hg
        have same := each name
        rw [fieldOf_of_mem settled'.names hg, fieldOf] at same
        cases found : fs.lookup name with
        | some v => rfl
        | none =>
          rw [found] at same
          rw [same_null_left same]
          rfl
  | _ => simp [same]

end RpcBridge.Value
