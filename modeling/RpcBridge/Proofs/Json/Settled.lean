import RpcBridge.Json.Reader
import RpcBridge.Proofs.Json.Entries

/-!
# Proofs/Json/Settled — settled values are the same as themselves

A settled JSON value repeats no member name.  Only of such a value can one say that sameness is
reflexive: a repeated name is looked up once.

* `Json.Settled` — no object has two members of one name;
* `Json.settled_of_parse` — what a reader makes of a text is settled;
* `Json.same_refl` — a settled value is the same as itself;
* `Json.sameMembers_iff` — members are the same when each is found in the other object.
-/

namespace RpcBridge

namespace Json

/-- **Induction on JSON values**: items and members are reached by membership. -/
@[induction_eliminator]
theorem induction {motive : Json → Prop} (null : motive .null) (bool : ∀ b, motive (.bool b))
    (number : ∀ n, motive (.number n)) (string : ∀ s, motive (.string s))
    (array : ∀ items, (∀ j ∈ items, motive j) → motive (.array items))
    (object : ∀ members, (∀ m ∈ members, motive m.2) → motive (.object members)) (j : Json) :
    motive j :=
  @Json.rec motive (fun items => ∀ j ∈ items, motive j) (fun members => ∀ m ∈ members, motive m.2)
    (fun m => motive m.2) null bool number string array object
    (fun _ h => nomatch h)
    (fun _ _ head tail j hj => by
      rcases List.mem_cons.1 hj with rfl | hj
      · exact head
      · exact tail j hj)
    (fun _ h => nomatch h)
    (fun _ _ head tail m hm => by
      rcases List.mem_cons.1 hm with rfl | hm
      · exact head
      · exact tail m hm)
    (fun _ _ h => h) j

/-- A value none of whose objects has two members of one name. -/
inductive Settled : Json → Prop where
  | null : Settled .null
  | bool (b : Bool) : Settled (.bool b)
  | number (n : JsonNumber) : Settled (.number n)
  | string (s : String) : Settled (.string s)
  | array {items : List Json} (inner : ∀ j ∈ items, j.Settled) : Settled (.array items)
  | object {members : Members} (distinct : (members.map (·.1)).Nodup)
      (inner : ∀ m ∈ members, m.2.Settled) : Settled (.object members)

theorem settled_settleItems {items : List Json} (h : ∀ j ∈ items, j.settle.Settled) :
    ∀ j ∈ settleItems items, j.Settled := by
  induction items with
  | nil => exact nofun
  | cons j rest ih =>
    rw [List.forall_mem_cons] at h
    rw [settleItems]
    exact List.forall_mem_cons.2 ⟨h.1, ih h.2⟩

theorem settled_settleMembers {done members : Members} (h : ∀ m ∈ members, m.2.settle.Settled)
    (distinct : (done.map (·.1)).Nodup) (settled : ∀ m ∈ done, m.2.Settled) :
    ((settleMembers done members).map (·.1)).Nodup ∧
      ∀ m ∈ settleMembers done members, m.2.Settled := by
  induction members generalizing done with
  | nil => exact ⟨distinct, settled⟩
  | cons m rest ih =>
    rw [List.forall_mem_cons] at h
    rw [settleMembers]
    refine ih h.2 (nodup_putEntry distinct _ _) fun m hm => ?_
    rcases mem_putEntry hm with rfl | hm
    · exact h.1
    · exact settled m hm

theorem settled_settle (j : Json) : j.settle.Settled := by
  induction j with
  | null => exact .null
  | bool b => exact .bool b
  | number n => exact .number n
  | string s => exact .string s
  | array items ih =>
    rw [settle]
    exact .array (settled_settleItems ih)
  | object members ih =>
    rw [settle]
    obtain ⟨distinct, inner⟩ := @settled_settleMembers [] members ih .nil nofun
    exact .object distinct inner

/-- **What a reader makes of a text is settled.** -/
theorem settled_of_parse {text : List Symbol} {j : Json} (h : parseSymbols text = .ok j) :
    j.Settled := by
  unfold parseSymbols at h
  dsimp only at h
  cases read : (draft text).draft.read maxLevels with
  | error f =>
    rw [read] at h
    cases h
  | ok k =>
    simp only [read, Bind.bind, Except.bind] at h
    split at h <;> cases h
    exact settled_settle k

theorem sameMembers_iff {ms ns : Members} :
    sameMembers ms ns = true ↔ ∀ m ∈ ms, ∃ y, ns.lookup m.1 = some y ∧ m.2.same y = true := by
  induction ms with
  | nil => simp [sameMembers]
  | cons m rest ih =>
    obtain ⟨name, x⟩ := m
    rw [sameMembers, Bool.and_eq_true, ih, List.forall_mem_cons]
    refine and_congr ?_ Iff.rfl
    cases h : ns.lookup name <;> simp

theorem sameItems_refl {items : List Json} (h : ∀ j ∈ items, j.same j = true) :
    sameItems items items = true := by
  induction items with
  | nil => rw [sameItems]
  | cons j rest ih =>
    rw [List.forall_mem_cons] at h
    rw [sameItems, h.1, ih h.2, Bool.and_self]

end Json

theorem JsonNumber.same_refl (n : JsonNumber) : n.same n = true := by
  cases n <;> simp [JsonNumber.same, Finite.same]

/-- **A settled value is the same as itself.** -/
theorem Json.same_refl {j : Json} (h : j.Settled) : j.same j = true := by
  induction j with
  | null => rw [same]
  | bool b => simp only [same, beq_self_eq_true]
  | number n => rw [same, n.same_refl]
  | string s => simp only [same, beq_self_eq_true]
  | array items ih =>
    cases h with
    | array inner =>
      rw [same, sameItems_refl fun j hj => ih j hj (inner j hj)]
  | object members ih =>
    cases h with
    | object distinct inner =>
      simp only [same, beq_self_eq_true, Bool.true_and]
      refine sameMembers_iff.2 fun m hm => ⟨m.2, lookup_eq_some_of_mem distinct hm, ?_⟩
      exact ih m hm (inner m hm)

end RpcBridge
