import Mathlib.Data.List.Perm.Subperm
import RpcBridge.Proofs.Json.Settled

/-!
# Proofs/Json/Sameness — sameness of JSON values

Two objects are the same if they have as many members and each member of the first is found in the
second.  Nothing is said of the members of the second; but if no name is repeated, counting them is
enough to find each of them in the first (`exists_of_sameMembers`).  So among settled values
sameness is an equivalence.

* `Json.same_array`, `Json.same_object`, … — what is the same as a value of each kind;
* `Json.same_symm`, `Json.same_trans` — the laws that `Json.same_refl` leaves.
-/

namespace RpcBridge

/-! ## Lists side by side -/

section Lists

variable {α β γ : Type} {R : α → β → Prop} {as : List α} {bs : List β}

theorem forall₂_symm_of {S : β → α → Prop} (h : List.Forall₂ R as bs)
    (back : ∀ a ∈ as, ∀ b ∈ bs, R a b → S b a) : List.Forall₂ S bs as := by
  induction h with
  | nil => exact .nil
  | cons first _ ih =>
    simp only [List.forall_mem_cons] at back
    exact .cons (back.1.1 first) (ih fun a ha => (back.2 a ha).2)

theorem forall₂_trans_of {S : β → γ → Prop} {T : α → γ → Prop} {cs : List γ}
    (h : List.Forall₂ R as bs) (h' : List.Forall₂ S bs cs)
    (step : ∀ a ∈ as, ∀ b ∈ bs, ∀ c ∈ cs, R a b → S b c → T a c) : List.Forall₂ T as cs := by
  induction h generalizing cs with
  | nil =>
    cases h'
    exact .nil
  | cons first _ ih =>
    cases h' with
    | cons second rest =>
      simp only [List.forall_mem_cons] at step
      exact .cons (step.1.1.1 first second) (ih rest fun a ha b hb => ((step.2 a ha).2 b hb).2)

theorem forall₂_congr_of {S : α → β → Prop} (agree : ∀ a ∈ as, ∀ b ∈ bs, R a b ↔ S a b) :
    List.Forall₂ R as bs ↔ List.Forall₂ S as bs := by
  induction as generalizing bs with
  | nil => rw [List.forall₂_nil_left_iff, List.forall₂_nil_left_iff]
  | cons a as ih =>
    cases bs with
    | nil => rw [List.forall₂_nil_right_iff, List.forall₂_nil_right_iff]
    | cons b bs =>
      rw [List.forall_mem_cons, List.forall_mem_cons] at agree
      rw [List.forall₂_cons, List.forall₂_cons, agree.1.1,
        ih fun a ha b hb => agree.2 a ha b (.tail _ hb)]

theorem forall₂_and {S : α → β → Prop} : List.Forall₂ (fun a b => R a b ∧ S a b) as bs ↔
    List.Forall₂ R as bs ∧ List.Forall₂ S as bs := by
  constructor
  · exact fun h => ⟨h.imp fun _ _ => And.left, h.imp fun _ _ => And.right⟩
  · rintro ⟨h, h'⟩
    induction h with
    | nil => exact .nil
    | cons first _ ih =>
      rw [List.forall₂_cons] at h'
      exact .cons ⟨first, h'.1⟩ (ih h'.2)

end Lists

/-! ## Numbers -/

section Numbers

variable {x y z : Finite}

theorem Finite.same_iff : x.same y = true ↔ x = y ∨ (x.isZero = true ∧ y.isZero = true) := by
  rw [Finite.same, Bool.or_eq_true, beq_iff_eq, Bool.and_eq_true]

theorem Finite.same_symm (h : x.same y = true) : y.same x = true :=
  Finite.same_iff.2 ((Finite.same_iff.1 h).imp Eq.symm And.symm)

theorem Finite.same_trans (h : x.same y = true) (h' : y.same z = true) : x.same z = true := by
  rcases Finite.same_iff.1 h with rfl | zeros
  · exact h'
  · rcases Finite.same_iff.1 h' with rfl | zeros'
    · exact h
    · exact Finite.same_iff.2 (.inr ⟨zeros.1, zeros'.2⟩)

variable {m n k : JsonNumber}

theorem JsonNumber.same_symm (h : m.same n = true) : n.same m = true := by
  cases m <;> cases n <;> simp only [same, Bool.false_eq_true] at h ⊢
  · rwa [beq_iff_eq, eq_comm, ← beq_iff_eq]
  · exact Finite.same_symm h

theorem JsonNumber.same_trans (h : m.same n = true) (h' : n.same k = true) :
    m.same k = true := by
  cases m <;> cases n <;> simp only [same, Bool.false_eq_true] at h
  · rw [beq_iff_eq] at h
    rwa [h]
  · cases k <;> simp only [same, Bool.false_eq_true] at h' ⊢
    exact Finite.same_trans h h'

end Numbers

namespace Json

/-! ## What is the same as a value -/

section Kinds

attribute [local simp] same

theorem same_null {k : Json} : null.same k = true ↔ k = .null := by cases k <;> simp

theorem same_bool {b : Bool} {k : Json} : (bool b).same k = true ↔ k = .bool b := by
  cases k with
  | bool c => rw [same, beq_iff_eq, bool.injEq, eq_comm]
  | _ => simp

theorem same_string {s : String} {k : Json} : (string s).same k = true ↔ k = .string s := by
  cases k with
  | string t => rw [same, beq_iff_eq, string.injEq, eq_comm]
  | _ => simp

theorem same_number {m : JsonNumber} {k : Json} :
    (number m).same k = true ↔ ∃ n, k = .number n ∧ m.same n = true := by
  cases k <;> simp

theorem sameItems_iff {xs ys : List Json} :
    sameItems xs ys = true ↔ List.Forall₂ (fun x y => x.same y = true) xs ys := by
  induction xs generalizing ys with
  | nil => cases ys <;> simp [sameItems]
  | cons x rest ih =>
    cases ys with
    | nil => simp [sameItems]
    | cons y ys => rw [sameItems, Bool.and_eq_true, ih, List.forall₂_cons]

theorem same_array {xs : List Json} {k : Json} : (array xs).same k = true ↔
    ∃ ys, k = .array ys ∧ List.Forall₂ (fun x y => x.same y = true) xs ys := by
  cases k <;> simp [sameItems_iff]

theorem same_object {ms : Members} {k : Json} : (object ms).same k = true ↔
    ∃ ns, k = .object ns ∧ ms.length = ns.length ∧ sameMembers ms ns = true := by
  cases k <;> simp

end Kinds

/-- The members of an object that is the same as another one have all its names. -/
theorem exists_of_sameMembers {ms ns : Members} (distinct : (ms.map (·.1)).Nodup)
    (length : ms.length = ns.length) (same : sameMembers ms ns = true) {n : String × Json}
    (hn : n ∈ ns) : ∃ m ∈ ms, m.1 = n.1 ∧ m.2.same n.2 = true := by
  rw [sameMembers_iff] at same
  have subset : ms.map (·.1) ⊆ ns.map (·.1) := by
    intro name there
    obtain ⟨m, hm, rfl⟩ := List.mem_map.1 there
    obtain ⟨y, found, -⟩ := same m hm
    exact List.mem_map.2 ⟨_, mem_of_lookup_eq_some found, rfl⟩
  have counted : (ns.map (·.1)).length = (ms.map (·.1)).length := by
    rw [List.length_map, List.length_map, length]
  have perm : (ms.map (·.1)).Perm (ns.map (·.1)) :=
    (List.subperm_of_subset distinct subset).perm_of_length_le (Nat.le_of_eq counted)
  obtain ⟨m, hm, named⟩ := List.mem_map.1 (perm.mem_iff.2 (List.mem_map.2 ⟨n, hn, rfl⟩))
  obtain ⟨y, found, matched⟩ := same m hm
  rw [named, lookup_eq_some_of_mem (perm.nodup_iff.1 distinct) hn] at found
  cases found
  exact ⟨m, hm, named, matched⟩

/-! ## Laws -/

/-- **Sameness of settled values is symmetric.** -/
theorem same_symm {j k : Json} (settled : j.Settled) (h : j.same k = true) : k.same j = true := by
  induction j generalizing k with
  | null =>
    obtain rfl := same_null.1 h
    exact h
  | bool b =>
    obtain rfl := same_bool.1 h
    exact h
  | string s =>
    obtain rfl := same_string.1 h
    exact h
  | number m =>
    obtain ⟨n, rfl, same⟩ := same_number.1 h
    exact same_number.2 ⟨m, rfl, JsonNumber.same_symm same⟩
  | array xs ih =>
    cases settled with
    | array inner =>
      obtain ⟨ys, rfl, each⟩ := same_array.1 h
      exact same_array.2 ⟨xs, rfl, forall₂_symm_of each fun x hx y _ => ih x hx (inner x hx)⟩
  | object ms ih =>
    cases settled with
    | object distinct inner =>
      obtain ⟨ns, rfl, length, same⟩ := same_object.1 h
      refine same_object.2 ⟨ms, rfl, length.symm, sameMembers_iff.2 fun n hn => ?_⟩
      obtain ⟨m, hm, named, matched⟩ := exists_of_sameMembers distinct length same hn
      refine ⟨m.2, ?_, ih m hm (inner m hm) matched⟩
      exact named ▸ lookup_eq_some_of_mem distinct hm

/-- **Sameness is transitive.** -/
theorem same_trans {j k l : Json} (h : j.same k = true) (h' : k.same l = true) :
    j.same l = true := by
  induction j generalizing k l with
  | null =>
    obtain rfl := same_null.1 h
    exact h'
  | bool b =>
    obtain rfl := same_bool.1 h
    exact h'
  | string s =>
    obtain rfl := same_string.1 h
    exact h'
  | number m =>
    obtain ⟨n, rfl, same⟩ := same_number.1 h
    obtain ⟨o, rfl, same'⟩ := same_number.1 h'
    exact same_number.2 ⟨o, rfl, JsonNumber.same_trans same same'⟩
  | array xs ih =>
    obtain ⟨ys, rfl, each⟩ := same_array.1 h
    obtain ⟨zs, rfl, each'⟩ := same_array.1 h'
    exact same_array.2 ⟨zs, rfl, forall₂_trans_of each each' fun x hx _ _ _ _ => ih x hx⟩
  | object ms ih =>
    obtain ⟨ns, rfl, length, same⟩ := same_object.1 h
    obtain ⟨os, rfl, length', same'⟩ := same_object.1 h'
    rw [sameMembers_iff] at same same'
    refine same_object.2 ⟨os, rfl, length.trans length', sameMembers_iff.2 fun m hm => ?_⟩
    obtain ⟨x, found, matched⟩ := same m hm
    obtain ⟨y, found', matched'⟩ := same' _ (mem_of_lookup_eq_some found)
    exact ⟨y, found', ih m hm matched matched'⟩

end Json

end RpcBridge
