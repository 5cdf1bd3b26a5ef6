import Mathlib.Data.List.DropRight
import RpcBridge.Proofs.Client.Image

/-!
# Proofs/Client/Serialize — the JSON text of what a client sends

A value that is undefined has no text.  As a member of an object it is left out; in an array a
slot that holds it, or that has never been written, becomes null, and an array is as long as its
highest index says.  The text of a date object that has not been converted is left open
(`dateText`).

* `Tree.toJson?` — the JSON value that a client sends, if there is one;
* `Tree.toJson?_sparse` — an array some of whose slots have not been written.
-/

namespace RpcBridge.Client

/-! ## Keys that are indices -/

/-- The index that a key of an array is, if it is one. -/
def indexOf? (key : String) : Option Nat :=
  if toString (Numeral.ofDigits key.toList) = key then some (Numeral.ofDigits key.toList) else none

/-- How long an array with members is: one more than its highest index. -/
def arrayLength {α : Type} (members : List (String × α)) : Nat :=
  members.foldr (fun m n => max ((indexOf? m.1).elim 0 (· + 1)) n) 0

/-! ## Texts -/

/-- The JSON value of a value without members; undefined has none. -/
def Atom.toJson? (dateText : TemporalKind → String → String) : Atom → Option Json
  | .undefined => none
  | .null => some .null
  | .bool b => some (.bool b)
  | .number n => some (.number n)
  | .string s => some (.string s)
  | .moment kind text => some (.string (dateText kind text))

namespace Tree

/-- The items of an array: a slot that is missing, or whose value has no text, is null. -/
def arrayItems (members : List (String × Option Json)) : List Json :=
  (List.range (arrayLength members)).map fun i =>
    (members.lookup (toString i)).join.getD .null

/-- The members of an object: one whose value has no text is left out. -/
def objectMembers (members : List (String × Option Json)) : Members :=
  members.filterMap fun m => m.2.map (Prod.mk m.1)

mutual

/-- The JSON value that a client sends for a value, if there is one. -/
def toJson? (dateText : TemporalKind → String → String) : Tree → Option Json
  | .atom a => a.toJson? dateText
  | .node true members => some (.array (arrayItems (memberJsons dateText members)))
  | .node false members => some (.object (objectMembers (memberJsons dateText members)))

/-- What is sent for each of a list of members. -/
def memberJsons (dateText : TemporalKind → String → String) :
    List (String × Tree) → List (String × Option Json)
  | [] => []
  | (key, t) :: rest => (key, t.toJson? dateText) :: memberJsons dateText rest

end

variable {dateText : TemporalKind → String → String}

theorem memberJsons_eq (members : List (String × Tree)) :
    memberJsons dateText members = members.map fun m => (m.1, m.2.toJson? dateText) := by
  induction members with
  | nil => rw [memberJsons, List.map_nil]
  | cons m rest ih => rw [memberJsons, List.map_cons, ih]

theorem isUndefined_iff {t : Tree} : t.isUndefined = true ↔ t = .atom .undefined := by
  unfold isUndefined
  split <;> simp_all

/-- Only what is undefined has no text. -/
theorem toJson?_eq_none {t : Tree} : t.toJson? dateText = none ↔ t.isUndefined = true := by
  cases t with
  | atom a => cases a <;> simp [toJson?, Atom.toJson?, isUndefined]
  | node isArray members => cases isArray <;> simp [toJson?, isUndefined]

/-! ## Objects -/

/-- A member is sent exactly if its value has a text. -/
theorem lookup_objectMembers {members : List (String × Option Json)}
    (distinct : (members.map (·.1)).Nodup) (key : String) :
    (objectMembers members).lookup key = (members.lookup key).join := by
  induction members with
  | nil => rfl
  | cons m rest ih =>
    obtain ⟨name, j⟩ := m
    rw [List.map_cons, List.nodup_cons] at distinct
    have others := ih distinct.2
    rw [lookup_cons_eq]
    cases j with
    | some j =>
      have here : objectMembers ((name, some j) :: rest) = (name, j) :: objectMembers rest := rfl
      rw [here, lookup_cons_eq, others]
      split <;> rfl
    | none =>
      have here : objectMembers ((name, none) :: rest) = objectMembers rest := rfl
      rw [here, others]
      split
      · next same =>
        rw [same, lookup_eq_none distinct.1]
        rfl
      · rfl

theorem keys_objectMembers (members : List (String × Option Json)) :
    ((objectMembers members).map (·.1)).Sublist (members.map (·.1)) := by
  induction members with
  | nil => exact .slnil
  | cons m rest ih =>
    obtain ⟨name, j⟩ := m
    cases j with
    | none => exact ih.cons name
    | some j => exact ih.cons_cons name

/-! ## Arrays with holes -/

/-- Contents as the members of an array, counting from `start`; a slot without a content has not
been written. -/
def sparse (start : Nat) : List (Option Tree) → List (String × Tree)
  | [] => []
  | c :: rest => (c.map (Prod.mk (toString start))).toList ++ sparse (start + 1) rest

theorem indexOf?_toString (n : Nat) : indexOf? (toString n) = some n := by
  have digits : (toString n).toList = Nat.toDigits 10 n := Nat.toList_repr
  rw [indexOf?, digits, Numeral.ofDigits_toDigits, if_pos rfl]

/-- A slot that has not been written drops off the end. -/
theorem rdropWhile_cons {α : Type} (p : α → Bool) (a : α) (rest : List α) :
    (a :: rest).rdropWhile p =
      if (rest.rdropWhile p).isEmpty && p a then [] else a :: rest.rdropWhile p := by
  unfold List.rdropWhile
  rw [List.reverse_cons, List.dropWhile_append, List.isEmpty_reverse]
  cases h : (rest.reverse.dropWhile p).isEmpty
  · simp
  · rw [List.isEmpty_iff.1 h]
    cases hp : p a <;> simp [hp]

theorem arrayLength_sparse (start : Nat) (cs : List (Option Tree)) :
    arrayLength (sparse start cs) =
      if (cs.rdropWhile Option.isNone).isEmpty then 0
      else start + (cs.rdropWhile Option.isNone).length := by
  induction cs generalizing start with
  | nil => rfl
  | cons c rest ih =>
    rw [sparse, rdropWhile_cons]
    cases c with
    | none =>
      rw [Option.map_none, Option.toList_none, List.nil_append, ih, Option.isNone_none,
        Bool.and_true]
      cases (rest.rdropWhile Option.isNone).isEmpty
      · simp only [Bool.false_eq_true, if_false, List.isEmpty_cons, List.length_cons]
        omega
      · rfl
    | some t =>
      have step : arrayLength ((toString start, t) :: sparse (start + 1) rest) =
          max (start + 1) (arrayLength (sparse (start + 1) rest)) := by
        rw [arrayLength, List.foldr_cons, indexOf?_toString]
        rfl
      rw [Option.map_some, Option.toList_some, List.singleton_append, step, ih, Option.isNone_some,
        Bool.and_false, if_neg Bool.false_ne_true, List.isEmpty_cons, if_neg Bool.false_ne_true,
        List.length_cons]
      cases empty : (rest.rdropWhile Option.isNone).isEmpty
      · simp only [Bool.false_eq_true, if_false]
        omega
      · rw [List.isEmpty_iff.1 empty, if_pos rfl]
        simp

theorem le_of_mem_sparse {start : Nat} {cs : List (Option Tree)} {m : String × Tree}
    (h : m ∈ sparse start cs) : ∃ i, start ≤ i ∧ m.1 = toString i := by
  induction cs generalizing start with
  | nil => cases h
  | cons c rest ih =>
    rcases List.mem_append.1 h with h | h
    · obtain ⟨t, -, rfl⟩ := Option.map_eq_some_iff.1 (Option.mem_toList.1 h)
      exact ⟨start, Nat.le_refl _, rfl⟩
    · obtain ⟨i, le, same⟩ := ih h
      exact ⟨i, Nat.le_of_succ_le le, same⟩

theorem lookup_sparse (start i : Nat) (cs : List (Option Tree)) :
    (sparse start cs).lookup (toString (start + i)) = cs[i]?.join := by
  have missing (start : Nat) (cs : List (Option Tree)) :
      (sparse (start + 1) cs).lookup (toString start) = none := by
    refine lookup_eq_none fun there => ?_
    obtain ⟨m, hm, same⟩ := List.mem_map.1 there
    obtain ⟨k, le, named⟩ := le_of_mem_sparse hm
    have := toString_injective (named.symm.trans same)
    omega
  induction cs generalizing start i with
  | nil => rfl
  | cons c rest ih =>
    rw [sparse]
    cases i with
    | zero =>
      cases c with
      | none => exact missing start rest
      | some t => exact List.lookup_cons_self ..
    | succ i =>
      have later : (sparse (start + 1) rest).lookup (toString (start + (i + 1))) =
          rest[i]?.join := by
        rw [← ih (start + 1) i, Nat.add_right_comm, Nat.add_assoc]
      rw [List.getElem?_cons_succ, ← later]
      cases c with
      | none => rfl
      | some t =>
        rw [Option.map_some, Option.toList_some, List.singleton_append, lookup_cons_eq, if_neg]
        intro same
        have := toString_injective same
        omega

/-- **An array with holes**: the slots behind the last one that has been written are lost, the
others are null where they have not been written. -/
theorem toJson?_sparse (cs : List (Option Tree)) :
    (node true (sparse 0 cs)).toJson? dateText =
      some (.array ((cs.rdropWhile Option.isNone).map fun c =>
        (c.bind (toJson? dateText)).getD .null)) := by
  have length : arrayLength (memberJsons dateText (sparse 0 cs)) =
      (cs.rdropWhile Option.isNone).length := by
    have keys : arrayLength (memberJsons dateText (sparse 0 cs)) =
        arrayLength (sparse 0 cs) := by
      rw [memberJsons_eq, arrayLength, arrayLength, List.foldr_map]
    rw [keys, arrayLength_sparse]
    cases empty : (cs.rdropWhile Option.isNone).isEmpty
    · simp
    · rw [List.isEmpty_iff.1 empty]
      rfl
  rw [toJson?, Option.some.injEq, Json.array.injEq, arrayItems, length]
  refine List.ext_getElem (by simp) fun i below _ => ?_
  rw [List.length_map, List.length_range] at below
  obtain ⟨c, hc⟩ : ∃ c, (cs.rdropWhile Option.isNone)[i] = c := ⟨_, rfl⟩
  have there : (sparse 0 cs).lookup (toString i) = c := by
    have slot := lookup_sparse 0 i cs
    have kept := List.rdropWhile_prefix Option.isNone cs
    rw [Nat.zero_add, List.getElem?_eq_getElem (Nat.lt_of_lt_of_le below kept.length_le),
      ← kept.getElem below, hc] at slot
    exact slot
  rw [List.getElem_map, List.getElem_map, List.getElem_range, hc, memberJsons_eq, lookup_map,
    there]
  cases c <;> rfl

theorem indexed_eq_sparse (start : Nat) (ts : List Tree) :
    indexed start ts = sparse start (ts.map some) := by
  induction ts generalizing start with
  | nil => rfl
  | cons t rest ih => rw [indexed, List.map_cons, sparse, ih]; rfl

end Tree

end RpcBridge.Client
