import Mathlib.Data.List.Forall2
import RpcBridge.Json.Misfit
import RpcBridge.Proofs.Wire.Outcome

/-!
# Proofs/Json/Reading — drafts that are read, taken apart

A reader takes a value out of a draft exactly when the draft has no damage and is not too deep.  So
a value that has been read tells its draft, but for the places in it: an array comes from an array
that is closed, its items from the items, and so on.

* `ReadAs` — the drafts and the values that are read from them, by the constructors of both;
* `readAs_iff` — that is reading;
* `readItems_iff`, `readMembers_iff` — items and members are read one by one.
-/

namespace RpcBridge.Json

/-- What is read from a draft, if so many more levels may be opened. -/
inductive ReadAs : Nat → Draft → Json → Prop where
  | null {levels : Nat} : ReadAs levels .null .null
  | bool {levels : Nat} (b : Bool) : ReadAs levels (.bool b) (.bool b)
  | number {levels : Nat} (n : JsonNumber) : ReadAs levels (.number (.ok n)) (.number n)
  | string {levels : Nat} (s : String) : ReadAs levels (.string (.ok s)) (.string s)
  | array {inner : Nat} {opening : Place} {items : List Draft} {js : List Json}
      (each : readItems inner items = .ok js) :
      ReadAs (inner + 1) (.array opening items none) (.array js)
  | object {inner : Nat} {opening : Place} {members : List (Except Fault String × Draft)}
      {ms : Members} (each : readMembers inner members = .ok ms) :
      ReadAs (inner + 1) (.object opening members none) (.object ms)

theorem wellFormed_eq_ok {α : Type} {x : Except Fault α} {a : α} :
    wellFormed x = .ok a ↔ x = .ok a := mapError_eq_ok

theorem finish_eq_ok {α : Type} {unclosed? : Option Cut} {value a : α} :
    finish unclosed? value = .ok a ↔ unclosed? = none ∧ value = a := by
  cases unclosed? <;> simp [finish]

/-- **Reading a draft**, constructor by constructor. -/
theorem readAs_iff {levels : Nat} {d : Draft} {j : Json} :
    ReadAs levels d j ↔ d.read levels = .ok j := by
  constructor
  · intro h
    cases h with
    | array each => rw [Draft.read, each]; rfl
    | object each => rw [Draft.read, each]; rfl
    | _ => rfl
  · intro h
    cases d with
    | null =>
      cases h
      exact .null
    | bool b =>
      cases h
      exact .bool b
    | number n =>
      cases n with
      | error f => cases h
      | ok n =>
        cases h
        exact .number n
    | string s =>
      cases s with
      | error f => cases h
      | ok s =>
        cases h
        exact .string s
    | cut c => cases h
    | array opening items unclosed? =>
      cases levels with
      | zero => cases h
      | succ inner =>
        rw [Draft.read, bind_eq_ok] at h
        obtain ⟨js, each, closed⟩ := h
        obtain ⟨rfl, rfl⟩ := finish_eq_ok.1 closed
        exact .array each
    | object opening members unclosed? =>
      cases levels with
      | zero => cases h
      | succ inner =>
        rw [Draft.read, bind_eq_ok] at h
        obtain ⟨ms, each, closed⟩ := h
        obtain ⟨rfl, rfl⟩ := finish_eq_ok.1 closed
        exact .object each

theorem readItems_iff {levels : Nat} {items : List Draft} {js : List Json} :
    readItems levels items = .ok js ↔
      List.Forall₂ (fun d j => d.read levels = .ok j) items js := by
  induction items generalizing js with
  | nil => simp [readItems, eq_comm]
  | cons d rest ih =>
    rw [readItems]
    constructor
    · intro h
      obtain ⟨j, first, h⟩ := bind_eq_ok.1 h
      obtain ⟨others, each, same⟩ := bind_eq_ok.1 h
      cases same
      exact .cons first (ih.1 each)
    · rintro (_ | ⟨first, each⟩)
      rw [first, ok_bind, ih.2 each]
      rfl

theorem readMembers_iff {levels : Nat} {members : List (Except Fault String × Draft)}
    {ms : Members} :
    readMembers levels members = .ok ms ↔
      List.Forall₂ (fun d m => d.1 = .ok m.1 ∧ d.2.read levels = .ok m.2) members ms := by
  induction members generalizing ms with
  | nil => simp [readMembers, eq_comm]
  | cons d rest ih =>
    obtain ⟨key, d⟩ := d
    rw [readMembers]
    constructor
    · intro h
      obtain ⟨name, named, h⟩ := bind_eq_ok.1 h
      obtain ⟨j, first, h⟩ := bind_eq_ok.1 h
      obtain ⟨others, each, same⟩ := bind_eq_ok.1 h
      cases same
      exact .cons ⟨named, first⟩ (ih.1 each)
    · rintro (_ | ⟨⟨named, first⟩, each⟩)
      dsimp only at named first
      rw [named, ok_bind, first, ok_bind, ih.2 each]
      rfl

theorem eq_of_read_string {levels : Nat} {d : Draft} {s : String}
    (h : d.read levels = .ok (.string s)) : d = .string (.ok s) := by
  cases readAs_iff.2 h
  rfl

/-- What an array is read from. -/
theorem exists_of_read_array {levels : Nat} {d : Draft} {js : List Json}
    (h : d.read levels = .ok (.array js)) : ∃ inner opening items, levels = inner + 1 ∧
      d = .array opening items none ∧
        List.Forall₂ (fun d j => d.read inner = .ok j) items js := by
  cases readAs_iff.2 h with
  | @array inner opening items _ each =>
    exact ⟨inner, opening, items, rfl, rfl, readItems_iff.1 each⟩

/-- What an object is read from. -/
theorem exists_of_read_object {levels : Nat} {d : Draft} {ms : Members}
    (h : d.read levels = .ok (.object ms)) : ∃ inner opening members, levels = inner + 1 ∧
      d = .object opening members none ∧
        List.Forall₂ (fun d m => d.1 = .ok m.1 ∧ d.2.read inner = .ok m.2) members ms := by
  cases readAs_iff.2 h with
  | @object inner opening members _ each =>
    exact ⟨inner, opening, members, rfl, rfl, readMembers_iff.1 each⟩

end RpcBridge.Json
