import Mathlib.Data.List.Nodup
import RpcBridge.Proofs.Calendar.ReadBack
import RpcBridge.Proofs.Descriptor.Shape
import RpcBridge.Proofs.Value.Parts
import RpcBridge.Wire.Decode

/-!
# Proofs/Wire/Conforms — values that have a type

A value conforms to a shape if it is what the shape says, all the way down: a float is finite, an
instant lies in the years that are written with four digits, an untyped value is settled, an enum
member is the first one its literal denotes.  A record lacks no field that its type asks for, and
has no field beyond the declared ones, except null.  The keys of a map conform too, and no two of
them travel as one member name.

Nothing is asked of where an instant has its leap second, or of how a key is recovered from its
member name: what comes back and what does not is the matter of `Proofs/Wire/RoundTrip`.

* `Shape.Conforms`, `Descriptor.Conforms` — the values of a type;
* `Value.Timely`, `Value.Regular` — what may be asked of the instants of a value.
-/

namespace RpcBridge

/-! ## The instants of a value -/

/-- Every instant lies in the years that are written with four digits. -/
def Value.Timely (v : Value) : Prop :=
  ∀ i : Instant, (Value.dateTime i).OccursIn v → 0 ≤ i.civil.year ∧ i.civil.year ≤ 9999

/-- No instant has a leap second out of place. -/
def Value.Regular (v : Value) : Prop :=
  ∀ i : Instant, (Value.dateTime i).OccursIn v → i.Regular

/-! ## The members of an enum -/

namespace EnumDef

variable {e : EnumDef} {m : EnumMember} {j : Json}

theorem mem_of_memberFor? (h : e.memberFor? j = some m) :
    m ∈ e.members ∧ m.value.accepts j = true := by
  unfold memberFor? at h
  exact ⟨List.mem_of_find?_eq_some h, by simpa using List.find?_some h⟩

theorem exists_memberFor? (hm : m ∈ e.members) (h : m.value.accepts j = true) :
    ∃ first, e.memberFor? j = some first :=
  Option.isSome_iff_exists.1 (List.find?_isSome.2 ⟨m, hm, h⟩)

theorem exists_member? (hm : m ∈ e.members) : ∃ n, e.member? m.name = some n :=
  Option.isSome_iff_exists.1 (List.find?_isSome.2 ⟨m, hm, decide_eq_true rfl⟩)

theorem member?_name (names : (e.members.map (·.name)).Nodup) (hm : m ∈ e.members) :
    e.member? m.name = some m := by
  obtain ⟨n, found⟩ := exists_member? hm
  obtain rfl : n = m := List.inj_on_of_nodup_map names (List.mem_of_find?_eq_some found) hm
    (by simpa using List.find?_some found)
  exact found

/-- No literal of an enum denotes null. -/
theorem memberFor?_null (e : EnumDef) : e.memberFor? .null = none := by
  refine List.find?_eq_none.2 fun m _ => ?_
  cases h : m.value <;> simp [EnumLiteral.accepts]

end EnumDef

/-! ## The values of a type -/

/-- The values of a scalar type. -/
inductive ScalarKind.Carries : ScalarKind → Value → Prop where
  | string (s : String) : Carries .string (.string s)
  | bool (b : Bool) : Carries .bool (.bool b)
  | int (n : Int64) : Carries .int (.int n)
  | float (x : Finite) : Carries .float (.float (.finite x))
  | any {j : Json} (settled : j.Settled) : Carries .any (.raw j)
  | anyList {items : List Json} (settled : (Json.array items).Settled) :
    Carries .anyList (.raw (.array items))
  | none : Carries .none .null

/-- The values of a temporal type that are written with a year of four digits.  The nanoseconds of
an instant may go on for a second more, in whatever second of the minute it lies. -/
inductive TemporalKind.Carries : TemporalKind → Value → Prop where
  | date (d : Date) : Carries .date (.date d)
  | dateTime {i : Instant} (few : i.nanos < 2 * Calendar.second) (low : 0 ≤ i.civil.year)
      (high : i.civil.year ≤ 9999) : Carries .dateTime (.dateTime i)

/-- The members of an enum whose literals denote them. -/
def EnumDef.Carries (e : EnumDef) (v : Value) : Prop :=
  ∃ m first, v = .enum e.name m.name ∧ e.member? m.name = some m ∧
    e.memberFor? m.value.toJson = some first ∧ first.name = m.name

/-- The member name a key travels as. -/
def Wire.keyName (key : Shape) (k : Value) : Wired String := do memberName (← encode key k)

namespace Shape

mutual

/-- The values of a shape. -/
def Conforms : Shape → Value → Prop
  | .scalar kind, v => kind.Carries v
  | .temporal kind, v => kind.Carries v
  | .list element, v => ∃ vs, v = .list vs ∧ ∀ w ∈ vs, element.Conforms w
  | .tuple items, v => ∃ vs, v = .list vs ∧ ItemsConform items vs
  | .mapping key value, v =>
    ∃ entries, v = .map entries ∧ (entries.map fun e => Wire.keyName key e.1).Nodup ∧
      ∀ e ∈ entries, key.Conforms e.1 ∧ value.Conforms e.2
  | .optional inner, v => v = .null ∨ (v ≠ .raw .null ∧ inner.Conforms v)
  | .enum e, v => e.Carries v
  | .record name fields, v
  | .bareTemplate _ name fields, v
  | .opened _ name fields, v =>
    ∃ vs, v = .record name vs ∧ (fields.map (·.1)).Nodup ∧
      (∀ f ∈ vs, f.1 ∈ fields.map (·.1) ∨ f.2 = .null) ∧ FieldsConform fields vs
  | .wrapper _ _ inner, v => inner.Conforms v
  | .blocked _ _, _ => False

/-- The items of a tuple, one for each type. -/
def ItemsConform : List Shape → List Value → Prop
  | [], vs => vs = []
  | s :: rest, vs => ∃ v ws, vs = v :: ws ∧ s.Conforms v ∧ ItemsConform rest ws

/-- Fields of a record that hold each declared field, or lack one that may be left out. -/
def FieldsConform : List (String × Shape) → List (String × Value) → Prop
  | [], _ => True
  | (name, s) :: rest, vs =>
    (match vs.lookup name with
      | none => s.allowsAbsence = true
      | some v => s.Conforms v) ∧ FieldsConform rest vs

end

end Shape

/-- The values of a descriptor's type. -/
def Descriptor.Conforms (d : Descriptor) (v : Value) : Prop := d.shape.Conforms v

end RpcBridge
