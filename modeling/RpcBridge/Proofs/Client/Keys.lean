import RpcBridge.Proofs.Client.Changes
import RpcBridge.Proofs.Client.Supported
import RpcBridge.Proofs.Wire.Read
import RpcBridge.Proofs.Wire.Written

/-!
# Proofs/Client/Keys — dictionaries whose keys are left alone

Generated code may convert the keys of a dictionary, or hand them over as they are.

* `Shape.keysKept` — no keys are converted;
* `isPlainKey_of_keyName`, `isPlainKey_of_readKey` — keys that are not converted, and travel at
  all, are handed over.
-/

namespace RpcBridge

namespace Shape

mutual

/-- No dictionary of the shape has keys that are converted.  Under a transparent record that is
applied to nothing, where a client takes its members for keys, the keys are plain (`strict`). -/
def keysKept (direction : Client.Direction) (strict : Bool) : Shape → Bool
  | .scalar _ | .temporal _ | .enum _ | .bareTemplate _ _ _ | .blocked _ _ => true
  | .list element => element.keysKept direction strict
  | .tuple items => itemsKept direction strict items
  | .mapping key value =>
    !key.changes direction && (!strict || key.isPlainKey) && value.keysKept direction strict
  | .optional inner | .wrapper _ _ inner => inner.keysKept direction strict
  | .record _ fields => fieldsKept direction strict fields
  | .opened _ _ fields => fieldsKept direction (strict || direction = .back) fields

/-- The same of the items of a tuple. -/
def itemsKept (direction : Client.Direction) (strict : Bool) : List Shape → Bool
  | [] => true
  | s :: rest => s.keysKept direction strict && itemsKept direction strict rest

/-- The same of the fields of a record. -/
def fieldsKept (direction : Client.Direction) (strict : Bool) : List (String × Shape) → Bool
  | [] => true
  | (_, s) :: rest => s.keysKept direction strict && fieldsKept direction strict rest

end

theorem itemsKept_iff {direction : Client.Direction} {strict : Bool} {items : List Shape} :
    itemsKept direction strict items = true ↔
      ∀ s ∈ items, s.keysKept direction strict = true := by
  induction items with
  | nil => simp [itemsKept]
  | cons s rest ih => rw [itemsKept, Bool.and_eq_true, ih, List.forall_mem_cons]

theorem fieldsKept_iff {direction : Client.Direction} {strict : Bool}
    {fields : List (String × Shape)} : fieldsKept direction strict fields = true ↔
      ∀ f ∈ fields, f.2.keysKept direction strict = true := by
  induction fields with
  | nil => simp [fieldsKept]
  | cons f rest ih => rw [fieldsKept, Bool.and_eq_true, ih, List.forall_mem_cons]

end Shape

namespace Wire

/-- A key that travels as a member name is no container. -/
theorem written_of_keyName {key : Shape} {k : Value} {name : String}
    (named : keyName key k = .ok name) :
    ∃ j, encode key k = .ok j ∧ (∀ members, j ≠ .object members) ∧ ∀ items, j ≠ .array items := by
  obtain ⟨j, written, named⟩ := bind_eq_ok.1 named
  refine ⟨j, written, ?_, ?_⟩
  · rintro members rfl
    cases named
  · rintro items rfl
    cases named

/-- Keys that travel as member names, and are not converted, are handed over as they are. -/
theorem isPlainKey_of_keyName {direction : Client.Direction} {key : Shape} {k : Value}
    {name : String} (supported : key.Supported) (unchanged : key.changes direction = false)
    (named : keyName key k = .ok name) : key.isPlainKey = true := by
  obtain ⟨j, written, noObject, noArray⟩ := written_of_keyName named
  induction supported generalizing k j with
  | scalar | enum => rfl
  | temporal => cases unchanged
  | optional _ ih =>
    rw [Shape.changes, Bool.or_eq_false_iff] at unchanged
    by_cases null : k = .null
    · subst null
      rw [keyName, encode] at named
      cases named
    · rw [encode_optional null] at written
      rw [keyName, encode_optional null] at named
      exact ih unchanged.2 named j written noObject noArray
  | list =>
    obtain ⟨_, js, -, array, -⟩ := written_list written
    exact (noArray js array).elim
  | tuple =>
    obtain ⟨_, js, -, array, -⟩ := written_tuple written
    exact (noArray js array).elim
  | mapping =>
    cases k <;> rw [encode] at written
    case map =>
      obtain ⟨ms, -, ⟨⟩⟩ := bind_eq_ok.1 written
      exact (noObject ms rfl).elim
    all_goals cases written
  | record | opened =>
    cases k <;> rw [encode] at written
    case record =>
      obtain ⟨ms, -, ⟨⟩⟩ := bind_eq_ok.1 written
      exact (noObject ms rfl).elim
    all_goals cases written
  | wrapper _ ih =>
    rw [encode] at written
    rw [keyName, encode] at named
    exact ih unchanged named j written noObject noArray

/-- Keys that member names are read as, and that are not converted, are handed over as they are. -/
theorem isPlainKey_of_readKey {direction : Client.Direction} {key : Shape} {k : Value}
    {name : String} (supported : key.Supported) (unchanged : key.changes direction = false)
    (read : readKey key name = .ok k) : key.isPlainKey = true := by
  have text (h : decode key (.string name) = .ok k) : key.isPlainKey = true := by
    clear read
    induction supported with
    | scalar | enum => rfl
    | temporal => cases unchanged
    | optional _ ih =>
      rw [Shape.changes, Bool.or_eq_false_iff] at unchanged
      rw [decode_optional (by rintro ⟨⟩)] at h
      exact ih unchanged.2 h
    | wrapper _ ih =>
      rw [decode] at h
      exact ih unchanged h
    | list | tuple | mapping | record | opened =>
      simp only [decode] at h
      cases h
  cases supported with
  | scalar | enum => rfl
  | _ => exact text read

end Wire

end RpcBridge
