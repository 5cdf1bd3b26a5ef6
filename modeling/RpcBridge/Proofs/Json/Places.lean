import Mathlib.Data.List.Nodup
import RpcBridge.Proofs.Json.Entries

/-!
# Proofs/Json/Places — an index of names

An index says at which place of a list a name stands.  Where it leads to each place of a name, and
nowhere else (`Indexes`), no name has two places, and it is kept right by entering each new name
with the place behind the last one (`Indexes.concat`).
-/

namespace RpcBridge

variable {index : List (String × Nat)} {names : List String} {name : String}

/-- An index that leads to the places of names, and to nothing else. -/
def Indexes (index : List (String × Nat)) (names : List String) : Prop :=
  ∀ name i, index.lookup name = some i ↔ names[i]? = some name

theorem getElem?_concat_eq_some {α : Type} {as : List α} {a b : α} {i : Nat} :
    (as ++ [a])[i]? = some b ↔ as[i]? = some b ∨ i = as.length ∧ a = b := by
  rw [List.getElem?_append]
  split
  · next inside => simp [Nat.ne_of_lt inside]
  · next outside =>
    rw [List.getElem?_eq_none (Nat.le_of_not_lt outside), List.getElem?_singleton]
    split
    · next first =>
      have last : i = as.length := by omega
      simp [last]
    · next more =>
      have beyond : i ≠ as.length := by omega
      simp [beyond]

namespace Indexes

theorem nil : Indexes [] [] := fun _ _ => iff_of_false nofun nofun

theorem isSome_lookup (h : Indexes index names) :
    (index.lookup name).isSome = true ↔ name ∈ names := by
  rw [Option.isSome_iff_exists, List.mem_iff_getElem?]
  exact exists_congr (h name)

/-- Two places of one name are one place. -/
theorem nodup (h : Indexes index names) : names.Nodup := by
  rw [List.nodup_iff_getElem?_ne_getElem?]
  intro i j before inside same
  have first := (h _ i).2 (List.getElem?_eq_getElem (Nat.lt_trans before inside))
  have second := (h _ j).2 (same ▸ List.getElem?_eq_getElem (Nat.lt_trans before inside))
  rw [first] at second
  injection second with place
  exact Nat.ne_of_lt before place

/-- **A new name is entered** with the place behind the last one. -/
theorem concat (h : Indexes index names) (new : name ∉ names) :
    Indexes (putEntry index name names.length) (names ++ [name]) := by
  intro a i
  rw [lookup_putEntry, getElem?_concat_eq_some]
  split
  · next same =>
    subst same
    constructor
    · rintro ⟨⟩
      exact .inr ⟨rfl, rfl⟩
    · rintro (there | ⟨rfl, -⟩)
      · exact absurd (List.mem_of_getElem? there) new
      · rfl
  · next other =>
    rw [h a i]
    refine (or_iff_left ?_).symm
    rintro ⟨-, rfl⟩
    exact other rfl

end Indexes

end RpcBridge
