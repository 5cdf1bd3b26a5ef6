import RpcBridge.Proofs.Wire.Located
import RpcBridge.Proofs.Wire.Typed

/-!
# Proofs/Wire/Settled — what is read is settled

A JSON value that a reader made of a text repeats no member name (`Json.settled_of_parse`).  The
values that are read of it are settled as well: records are entered field by field, and untyped
values are parts of what was read.

* `Shape.settled_of_decode` — what is read of a settled JSON value is settled.
-/

namespace RpcBridge

open Wire

theorem Json.IsLeaf.settled {j : Json} (leaf : j.IsLeaf) : j.Settled := by
  cases j with
  | null => exact .null
  | bool b => exact .bool b
  | number n => exact .number n
  | string s => exact .string s
  | _ => exact leaf.elim

namespace Shape

variable {s : Shape} {j : Json} {v : Value}

theorem settled_of_read_leaf (leaf : v.isLeaf = true) (settled : j.Settled)
    (h : decode s j = .ok v) : v.Settled := by
  refine Value.settled_leaf leaf ?_
  rintro k rfl
  exact read_raw h ▸ settled

theorem settled_of_record {name : String} {fields : List (String × Shape)}
    (record : ReadsFields s name fields) (settled : j.Settled)
    (each : ∀ f ∈ fields, ∀ j v, j.Settled → decode f.2 j = .ok v → v.Settled)
    (h : decode s j = .ok v) : v.Settled := by
  obtain ⟨members, vs, rfl, rfl, all⟩ := read_record record h
  cases settled with
  | object _ inner =>
    refine Value.settled_ofFields name fun g hg => ?_
    obtain ⟨f, hf, -, ⟨j, found, read⟩ | ⟨-, -, null⟩⟩ := exists_of_forall₂ all hg
    · exact each f hf j g.2 (inner _ (mem_of_lookup_eq_some found)) read
    · rw [null]
      exact Value.settled_null

/-- **What is read of a settled JSON value is settled.** -/
theorem settled_of_decode (settled : j.Settled) (h : decode s j = .ok v) : v.Settled := by
  induction s generalizing j v with
  | scalar kind =>
    refine settled_of_read_leaf ?_ settled h
    rw [decode] at h
    cases holds_of_decodeScalar h <;> rfl
  | temporal kind =>
    refine settled_of_read_leaf ?_ settled h
    rw [decode] at h
    cases holds_of_decodeTemporal h <;> rfl
  | enum e =>
    refine settled_of_read_leaf ?_ settled h
    rw [decode] at h
    unfold decodeEnum at h
    split at h <;> cases h
    rfl
  | list element ih =>
    obtain ⟨js, vs, rfl, rfl, all⟩ := read_list h
    cases settled with
    | array inner =>
      refine Value.settled_list fun w hw => ?_
      obtain ⟨k, hk, read⟩ := exists_of_forall₂ all hw
      exact ih (inner k hk) read
  | tuple items ih =>
    obtain ⟨js, vs, rfl, rfl, length, all⟩ := read_tuple h
    cases settled with
    | array inner =>
      refine Value.settled_list fun w hw => ?_
      obtain ⟨s, -, settled⟩ := exists_of_forall₂ (forall₂_decodeItems length all
        fun s hs k hk w read => ih s hs (inner k hk) read) hw
      exact settled
  | mapping key value ihk ihv =>
    obtain ⟨members, entries, rfl, rfl, all⟩ := read_mapping h
    cases settled with
    | object _ inner =>
      refine Value.settled_map fun e he => ?_
      obtain ⟨m, hm, keyRead, valueRead⟩ := exists_of_forall₂ all he
      obtain ⟨k, named, keyRead⟩ := bind_eq_ok.1 keyRead
      exact ⟨ihk (isLeaf_of_keyJson named).settled keyRead, ihv (inner m hm) valueRead⟩
  | optional inner ih =>
    by_cases null : j = .null
    · subst null
      rw [decode] at h
      cases h
      exact Value.settled_null
    · rw [decode_optional null] at h
      exact ih settled h
  | record name fields ih | bareTemplate _ name fields ih | opened _ name fields ih =>
    exact settled_of_record (by constructor) settled (fun f hf _ _ => ih f hf) h
  | wrapper name field inner ih =>
    rw [decode] at h
    exact ih settled h
  | blocked d obstacle =>
    rw [decode] at h
    cases h

end Shape

end RpcBridge
