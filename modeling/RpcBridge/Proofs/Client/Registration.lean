import Mathlib.Data.List.Nodup
import RpcBridge.Client.Table
import RpcBridge.Proofs.Json.Entries
import RpcBridge.Proofs.Wire.Outcome

/-!
# Proofs/Client/Registration — what a table holds after many registrations

A table that took a list of declarations one after the other holds each of them once, in the order
in which they first came (`Table.Holds`).  A declaration that came again changed nothing, and no
two bodies can have come under one name: a list is registered exactly if it is `Consistent`, which
does not depend on its order.
-/

namespace RpcBridge.Client.Table

variable {t t' : Table} {name body : String} {e : String × String}
  {front rest came : List (String × String)}

/-- The table after registering declarations one after the other. -/
def registerAll (t : Table) (came : List (String × String)) : Except ExportError Table :=
  came.foldlM (fun t e => t.register e.1 e.2) t

theorem registerAll_append :
    t.registerAll (front ++ rest) = .ok t' ↔
      ∃ between, t.registerAll front = .ok between ∧ between.registerAll rest = .ok t' := by
  rw [registerAll, List.foldlM_append, bind_eq_ok]
  rfl

theorem registerAll_singleton : t.registerAll [e] = t.register e.1 e.2 := by
  rw [registerAll, List.foldlM_cons]
  cases t.register e.1 e.2 <;> rfl

/-- A registration succeeds for a new name, and for a name that has the same body. -/
theorem register_eq_ok (h : t.register name body = .ok t') :
    name ∉ t.names ∧ t'.entries = t.entries ++ [(name, body)] ∨
      (name, body) ∈ t.entries ∧ t' = t := by
  rw [register] at h
  split at h
  · next new =>
    cases h
    refine Or.inl ⟨fun there => ?_, rfl⟩
    obtain ⟨other, found⟩ := exists_lookup there
    rw [get?] at new
    cases new.symm.trans found
  · next existing found =>
    split at h
    · next same =>
      cases h
      exact Or.inr ⟨mem_of_lookup_eq_some (same ▸ found), rfl⟩
    · cases h

/-- How a table stands to the declarations that came. -/
structure Holds (t : Table) (came : List (String × String)) : Prop where
  distinct : t.names.Nodup
  sound : ∀ e ∈ t.entries, e ∈ came
  complete : ∀ e ∈ came, e ∈ t.entries
  /-- Whatever came before the first coming of an entry stands in front of it. -/
  inOrder : ∀ e ∈ t.entries, ∃ before after, came = before ++ e :: after ∧
    ∀ f ∈ before, [f, e].Sublist t.entries

namespace Holds

theorem empty : Table.empty.Holds [] :=
  ⟨List.nodup_nil, List.forall_mem_nil _, List.forall_mem_nil _, List.forall_mem_nil _⟩

/-- One more registration. -/
theorem register (holds : t.Holds came) (h : t.register e.1 e.2 = .ok t') :
    t'.Holds (came ++ [e]) := by
  rcases register_eq_ok h with ⟨new, entries⟩ | ⟨there, rfl⟩
  · have old {f : String × String} (hf : f ∈ t.entries) : f ∈ t'.entries := by
      rw [entries]
      exact List.mem_append_left _ hf
    have last : e ∈ t'.entries := by
      rw [entries]
      exact List.mem_append_right _ (List.mem_singleton_self e)
    refine ⟨?_, fun f hf => ?_, fun f hf => ?_, fun f hf => ?_⟩
    · rw [names, entries, List.map_append, List.nodup_append]
      refine ⟨holds.distinct, List.nodup_singleton _, fun a ha b hb => ?_⟩
      obtain rfl := List.mem_singleton.1 hb
      rintro rfl
      exact new ha
    · rw [entries] at hf
      rcases List.mem_append.1 hf with hf | hf
      · exact List.mem_append_left _ (holds.sound f hf)
      · exact List.mem_append_right _ hf
    · rcases List.mem_append.1 hf with hf | hf
      · exact old (holds.complete f hf)
      · exact List.mem_singleton.1 hf ▸ last
    · rw [entries] at hf ⊢
      rcases List.mem_append.1 hf with hf | hf
      · obtain ⟨before, after, split, ordered⟩ := holds.inOrder f hf
        refine ⟨before, after ++ [e], by rw [split, List.append_assoc, List.cons_append], ?_⟩
        exact fun g hg => (ordered g hg).trans (List.sublist_append_left _ _)
      · obtain rfl := List.mem_singleton.1 hf
        refine ⟨came, [], rfl, fun g hg => ?_⟩
        exact (List.singleton_sublist.2 (holds.complete g hg)).append (List.Sublist.refl _)
  · refine ⟨holds.distinct, fun f hf => List.mem_append_left _ (holds.sound f hf), fun f hf => ?_,
      fun f hf => ?_⟩
    · rcases List.mem_append.1 hf with hf | hf
      · exact holds.complete f hf
      · exact List.mem_singleton.1 hf ▸ there
    · obtain ⟨before, after, split, ordered⟩ := holds.inOrder f hf
      exact ⟨before, after ++ [e], by rw [split, List.append_assoc, List.cons_append], ordered⟩

/-- Registrations one after the other. -/
theorem registerAll (holds : t.Holds came) (h : t.registerAll rest = .ok t') :
    t'.Holds (came ++ rest) := by
  induction rest generalizing t came with
  | nil =>
    cases h
    rwa [List.append_nil]
  | cons e rest ih =>
    have both : t.registerAll ([e] ++ rest) = .ok t' := h
    obtain ⟨between, first, others⟩ := registerAll_append.1 both
    rw [registerAll_singleton] at first
    rw [List.append_cons]
    exact ih (holds.register first) others

end Holds

/-! ## Consistency -/

/-- One body for every name. -/
def Consistent (came : List (String × String)) : Prop :=
  ∀ e ∈ came, ∀ f ∈ came, e.1 = f.1 → e.2 = f.2

theorem Consistent.subset (h : Consistent came) (subset : front ⊆ came) : Consistent front :=
  fun e he f hf => h e (subset he) f (subset hf)

theorem Holds.consistent (holds : t.Holds came) : Consistent came := by
  intro e he f hf same
  have := List.inj_on_of_nodup_map holds.distinct (holds.complete e he) (holds.complete f hf) same
  rw [this]

/-- What goes with all that came is registered. -/
theorem Holds.exists_register (holds : t.Holds came) (consistent : Consistent (came ++ [e])) :
    ∃ t', t.register e.1 e.2 = .ok t' := by
  rw [Table.register]
  split
  · exact ⟨_, rfl⟩
  · next existing found =>
    have there := holds.sound _ (mem_of_lookup_eq_some found)
    have same : existing = e.2 := consistent (e.1, existing) (List.mem_append_left _ there) e
      (List.mem_append_right _ (List.mem_singleton_self e)) rfl
    exact ⟨t, if_pos same⟩

/-- **Declarations are registered** exactly if they are consistent with each other and with what
came before. -/
theorem Holds.exists_registerAll (holds : t.Holds came) :
    (∃ t', t.registerAll rest = .ok t') ↔ Consistent (came ++ rest) := by
  refine ⟨fun ⟨t', h⟩ => (holds.registerAll h).consistent, fun consistent => ?_⟩
  induction rest generalizing t came with
  | nil => exact ⟨t, rfl⟩
  | cons e rest ih =>
    rw [List.append_cons] at consistent
    obtain ⟨between, first⟩ :=
      holds.exists_register (consistent.subset (List.subset_append_left _ _))
    obtain ⟨t', others⟩ := ih (holds.register first) consistent
    refine ⟨t', ?_⟩
    have both : t.registerAll ([e] ++ rest) = .ok t' :=
      registerAll_append.2 ⟨between, registerAll_singleton.trans first, others⟩
    exact both

/-! ## What has been registered -/

/-- A registration only adds an entry behind those that are there. -/
theorem register_keeps (h : t.register name body = .ok t') : t.entries <+: t'.entries := by
  rcases register_eq_ok h with ⟨-, entries⟩ | ⟨-, rfl⟩
  · rw [entries]
    exact List.prefix_append _ _
  · exact List.prefix_refl _

theorem registerAll_keeps (h : t.registerAll came = .ok t') : t.entries <+: t'.entries := by
  induction came generalizing t with
  | nil =>
    cases h
    exact List.prefix_refl _
  | cons e rest ih =>
    have both : t.registerAll ([e] ++ rest) = .ok t' := h
    obtain ⟨between, first, others⟩ := registerAll_append.1 both
    rw [registerAll_singleton] at first
    exact (register_keeps first).trans (ih others)

/-- What is found is still found behind further registrations. -/
theorem get?_of_prefix (h : t.entries <+: t'.entries) (found : t.get? name = some body) :
    t'.get? name = some body := by
  obtain ⟨rest, entries⟩ := h
  rw [get?] at found ⊢
  rw [← entries, List.lookup_append, found, Option.some_or]

theorem get?_register (h : t.register name body = .ok t') : t'.get? name = some body := by
  rw [register] at h
  split at h
  · next new =>
    cases h
    rw [get?, lookup_append_of_none new]
    exact List.lookup_cons_self
  · next existing found =>
    split at h
    · next same =>
      cases h
      rw [found, same]
    · cases h

theorem get?_registerAll (h : t.registerAll came = .ok t') :
    ∀ e ∈ came, t'.get? e.1 = some e.2 := by
  induction came generalizing t with
  | nil => exact List.forall_mem_nil _
  | cons e rest ih =>
    have both : t.registerAll ([e] ++ rest) = .ok t' := h
    obtain ⟨between, first, others⟩ := registerAll_append.1 both
    rw [registerAll_singleton] at first
    refine List.forall_mem_cons.2 ⟨?_, ih others⟩
    exact get?_of_prefix (registerAll_keeps others) (get?_register first)

/-- Registering what is there changes nothing. -/
theorem registerAll_of_get? (there : ∀ e ∈ came, t.get? e.1 = some e.2) :
    t.registerAll came = .ok t := by
  induction came with
  | nil => rfl
  | cons e rest ih =>
    rw [List.forall_mem_cons] at there
    have again : t.register e.1 e.2 = .ok t := by simp only [register, there.1, if_true]
    have both : t.registerAll ([e] ++ rest) = .ok t :=
      registerAll_append.2 ⟨t, registerAll_singleton.trans again, ih there.2⟩
    exact both

end RpcBridge.Client.Table
