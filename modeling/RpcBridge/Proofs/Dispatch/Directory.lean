import Mathlib.Data.List.Induction
import RpcBridge.Client.Export
import RpcBridge.Dispatch.Directory
import RpcBridge.Proofs.Json.Places
import RpcBridge.Proofs.Wire.Outcome

/-!
# Proofs/Dispatch/Directory — the index and the handlers agree

A directory says twice where a handler stands: in the list, and in the index.  Registering keeps the
two in agreement, whether it succeeds or not (`Coherent.register`), so they agree in every directory
that registering leads to (`coherent_reached`).  All that is asked of a directory follows: a name is
found where the list has it, a second handler of a name is refused, and what is left of a series of
registrations is the first of each name (`handlers_reached`).
-/

namespace RpcBridge

namespace Directory

variable {C : Type} {d : Directory C}

/-- The index leads to the handlers of a name, and to nothing else. -/
def Coherent (d : Directory C) : Prop :=
  ∀ name i, d.index.lookup name = some i ↔ ∃ h, d.handlers[i]? = some h ∧ h.name = name

theorem coherent_iff : d.Coherent ↔ Indexes d.index (d.handlers.map Handler.name) := by
  simp only [Coherent, Indexes, List.getElem?_map, Option.map_eq_some_iff]

namespace Coherent

theorem empty : (empty : Directory C).Coherent := coherent_iff.2 .nil

theorem contains_iff (coherent : d.Coherent) {name : String} :
    d.contains name = true ↔ name ∈ d.handlers.map Handler.name :=
  (coherent_iff.1 coherent).isSome_lookup

/-- Two places of one name are one place. -/
theorem nodup (coherent : d.Coherent) : (d.handlers.map Handler.name).Nodup :=
  (coherent_iff.1 coherent).nodup

/-- What the index leads to is what a search in the list finds. -/
theorem find?_eq (coherent : d.Coherent) (name : String) :
    d.find? name = d.handlers.find? (·.name = name) := by
  cases search : d.handlers.find? (·.name = name) with
  | some h =>
    obtain ⟨i, there⟩ := List.getElem?_of_mem (List.mem_of_find?_eq_some search)
    have named : h.name = name := by simpa using List.find?_some search
    rw [find?, (coherent name i).2 ⟨h, there, named⟩]
    exact there
  | none =>
    rw [List.find?_eq_none] at search
    rw [find?]
    cases found : d.index.lookup name with
    | none => rfl
    | some i =>
      obtain ⟨h, there, named⟩ := (coherent name i).1 found
      exact absurd (decide_eq_true named) (search h (List.mem_of_getElem? there))

end Coherent

/-! ## Registering -/

theorem run_register (d : Directory C) (h : Handler C) : (register h).run.run d =
    if d.contains h.name then (.error (.duplicateProcedure h.name), d)
    else (.ok (), ⟨d.handlers ++ [h], putEntry d.index h.name d.handlers.length⟩) := by
  change (do
      if d.contains h.name then throw (.duplicateProcedure h.name)
      set (⟨d.handlers ++ [h], putEntry d.index h.name d.handlers.length⟩ : Directory C)
      : ExceptT RpcError (StateM (Directory C)) Unit).run.run d = _
  cases d.contains h.name <;> rfl

/-- The directory that registering a handler leaves, accepted or not. -/
def after (d : Directory C) (h : Handler C) : Directory C := ((register h).run.run d).2

/-- **Registering keeps the index and the list in agreement.** -/
theorem Coherent.after (coherent : d.Coherent) (h : Handler C) : (d.after h).Coherent := by
  rw [Directory.after, run_register]
  split
  · exact coherent
  · next fresh =>
    rw [Bool.not_eq_true, ← Bool.not_eq_true, coherent.contains_iff] at fresh
    have entered := (coherent_iff.1 coherent).concat fresh
    rw [List.length_map, ← List.map_singleton, ← List.map_append] at entered
    exact coherent_iff.2 entered

/-- The directory after a series of registrations. -/
def reached (registrations : List (Handler C)) : Directory C := registrations.foldl after empty

theorem reached_concat (registrations : List (Handler C)) (h : Handler C) :
    reached (registrations ++ [h]) = (reached registrations).after h :=
  List.foldl_concat ..

theorem coherent_reached (registrations : List (Handler C)) : (reached registrations).Coherent := by
  induction registrations using List.reverseRecOn with
  | nil => exact .empty
  | append_singleton registrations h ih =>
    rw [reached_concat]
    exact ih.after h

/-! ## The first of each name -/

/-- The handlers that come first under their names. -/
def firsts : List (Handler C) → List (Handler C)
  | [] => []
  | h :: rest => h :: (firsts rest).filter (·.name ≠ h.name)

theorem firsts_concat (registrations : List (Handler C)) (h : Handler C) :
    firsts (registrations ++ [h]) =
      if h.name ∈ registrations.map Handler.name then firsts registrations
      else firsts registrations ++ [h] := by
  induction registrations with
  | nil => rfl
  | cons first rest ih =>
    rw [List.cons_append, firsts, ih, firsts]
    by_cases same : h.name = first.name
    · simp [same, apply_ite (List.filter _)]
    · by_cases there : h.name ∈ rest.map Handler.name
      · simp [same, there]
      · simp [same, there]

theorem find?_firsts (registrations : List (Handler C)) (name : String) :
    (firsts registrations).find? (·.name = name) = registrations.find? (·.name = name) := by
  induction registrations with
  | nil => rfl
  | cons first rest ih =>
    rw [firsts, List.find?_cons, List.find?_cons]
    split
    · rfl
    · next other =>
      rw [← ih, List.find?_filter]
      congr 1
      funext h
      by_cases named : h.name = name
      · have apart : name ≠ first.name := fun same => by simp [same] at other
        simp [named, apart]
      · simp [named]

theorem mem_names_firsts (registrations : List (Handler C)) (name : String) :
    name ∈ (firsts registrations).map Handler.name ↔ name ∈ registrations.map Handler.name := by
  have found (hs : List (Handler C)) :
      name ∈ hs.map Handler.name ↔ (hs.find? (·.name = name)).isSome = true := by
    simp
  rw [found, found, find?_firsts]

/-- **What is left of a series of registrations is the first of each name.** -/
theorem handlers_reached (registrations : List (Handler C)) :
    (reached registrations).handlers = firsts registrations := by
  induction registrations using List.reverseRecOn with
  | nil => rfl
  | append_singleton registrations h ih =>
    have known : (reached registrations).contains h.name = true ↔
        h.name ∈ registrations.map Handler.name := by
      rw [(coherent_reached registrations).contains_iff, ih, mem_names_firsts]
    rw [reached_concat, after, run_register, firsts_concat]
    simp only [known]
    split
    · exact ih
    · rw [ih]

end Directory

/-! ## Exporting -/

/-- Procedures of distinct names are never refused for a name. -/
theorem Client.exportProcedures_ne_duplicate {seen : List String} {r : Resolver}
    {ps : List Procedure} (distinct : (ps.map (·.name)).Nodup) (fresh : ∀ p ∈ ps, p.name ∉ seen)
    (name : String) : exportProcedures seen r ps ≠ .error (.duplicateProcedure name) := by
  induction ps generalizing seen r with
  | nil => exact nofun
  | cons p rest ih =>
    rw [List.map_cons, List.nodup_cons] at distinct
    rw [List.forall_mem_cons] at fresh
    rw [exportProcedures, if_neg (by simpa using fresh.1)]
    split
    · exact nofun
    · next caller next exported =>
      have unseen : ∀ q ∈ rest, q.name ∉ p.name :: seen := by
        intro q hq there
        rcases List.mem_cons.1 there with same | there
        · exact distinct.1 (same ▸ List.mem_map_of_mem hq)
        · exact fresh.2 q hq there
      intro failed
      rcases bind_eq_error.1 failed with failed | ⟨_, -, ⟨⟩⟩
      exact ih distinct.2 unseen failed

theorem Client.exportClient_ne_duplicate (options : ExportOptions) {ps : List Procedure}
    (distinct : (ps.map (·.name)).Nodup) (name : String) :
    exportClient options ps ≠ .error (.duplicateProcedure name) := by
  intro failed
  rcases bind_eq_error.1 failed with failed | ⟨_, -, ⟨⟩⟩
  exact exportProcedures_ne_duplicate distinct (fun _ _ => List.not_mem_nil) name failed

namespace Directory

variable {C : Type}

/-- **The index and the handlers agree after any series of registrations**, of handlers of both
kinds and whether accepted or not.  The index leads to the handler of a name and nowhere else, so
names are distinct; a name is answered by the handler that was first registered under it, and only
where calls of its kind look; a further handler of a name is refused and changes nothing; and the
procedures are the first of each name, in order, so that exporting them never meets a name twice.
The dispatcher's registry holds the same handlers and finds the same. -/
theorem index_of_reached (registrations : List (Handler C)) :
    let d := reached registrations
    (∀ name i, d.index.lookup name = some i ↔ ∃ h, d.handlers[i]? = some h ∧ h.name = name) ∧
    (d.handlers.map Handler.name).Nodup ∧
    (∀ name, match registrations.find? (·.name = name) with
      | some h => d.contains name = true ∧
        if h.awaited then d.findBlocking? name = none ∧ d.findAwaited? name = some h
        else d.findBlocking? name = some h ∧ d.findAwaited? name = none
      | none => d.contains name = false ∧ d.findBlocking? name = none ∧
        d.findAwaited? name = none) ∧
    (∀ h, (register h).run.run d =
      if h.name ∈ registrations.map Handler.name then (.error (.duplicateProcedure h.name), d)
      else (.ok (), reached (registrations ++ [h]))) ∧
    d.procedures = (firsts registrations).map (·.procedure) ∧
    (∀ options name, Client.exportClient options d.procedures ≠
      .error (.duplicateProcedure name)) ∧
    ∃ r : Registry C, r.handlers = d.handlers ∧ ∀ name, r.find? name = d.find? name := by
  intro d
  have coherent : d.Coherent := coherent_reached registrations
  have handlers : d.handlers = firsts registrations := handlers_reached registrations
  have taken (name : String) : d.contains name = true ↔ name ∈ registrations.map Handler.name := by
    rw [coherent.contains_iff, handlers, mem_names_firsts]
  have found (name : String) : d.find? name = registrations.find? (·.name = name) := by
    rw [coherent.find?_eq, handlers, find?_firsts]
  refine ⟨coherent, coherent.nodup, fun name => ?_, fun h => ?_, ?_, fun options name => ?_,
    ⟨d.handlers, coherent.nodup⟩, rfl, fun name => (coherent.find?_eq name).symm⟩
  · have contains : d.contains name = (registrations.find? (·.name = name)).isSome := by
      rw [Bool.eq_iff_iff, taken]
      simp
    rw [findBlocking?, findAwaited?, found, contains]
    cases registrations.find? (·.name = name) with
    | none => exact ⟨rfl, rfl, rfl⟩
    | some h =>
      refine ⟨rfl, ?_⟩
      split
      · next awaited => simp [awaited]
      · next blocking => simp [blocking]
  · rw [reached_concat, after, run_register]
    change (if d.contains h.name then _ else _) = _
    simp only [taken]
    split <;> rfl
  · rw [procedures, handlers]
  · refine Client.exportClient_ne_duplicate options ?_ name
    rw [procedures, List.map_map]
    exact coherent.nodup

end Directory

end RpcBridge
