import RpcBridge.Client.Catalog
import RpcBridge.Client.Table
import RpcBridge.Proofs.Json.Places

/-!
# Proofs/Client/Catalog — what a catalog keeps

A catalog says twice where a declaration stands: in the list, and in the index.  While the two agree
(`Coherent`), a registration has one of three outcomes, told apart by what the list holds under the
name (`Coherent.run_register`), and the two agree again behind it.  So in a catalog that has been
made by registrations the index never leads astray (`Records.registerAll`).  It holds the
declarations that were granted, each where it first came, and answers as a table of the same entries
does (`entries_of_registrations`).
-/

namespace RpcBridge.Client.Catalog

variable {c : Catalog} {name body : String} {calls granted : List (String × String)}

/-- The table of the same entries. -/
def table (c : Catalog) : Table := ⟨c.entries⟩

/-- The index leads from each name to the place of its entry, and nowhere else. -/
def Coherent (c : Catalog) : Prop := Indexes c.index c.names

namespace Coherent

theorem empty : Catalog.empty.Coherent := .nil

theorem index_iff (coherent : c.Coherent) (name : String) (i : Nat) :
    c.index.lookup name = some i ↔ ∃ inside : i < c.entries.length, c.entries[i].1 = name := by
  rw [coherent name i, List.getElem?_eq_some_iff]
  simp only [names, List.getElem_map, List.length_map]

/-- A name that the list does not hold is not in the index; one that it holds has a place there, and
its body stands in that place. -/
theorem lookup_cases (coherent : c.Coherent) (name : String) :
    c.entries.lookup name = none ∧ c.index.lookup name = none ∨
      ∃ i body, c.entries.lookup name = some body ∧ c.index.lookup name = some i ∧
        c.bodyAt i = some body := by
  cases found : c.index.lookup name with
  | none =>
    refine Or.inl ⟨lookup_eq_none fun there => ?_, rfl⟩
    have indexed := coherent.isSome_lookup.2 there
    rw [found] at indexed
    cases indexed
  | some i =>
    obtain ⟨inside, rfl⟩ := (coherent.index_iff name i).1 found
    refine Or.inr ⟨i, c.entries[i].2, ?_, rfl, ?_⟩
    · exact lookup_eq_some_of_mem coherent.nodup (List.getElem_mem inside)
    · rw [bodyAt, List.getElem?_eq_getElem inside, Option.map_some]

/-- What is looked up is what the list holds; looking up always has an outcome. -/
theorem get?_eq (coherent : c.Coherent) (name : String) :
    c.get? name = some (c.entries.lookup name) := by
  rcases coherent.lookup_cases name with ⟨absent, unindexed⟩ | ⟨i, body, there, indexed, stands⟩
  · rw [get?, unindexed, absent]
    rfl
  · rw [get?, indexed, there, Option.mapM_some, stands]
    rfl

theorem contains_eq (coherent : c.Coherent) (name : String) :
    c.contains name = (c.entries.lookup name).isSome := by
  rcases coherent.lookup_cases name with ⟨absent, unindexed⟩ | ⟨i, body, there, indexed, -⟩
  · rw [contains, unindexed, absent]
    rfl
  · rw [contains, indexed, there]
    rfl

end Coherent

/-! ## One registration -/

/-- A registration reads the index, and then the place to which it leads. -/
theorem run_register (c : Catalog) (name body : String) :
    (register name body).run.run c =
      match c.index.lookup name with
      | none => some (.ok (), c.entered name body)
      | some i => (c.bodyAt i).map fun stored =>
        (if stored = body then .ok () else .error (.nameConflict name stored body), c) := by
  change (match c.index.lookup name with
    | none => set (c.entered name body)
    | some i => do
      let stored ← c.bodyAt i
      if stored ≠ body then throw (.nameConflict name stored body) :
      ExceptT ExportError (StateT Catalog Option) Unit).run.run c = _
  split
  · rfl
  · next i _ =>
    cases c.bodyAt i with
    | none => rfl
    | some stored =>
      change (if stored ≠ body then throw (.nameConflict name stored body) else pure () :
        ExceptT ExportError (StateT Catalog Option) Unit).run.run c = _
      split
      · next other =>
        rw [Option.map_some, if_neg other]
        rfl
      · next same =>
        rw [Option.map_some, if_pos (not_not.1 same)]
        rfl

namespace Coherent

/-- **The three outcomes of a registration**: a new name is entered, and a name that is there is
granted or refused for its body; then nothing changes. -/
theorem run_register (coherent : c.Coherent) (name body : String) :
    (register name body).run.run c =
      match c.entries.lookup name with
      | none => some (.ok (), c.entered name body)
      | some stored =>
        some (if stored = body then .ok () else .error (.nameConflict name stored body), c) := by
  rw [Catalog.run_register]
  rcases coherent.lookup_cases name with ⟨absent, unindexed⟩ | ⟨i, stored, there, indexed, stands⟩
  · rw [unindexed, absent]
  · rw [indexed, there]
    simp only [stands, Option.map_some]

/-- A table of the same entries answers alike, and has the same entries afterwards. -/
theorem table_register (coherent : c.Coherent) (name body : String) :
    ((register name body).run.run c).map (fun next => next.1.map fun _ => next.2.table) =
      some (c.table.register name body) := by
  rw [coherent.run_register]
  cases there : c.entries.lookup name with
  | none =>
    have new : c.table.get? name = none := there
    simp only [Table.register, new]
    rfl
  | some stored =>
    have found : c.table.get? name = some stored := there
    simp only [Table.register, found]
    split <;> rfl

theorem entered (coherent : c.Coherent) (new : c.entries.lookup name = none) :
    (c.entered name body).Coherent := by
  have absent : name ∉ c.names := by
    intro there
    obtain ⟨stored, found⟩ := exists_lookup there
    rw [new] at found
    cases found
  have indexed := coherent.concat absent
  rw [names, List.length_map] at indexed
  rwa [Coherent, names, Catalog.entered, List.map_append, List.map_singleton]

end Coherent

/-! ## Registrations one after the other -/

/-- Declarations registered one after the other; those that are granted come back. -/
def registerAll : List (String × String) → StateT Catalog Option (List (String × String))
  | [] => pure []
  | e :: rest => do
    let answer ← (register e.1 e.2).run
    let granted ← registerAll rest
    return if answer.isOk then e :: granted else granted

theorem run_registerAll_cons (c : Catalog) (e : String × String) (rest : List (String × String)) :
    (registerAll (e :: rest)).run c = (do
      let (answer, next) ← (register e.1 e.2).run.run c
      let (granted, later) ← (registerAll rest).run next
      some (if answer.isOk then e :: granted else granted, later)) := rfl

/-- What a catalog keeps of the declarations that came, of which some were granted. -/
structure Records (c : Catalog) (calls granted : List (String × String)) : Prop where
  coherent : c.Coherent
  /-- The body of a name is the one that came first. -/
  first : ∀ name, c.entries.lookup name = calls.lookup name
  /-- Entries stand in the order in which they were first granted. -/
  order : c.entries = granted.eraseDups

theorem eraseDups_concat {α : Type} [BEq α] [LawfulBEq α] (as : List α) (a : α) :
    (as ++ [a]).eraseDups = if a ∈ as then as.eraseDups else as.eraseDups ++ [a] := by
  rw [List.eraseDups_append]
  split
  · next there => simp [List.removeAll, there]
  · next new => simp [List.removeAll, new, List.eraseDups_cons]

namespace Records

theorem empty : Catalog.empty.Records [] [] := ⟨.empty, fun _ => rfl, rfl⟩

/-- **A registration has an outcome**, and the catalog keeps what it should. -/
theorem register (records : c.Records calls granted) (e : String × String) :
    ∃ answer next, (Catalog.register e.1 e.2).run.run c = some (answer, next) ∧
      c.entries <+: next.entries ∧
      next.Records (calls ++ [e]) (if answer.isOk then granted ++ [e] else granted) := by
  rw [records.coherent.run_register]
  have came (a : String) : (calls ++ [e]).lookup a = (c.entries.lookup a).or ([e].lookup a) := by
    rw [List.lookup_append, records.first]
  have mem_granted : e ∈ granted ↔ e ∈ c.entries := by rw [records.order, List.mem_eraseDups]
  cases there : c.entries.lookup e.1 with
  | none =>
    have new : e ∉ granted := by
      intro old
      have found := lookup_eq_some_of_mem records.coherent.nodup (mem_granted.1 old)
      rw [there] at found
      cases found
    refine ⟨_, _, rfl, List.prefix_append _ _, records.coherent.entered there, fun a => ?_, ?_⟩
    · rw [came, entered, List.lookup_append]
    · change c.entries ++ [e] = (granted ++ [e]).eraseDups
      rw [eraseDups_concat, if_neg new, records.order]
  | some stored =>
    refine ⟨_, _, rfl, List.prefix_refl _, records.coherent, fun a => ?_, ?_⟩
    · rw [came]
      by_cases same : a = e.1
      · rw [same, there, Option.some_or]
      · rw [lookup_cons_eq, if_neg same, List.lookup_nil, Option.or_none]
    · split
      · next same =>
        subst same
        have old : e ∈ granted := mem_granted.2 (mem_of_lookup_eq_some there)
        change c.entries = (granted ++ [e]).eraseDups
        rw [eraseDups_concat, if_pos old, records.order]
      · exact records.order

/-- **Registrations one after the other have an outcome**, and entries are only added behind those
that are there. -/
theorem registerAll (records : c.Records calls granted) (further : List (String × String)) :
    ∃ more later, (Catalog.registerAll further).run c = some (more, later) ∧
      c.entries <+: later.entries ∧ later.Records (calls ++ further) (granted ++ more) := by
  induction further generalizing c calls granted with
  | nil =>
    refine ⟨[], c, rfl, List.prefix_refl _, ?_⟩
    rwa [List.append_nil, List.append_nil]
  | cons e rest ih =>
    obtain ⟨answer, next, ran, longer, kept⟩ := records.register e
    obtain ⟨more, later, others, further, recorded⟩ := ih kept
    refine ⟨if answer.isOk then e :: more else more, later, ?_, longer.trans further, ?_⟩
    · simp only [run_registerAll_cons, ran, others, Option.bind_eq_bind, Option.bind_some]
    · cases granted? : answer.isOk <;> simpa [granted?] using recorded

end Records

/-- **A catalog is a faithful map in order of insertion**, whatever has been registered.  Its index
leads to the place of a name and nowhere else, and names are distinct; entries stand in the order in
which they were first granted, and under each name stands the body that came first, also after any
further registrations.  A new name is entered at the end; a name that is there is granted with the
same body and refused with another one, and either way nothing changes.  The table of the same
entries answers alike. -/
theorem entries_of_registrations (calls : List (String × String)) :
    ∃ granted c, (registerAll calls).run empty = some (granted, c) ∧
      (∀ name i, c.index.lookup name = some i ↔
        ∃ inside : i < c.entries.length, c.entries[i].1 = name) ∧
      c.names.Nodup ∧
      c.entries = granted.eraseDups ∧
      (∀ name, c.get? name = some (calls.lookup name) ∧
        c.contains name = (calls.lookup name).isSome) ∧
      (∀ further, ∃ more later, (registerAll further).run c = some (more, later) ∧
        c.entries <+: later.entries ∧
        ∀ name, later.get? name = some ((calls.lookup name).or (further.lookup name))) ∧
      (∀ name body, (register name body).run.run c =
        match calls.lookup name with
        | none => some (.ok (), c.entered name body)
        | some stored =>
          some (if stored = body then .ok () else .error (.nameConflict name stored body), c)) ∧
      ∀ name, c.get? name = some (c.table.get? name) ∧
        c.contains name = c.table.contains name ∧
        ∀ body, ((register name body).run.run c).map
          (fun next => next.1.map fun _ => next.2.table) = some (c.table.register name body) := by
  obtain ⟨granted, c, ran, -, records⟩ := Records.empty.registerAll calls
  rw [List.nil_append, List.nil_append] at records
  have coherent := records.coherent
  refine ⟨granted, c, ran, coherent.index_iff, coherent.nodup, records.order, fun name => ?_,
    fun further => ?_, fun name body => ?_, fun name => ⟨coherent.get?_eq name,
      coherent.contains_eq name, coherent.table_register name⟩⟩
  · rw [coherent.get?_eq, coherent.contains_eq, records.first]
    exact ⟨rfl, rfl⟩
  · obtain ⟨more, later, ran, longer, kept⟩ := records.registerAll further
    refine ⟨more, later, ran, longer, fun name => ?_⟩
    rw [kept.coherent.get?_eq, kept.first, List.lookup_append]
  · rw [coherent.run_register, records.first]

/-- A declaration that is refused leaves no trace, and one that comes again does not move. -/
example : (registerAll [("Zeta", "a"), ("Alpha", "b"), ("Zeta", "c"), ("Zeta", "a"),
    ("Mid", "d")]).run empty =
      some ([("Zeta", "a"), ("Alpha", "b"), ("Zeta", "a"), ("Mid", "d")],
        ⟨[("Zeta", "a"), ("Alpha", "b"), ("Mid", "d")],
          [("Zeta", 0), ("Alpha", 1), ("Mid", 2)]⟩) := by rfl

end RpcBridge.Client.Catalog
