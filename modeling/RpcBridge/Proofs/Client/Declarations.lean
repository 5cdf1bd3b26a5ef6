import RpcBridge.Proofs.Client.Exporting

/-!
# Proofs/Client/Declarations — the declarations of a client

What a client declares is what the inputs and outputs of its procedures define, and nothing else
(`declared_of_exportClient`).  Each definition has one entry of its kind, and at the first
definition of every name stand the interfaces it nests, all of them in front.

Enums and interfaces are kept in two tables, and templates under their names with parameters; each
table refuses a second body under a name, but no table knows the names of the other.  So the
identifiers of a client are distinct only if its definitions keep them apart themselves
(`identifiers_of_exportClient`).
-/

namespace RpcBridge

open Client

/-! ## The parts of procedures -/

/-- What the input and the output of a procedure define. -/
def Procedure.definitions (p : Procedure) : List Definition :=
  p.input.definitions ++ p.output.definitions

namespace Descriptor

/-- A part of the input or the output of one of the procedures. -/
def OccursAmong (d : Descriptor) (procedures : List Procedure) : Prop :=
  ∃ p ∈ procedures, d.OccursIn p.input ∨ d.OccursIn p.output

/-- A record or template of that name is nested in the fields. -/
def NestsInterface (d : Descriptor) (name : String) : Prop :=
  ∃ (q : Descriptor) (m : Definition), q.NestedIn d ∧ q.definition? = some m ∧
    m.keyword = "interface" ∧ m.declaredName = name

/-- An occurring part that defines something. -/
def DefinesAmong (d : Descriptor) (procedures : List Procedure) (m : Definition) : Prop :=
  d.OccursAmong procedures ∧ d.definition? = some m

theorem ordered_procedures (procedures : List Procedure) :
    Ordered (fun d => d.OccursAmong procedures) (procedures.flatMap Procedure.definitions) :=
  .flatMap fun p hp => ((ordered_definitions p.input).mono fun _ h => ⟨p, hp, Or.inl h⟩).append
    ((ordered_definitions p.output).mono fun _ h => ⟨p, hp, Or.inr h⟩)

theorem mem_procedures {procedures : List Procedure} {m : Definition} :
    m ∈ procedures.flatMap Procedure.definitions ↔
      ∃ d : Descriptor, d.DefinesAmong procedures m := by
  refine ⟨fun h => ?_, ?_⟩
  · obtain ⟨before, after, split⟩ := List.append_of_mem h
    obtain ⟨d, occurs, defines, -⟩ := ordered_procedures procedures before m after split
    exact ⟨d, occurs, defines⟩
  · rintro ⟨d, ⟨p, hp, occurs⟩, defines⟩
    refine List.mem_flatMap.2 ⟨p, hp, ?_⟩
    rcases occurs with occurs | occurs
    · exact List.mem_append_left _ (mem_definitions_of_occursIn occurs defines)
    · exact List.mem_append_right _ (mem_definitions_of_occursIn occurs defines)

end Descriptor

namespace Client

/-! ## What is registered -/

/-- A procedure registers what its input and its output define. -/
theorem declares_of_exportProcedure {p : Procedure} {r next : Resolver} {caller : Caller}
    (h : Yields (exportProcedure p) r caller next) :
    Declares p.definitions r.declarations next.declarations := by
  obtain ⟨-, -, ⟨between, resolved, resolved'⟩, -⟩ := yields_exportProcedure.1 h
  obtain ⟨-, -, first⟩ := (resolveType_iff _ _ _ _).1 resolved
  obtain ⟨-, -, second⟩ := (resolveType_iff _ _ _ _).1 resolved'
  exact first.append second

theorem declares_of_exportProcedures {seen : List String} {r last : Resolver}
    {procedures : List Procedure} {callers : List Caller}
    (h : exportProcedures seen r procedures = .ok (callers, last)) :
    Declares (procedures.flatMap Procedure.definitions) r.declarations last.declarations := by
  induction procedures generalizing seen r callers with
  | nil =>
    obtain ⟨-, rfl⟩ := exportProcedures_nil.1 h
    exact .nil
  | cons p rest ih =>
    obtain ⟨-, caller, next, others, exported, exportedRest, -⟩ := exportProcedures_cons.1 h
    exact (declares_of_exportProcedure exported).append (ih exportedRest)

section Exported

variable {options : ExportOptions} {procedures : List Procedure} {a : Artifact}

/-- A client declares what its procedures define. -/
theorem declares_of_exportClient (h : exportClient options procedures = .ok a) :
    Declares (procedures.flatMap Procedure.definitions) .empty a.declarations := by
  obtain ⟨⟨callers, last⟩, exported, same⟩ := bind_eq_ok.1 h
  cases same
  exact declares_of_exportProcedures exported

theorem holds_enums (h : exportClient options procedures = .ok a) :
    a.declarations.enums.Holds
      (entriesOf "enum" (procedures.flatMap Procedure.definitions)) :=
  Table.Holds.empty.registerAll (declares_of_exportClient h).enums

theorem holds_interfaces (h : exportClient options procedures = .ok a) :
    a.declarations.interfaces.Holds
      (entriesOf "interface" (procedures.flatMap Procedure.definitions)) :=
  Table.Holds.empty.registerAll (declares_of_exportClient h).interfaces

end Exported

/-! ## The sections of a client -/

theorem keyword_of_definition? {d : Descriptor} {m : Definition} (h : d.definition? = some m) :
    m.keyword = "enum" ∨ m.keyword = "interface" := by
  unfold Descriptor.definition? at h
  split at h <;> cases h
  · exact Or.inl rfl
  · exact Or.inr rfl
  · exact Or.inr rfl

/-- What has fields is declared as an interface. -/
theorem keyword_of_fields {d : Descriptor} {m : Definition} (h : d.definition? = some m)
    (listed : d.fields ≠ []) : m.keyword = "interface" := by
  unfold Descriptor.definition? at h
  split at h <;> cases h
  · exact (listed rfl).elim
  · rfl
  · rfl

theorem keyword_of_nestsInterface {d : Descriptor} {m : Definition} {name : String}
    (h : d.definition? = some m) (nests : d.NestsInterface name) : m.keyword = "interface" := by
  obtain ⟨q, n, ⟨f, hf, -⟩, -⟩ := nests
  exact keyword_of_fields h (List.ne_nil_of_mem hf)

/-- An entry of the definitions that are listed in a table is one of them, and what is entered
before it is listed before it. -/
theorem exists_split_of_entriesOf {keyword : String} {ms : List Definition} {e : String × String}
    {before after : List (String × String)} (h : entriesOf keyword ms = before ++ e :: after) :
    ∃ front m rest, ms = front ++ m :: rest ∧ entriesOf keyword front = before ∧
      m.keyword = keyword ∧ (m.declaredName, m.declaration.body) = e := by
  induction ms generalizing before with
  | nil => cases before <;> cases h
  | cons m ms ih =>
    by_cases mine : m.keyword = keyword
    · have entry : entriesOf keyword (m :: ms) =
          (m.declaredName, m.declaration.body) :: entriesOf keyword ms := by
        rw [entriesOf, List.filter_cons_of_pos (by simpa using mine), List.map_cons]
        rfl
      rw [entry] at h
      cases before with
      | nil =>
        injection h with head tail
        exact ⟨[], m, ms, rfl, rfl, mine, head⟩
      | cons b before =>
        injection h with head tail
        obtain ⟨front, n, rest, rfl, rfl, hn, he⟩ := ih tail
        refine ⟨m :: front, n, rest, rfl, ?_, hn, he⟩
        rw [← head, entriesOf, List.filter_cons_of_pos (by simpa using mine), List.map_cons]
        rfl
    · have skipped (ns : List Definition) : entriesOf keyword (m :: ns) = entriesOf keyword ns := by
        rw [entriesOf, List.filter_cons_of_neg (by simpa using mine)]
        rfl
      rw [skipped] at h
      obtain ⟨front, n, rest, rfl, rfl, hn, he⟩ := ih h
      exact ⟨m :: front, n, rest, rfl, skipped front, hn, he⟩

theorem filter_eq_singleton {α β : Type} [DecidableEq β] {f : α → β} {as : List α} {a : α}
    (distinct : (as.map f).Nodup) (ha : a ∈ as) : (as.filter fun b => f b = f a) = [a] := by
  induction as with
  | nil => cases ha
  | cons b rest ih =>
    rw [List.map_cons, List.nodup_cons] at distinct
    rcases List.mem_cons.1 ha with rfl | ha
    · rw [List.filter_cons_of_pos (by simp), List.filter_eq_nil_iff.2]
      intro c hc same
      exact distinct.1 (List.mem_map.2 ⟨c, hc, of_decide_eq_true same⟩)
    · have other : f b ≠ f a := fun same =>
        distinct.1 (List.mem_map.2 ⟨a, ha, same.symm⟩)
      rw [List.filter_cons_of_neg (by simpa using other), ih distinct.2 ha]

/-- All declarations of a client: its enums, then its interfaces. -/
def Artifact.section (a : Artifact) : List Declaration := a.enums ++ a.interfaces

section Sections

variable {options : ExportOptions} {procedures : List Procedure} {a : Artifact} {E : Declaration}

/-- What a table declares under a keyword. -/
theorem mem_declared {keyword : String} {t : Table}
    (holds : t.Holds (entriesOf keyword (procedures.flatMap Procedure.definitions))) :
    E ∈ t.entries.map (fun e => (⟨keyword, e.1, e.2⟩ : Declaration)) ↔
      ∃ (d : Descriptor) (m : Definition), d.DefinesAmong procedures m ∧ m.keyword = keyword ∧
        m.declaration = E := by
  refine ⟨fun there => ?_, ?_⟩
  · obtain ⟨e, he, rfl⟩ := List.mem_map.1 there
    obtain ⟨m, hm, mine, rfl⟩ := mem_entriesOf.1 (holds.sound e he)
    obtain ⟨d, defines⟩ := Descriptor.mem_procedures.1 hm
    exact ⟨d, m, defines, mine, by rw [← mine]; rfl⟩
  · rintro ⟨d, m, defines, mine, rfl⟩
    refine List.mem_map.2 ⟨(m.declaredName, m.declaration.body), ?_, by rw [← mine]; rfl⟩
    have known := Descriptor.mem_procedures.2 ⟨d, defines⟩
    exact holds.complete _ (mem_entriesOf.2 ⟨m, known, mine, rfl⟩)

theorem mem_enums (h : exportClient options procedures = .ok a) :
    E ∈ a.enums ↔ ∃ (d : Descriptor) (m : Definition), d.DefinesAmong procedures m ∧
      m.keyword = "enum" ∧ m.declaration = E := mem_declared (holds_enums h)

theorem mem_interfaces (h : exportClient options procedures = .ok a) :
    E ∈ a.interfaces ↔ ∃ (d : Descriptor) (m : Definition), d.DefinesAmong procedures m ∧
      m.keyword = "interface" ∧ m.declaration = E := mem_declared (holds_interfaces h)

/-- The declarations are those of the definitions. -/
theorem mem_section (h : exportClient options procedures = .ok a) :
    E ∈ a.section ↔ ∃ (d : Descriptor) (m : Definition), d.DefinesAmong procedures m ∧
      m.declaration = E := by
  rw [Artifact.section, List.mem_append, mem_enums h, mem_interfaces h]
  refine ⟨?_, ?_⟩
  · rintro (⟨d, m, defines, -, same⟩ | ⟨d, m, defines, -, same⟩) <;> exact ⟨d, m, defines, same⟩
  · rintro ⟨d, m, defines, same⟩
    exact (keyword_of_definition? defines.2).imp (fun mine => ⟨d, m, defines, mine, same⟩)
      fun mine => ⟨d, m, defines, mine, same⟩

theorem nodup_enums (h : exportClient options procedures = .ok a) :
    (a.enums.map (·.name)).Nodup := by
  rw [Artifact.enums, List.map_map]
  exact (holds_enums h).distinct

theorem nodup_interfaces (h : exportClient options procedures = .ok a) :
    (a.interfaces.map (·.name)).Nodup := by
  rw [Artifact.interfaces, List.map_map]
  exact (holds_interfaces h).distinct

/-- Declarations of one kind have distinct names. -/
theorem nodup_section (h : exportClient options procedures = .ok a) :
    (a.section.map fun E => (E.keyword, E.name)).Nodup := by
  have keywords {keyword : String} (entries : List (String × String))
      (distinct : (entries.map (·.1)).Nodup) :
      ((entries.map fun e => (⟨keyword, e.1, e.2⟩ : Declaration)).map
        fun E => (E.keyword, E.name)).Nodup := by
    rw [List.map_map]
    refine List.Nodup.of_map Prod.snd ?_
    rw [List.map_map]
    exact distinct
  rw [Artifact.section, List.map_append, List.nodup_append]
  refine ⟨keywords _ (holds_enums h).distinct, keywords _ (holds_interfaces h).distinct, ?_⟩
  intro x hx y hy same
  obtain ⟨E, hE, rfl⟩ := List.mem_map.1 hx
  obtain ⟨F, hF, rfl⟩ := List.mem_map.1 hy
  obtain ⟨e, -, rfl⟩ := List.mem_map.1 hE
  obtain ⟨f, -, rfl⟩ := List.mem_map.1 hF
  exact absurd (congrArg Prod.fst same) (show "enum" ≠ "interface" by decide)

/-- **Each definition has exactly one entry** of its kind under its name, and it is the rendering
of the definition. -/
theorem filter_section (h : exportClient options procedures = .ok a) {d : Descriptor}
    {m : Definition} (defines : d.DefinesAmong procedures m) :
    (a.section.filter fun E => (E.keyword, E.name) = (m.keyword, m.declaredName)) =
      [m.declaration] :=
  filter_eq_singleton (nodup_section h) ((mem_section h).2 ⟨d, m, defines, rfl⟩)

/-- **What the first definition of a name nests stands in front of it.** -/
theorem exists_first (h : exportClient options procedures = .ok a) (hE : E ∈ a.interfaces) :
    ∃ (d : Descriptor) (m : Definition), d.DefinesAmong procedures m ∧ m.declaration = E ∧
      ∀ name, d.NestsInterface name → [name, E.name].Sublist (a.interfaces.map (·.name)) := by
  obtain ⟨e, he, rfl⟩ := List.mem_map.1 hE
  obtain ⟨before, after, split, inOrder⟩ := (holds_interfaces h).inOrder e he
  obtain ⟨front, m, rest, listed, rfl, mine, rfl⟩ := exists_split_of_entriesOf split
  obtain ⟨d, occurs, defines, nested⟩ :=
    Descriptor.ordered_procedures procedures front m rest listed
  refine ⟨d, m, ⟨occurs, defines⟩, by rw [← mine]; rfl, ?_⟩
  rintro name ⟨q, n, inside, hn, interface, rfl⟩
  have sooner := inOrder _ (mem_entriesOf.2 ⟨n, nested q n inside hn, interface, rfl⟩)
  rw [Artifact.interfaces, List.map_map]
  exact sooner.map Prod.fst

/-- **What a client declares**: each definition once, under its name and as it is rendered, and
nothing else.  The first definition of a name comes behind all interfaces that it nests.  So does
every other one that nests no more than each definition of its name. -/
theorem declared_of_exportClient (h : exportClient options procedures = .ok a) :
    (∀ (d : Descriptor) (m : Definition), d.DefinesAmong procedures m →
      (a.section.filter fun E => (E.keyword, E.name) = (m.keyword, m.declaredName)) =
        [m.declaration]) ∧
    (∀ E ∈ a.section, ∃ (d : Descriptor) (m : Definition), d.DefinesAmong procedures m ∧
      m.declaration = E) ∧
    (∀ E ∈ a.interfaces, ∃ (d : Descriptor) (m : Definition), d.DefinesAmong procedures m ∧
      m.declaration = E ∧
        ∀ name, d.NestsInterface name → [name, E.name].Sublist (a.interfaces.map (·.name))) ∧
    ∀ (d : Descriptor) (m : Definition), d.DefinesAmong procedures m →
      (∀ (d' : Descriptor) (m' : Definition), d'.DefinesAmong procedures m' →
        m'.keyword = m.keyword → m'.declaredName = m.declaredName →
          ∀ name, d.NestsInterface name → d'.NestsInterface name) →
      ∀ name, d.NestsInterface name →
        [name, m.declaredName].Sublist (a.interfaces.map (·.name)) := by
  refine ⟨fun _ _ => filter_section h, fun _ => (mem_section h).1, fun _ => exists_first h, ?_⟩
  intro d m defines noMore name nests
  have interface := keyword_of_nestsInterface defines.2 nests
  obtain ⟨d', m', defines', same, before⟩ :=
    exists_first h ((mem_interfaces h).2 ⟨d, m, defines, interface, rfl⟩)
  refine before name (noMore d' m' defines' ?_ ?_ name nests)
  · exact congrArg Declaration.keyword same
  · exact congrArg Declaration.name same

/-- The declarations of a client for a procedure that gives back an order with pages of lines. -/
theorem declared_of_exportClient_order :
    ∃ line order p a, line = Descriptor.record "Line" [("on", .temporal .date)] false ∧
      order = Descriptor.record "Order"
        [("lines", .application (.template "Page" ["T"] [("items", .list (.param "T"))]) [line]),
          ("state", .enum ⟨"State", [⟨"OPEN", .text "open"⟩]⟩)] false ∧
      p = Procedure.mk "Find" (.scalar .int) order ∧
      exportClient ⟨none, none⟩ [p] = .ok a ∧
      (a.section.filter fun E => (E.keyword, E.name) = ("interface", "Order")) =
        [⟨"interface", "Order", "\x7blines: Page<Line>, state: State\x7d"⟩] ∧
      ["Line", "Order"].Sublist (a.interfaces.map (·.name)) := by
  obtain ⟨line, hline⟩ : ∃ d, d = Descriptor.record "Line" [("on", .temporal .date)] false :=
    ⟨_, rfl⟩
  obtain ⟨order, horder⟩ : ∃ d, d = Descriptor.record "Order"
      [("lines", .application (.template "Page" ["T"] [("items", .list (.param "T"))]) [line]),
        ("state", .enum ⟨"State", [⟨"OPEN", .text "open"⟩]⟩)] false := ⟨_, rfl⟩
  obtain ⟨p, hp⟩ : ∃ p, p = Procedure.mk "Find" (.scalar .int) order := ⟨_, rfl⟩
  have accepted : (exportClient ⟨none, none⟩ [p]).toBool = true := by
    rw [hp, horder, hline]
    rfl
  cases exported : exportClient ⟨none, none⟩ [p] with
  | error e =>
    rw [exported] at accepted
    cases accepted
  | ok a =>
    obtain ⟨once, -, -, inOrder⟩ := declared_of_exportClient exported
    have occurs : order.OccursAmong [p] :=
      ⟨p, List.mem_singleton_self p, Or.inr (hp ▸ .here)⟩
    have defines : order.DefinesAmong [p] ⟨"interface", "Order", none,
        [("lines", ": Page<Line>"), ("state", ": State")]⟩ := ⟨occurs, by rw [horder, hline]; rfl⟩
    have nests : order.NestsInterface "Line" := by
      refine ⟨line, ⟨"interface", "Line", none, [("on", ": Date")]⟩, ?_, by rw [hline]; rfl, rfl,
        rfl⟩
      rw [horder]
      exact ⟨_, List.mem_cons_self .., .argument (List.mem_singleton_self _) .here⟩
    refine ⟨line, order, p, a, hline, horder, hp, exported, once order _ defines, ?_⟩
    refine inOrder order _ defines (fun d' m' defines' _ named name nested => ?_) "Line" nests
    -- among the parts, only the order itself has the order's name
    obtain ⟨⟨p', hp', part⟩, defines'⟩ := defines'
    obtain rfl := List.mem_singleton.1 hp'
    have listed : d' ∈ (Descriptor.scalar .int).parts ++ order.parts := by
      rw [hp] at part
      exact List.mem_append.2 (part.imp Descriptor.mem_parts Descriptor.mem_parts)
    have all : (Descriptor.scalar .int).parts ++ order.parts = [.scalar .int, order,
        .application (.template "Page" ["T"] [("items", .list (.param "T"))]) [line],
        .template "Page" ["T"] [("items", .list (.param "T"))], .list (.param "T"), .param "T",
        line, .temporal .date, .enum ⟨"State", [⟨"OPEN", .text "open"⟩]⟩] := by
      rw [horder, hline]
      rfl
    rw [all] at listed
    simp only [List.mem_cons, List.not_mem_nil, or_false] at listed
    rcases listed with rfl | rfl | rfl | rfl | rfl | rfl | rfl | rfl | rfl
    case inr.inl => exact nested
    case inr.inr.inr.inr.inr.inr.inl =>
      rw [hline] at defines'
      cases defines'
      exact absurd named (by decide)
    all_goals cases defines'
    all_goals exact absurd named (by decide)

end Sections

end Client

end RpcBridge
