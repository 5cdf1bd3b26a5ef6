import RpcBridge.Proofs.Client.Alike
import RpcBridge.Proofs.Client.Declarations

/-!
# Proofs/Client/Order — the order of procedures

A list of procedures is exported one after the other, with a table of declarations and a counter
that all of them share.  Still, whether it is exported does not depend on the order: each procedure
must be exportable by itself, no name may come twice, and what the procedures define must be
consistent (`Exportable`).  The order decides only in which order declarations and functions stand,
and how temporaries are numbered; what comes later changes nothing that stands before.

* `exists_exportClient` — when a list of procedures is exported;
* `headers_of_exportProcedures` — the names and types of its functions;
* `exportClient_order` — permutations and initial parts.
-/

namespace RpcBridge.Client

/-! ## When procedures are exported -/

/-- A procedure that can be exported as far as it is concerned itself. -/
structure ExportableAlone (p : Procedure) : Prop where
  named : isIdentifier p.name = true
  input : p.input.Renderable
  output : p.output.Renderable
  prepared : Convertible p.input.shape
  restored : Convertible p.output.shape

/-- Procedures that can be exported together. -/
structure Exportable (procedures : List Procedure) : Prop where
  distinct : (procedures.map (·.name)).Nodup
  alone : ∀ p ∈ procedures, ExportableAlone p
  named : ∀ m ∈ procedures.flatMap Procedure.definitions, isIdentifier m.name = true
  enums : Table.Consistent (entriesOf "enum" (procedures.flatMap Procedure.definitions))
  interfaces : Table.Consistent (entriesOf "interface" (procedures.flatMap Procedure.definitions))

section Exported

variable {options : ExportOptions} {p : Procedure} {procedures front rest others : List Procedure}
  {seen : List String} {r last : Resolver} {callers : List Caller} {s' : Declarations}
  {a b : Artifact}

/-- A procedure is exported exactly if it can be by itself and its definitions can be added. -/
theorem exists_exportProcedure :
    (∃ caller next, Yields (exportProcedure p) r caller next ∧ next.declarations = s') ↔
      ExportableAlone p ∧ Declares p.definitions r.declarations s' := by
  constructor
  · rintro ⟨caller, next, exported, rfl⟩
    obtain ⟨checked, -, ⟨between, input, output⟩, _, prepared, restored⟩ :=
      yields_exportProcedure.1 exported
    obtain ⟨renderable, -, -⟩ := (resolveType_iff _ _ _ _).1 input
    obtain ⟨renderable', -, -⟩ := (resolveType_iff _ _ _ _).1 output
    exact ⟨⟨checkIdentifier_iff.1 checked, renderable, renderable',
      ⟨_, _, _, _, _, _, prepared⟩, ⟨_, _, _, _, _, _, restored⟩⟩,
      declares_of_exportProcedure exported⟩
  · rintro ⟨alone, declares⟩
    obtain ⟨between, first, second⟩ := Declares.append_iff.1 declares
    obtain ⟨prepare, counter, prepared⟩ :=
      alone.prepared.yields .out Caller.params Caller.preparedParams r.counter
    obtain ⟨restore, counter', restored⟩ :=
      alone.restored.yields .back Caller.data Caller.data counter
    refine ⟨⟨p.name, p.input.typeExpr, p.output.typeExpr, prepare, restore⟩, ⟨s', counter'⟩,
      yields_exportProcedure.2 ⟨checkIdentifier_iff.2 alone.named, rfl, ⟨between, ?_, ?_⟩,
        counter, prepared, restored⟩, rfl⟩
    · exact (resolveType_iff _ _ _ _).2 ⟨alone.input, rfl, first⟩
    · exact (resolveType_iff _ _ _ _).2 ⟨alone.output, rfl, second⟩

theorem exists_exportProcedures :
    (∃ callers last, exportProcedures seen r procedures = .ok (callers, last) ∧
      last.declarations = s') ↔
    ((procedures.map (·.name)).Nodup ∧ ∀ p ∈ procedures, p.name ∉ seen) ∧
      (∀ p ∈ procedures, ExportableAlone p) ∧
        Declares (procedures.flatMap Procedure.definitions) r.declarations s' := by
  induction procedures generalizing seen r with
  | nil =>
    simp only [exportProcedures_nil, List.flatMap_nil, Declares.nil_iff]
    constructor
    · rintro ⟨_, _, ⟨rfl, rfl⟩, rfl⟩
      exact ⟨⟨List.nodup_nil, List.forall_mem_nil _⟩, List.forall_mem_nil _, rfl⟩
    · rintro ⟨-, -, rfl⟩
      exact ⟨[], r, ⟨rfl, rfl⟩, rfl⟩
  | cons p rest ih =>
    simp only [exportProcedures_cons, List.flatMap_cons, Declares.append_iff, List.forall_mem_cons,
      List.map_cons, List.nodup_cons]
    constructor
    · rintro ⟨_, last, ⟨new, caller, next, others, exported, exportedRest, rfl⟩, rfl⟩
      obtain ⟨alone, declares⟩ := exists_exportProcedure.1 ⟨caller, next, exported, rfl⟩
      obtain ⟨⟨distinct, unseen⟩, each, more⟩ := ih.1 ⟨others, last, exportedRest, rfl⟩
      refine ⟨⟨⟨fun there => ?_, distinct⟩, new, fun q hq => ?_⟩, ⟨alone, each⟩, _, declares, more⟩
      · obtain ⟨q, hq, same⟩ := List.mem_map.1 there
        exact unseen q hq (same ▸ List.mem_cons_self ..)
      · exact fun there => unseen q hq (List.mem_cons_of_mem _ there)
    · rintro ⟨⟨⟨apart, distinct⟩, new, unseen⟩, ⟨alone, each⟩, _, declares, more⟩
      obtain ⟨caller, next, exported, rfl⟩ := exists_exportProcedure.2 ⟨alone, declares⟩
      have unseen' : ∀ q ∈ rest, q.name ∉ p.name :: seen := by
        intro q hq there
        rcases List.mem_cons.1 there with same | there
        · exact apart (List.mem_map.2 ⟨q, hq, same⟩)
        · exact unseen q hq there
      obtain ⟨others, last, exportedRest, rfl⟩ := ih.2 ⟨⟨distinct, unseen'⟩, each, more⟩
      exact ⟨_, last, ⟨new, caller, next, others, exported, exportedRest, rfl⟩, rfl⟩

/-- A client is what the export of its procedures comes to. -/
theorem exportClient_eq_ok : exportClient options procedures = .ok a ↔
    ∃ callers last, exportProcedures [] .empty procedures = .ok (callers, last) ∧
      a = ⟨options.prelude?.getD prelude, options.url?, last.declarations, callers⟩ := by
  rw [exportClient, bind_eq_ok]
  constructor
  · rintro ⟨⟨callers, last⟩, exported, same⟩
    cases same
    exact ⟨callers, last, exported, rfl⟩
  · rintro ⟨callers, last, exported, rfl⟩
    exact ⟨(callers, last), exported, rfl⟩

/-- That a client exists can be computed. -/
theorem exists_artifact (accepted : (exportClient options procedures).toBool = true) :
    ∃ a, exportClient options procedures = .ok a := by
  cases h : exportClient options procedures with
  | error e =>
    rw [h] at accepted
    cases accepted
  | ok a => exact ⟨a, rfl⟩

/-- **A list of procedures is exported** exactly if each of them can be exported by itself, no name
comes twice, and what they define is consistent. -/
theorem exists_exportClient :
    (∃ a, exportClient options procedures = .ok a) ↔ Exportable procedures := by
  constructor
  · rintro ⟨a, h⟩
    obtain ⟨callers, last, exported, rfl⟩ := exportClient_eq_ok.1 h
    obtain ⟨⟨distinct, -⟩, alone, declares⟩ :=
      exists_exportProcedures.1 ⟨callers, last, exported, rfl⟩
    exact ⟨distinct, alone, declares.named, (holds_enums h).consistent,
      (holds_interfaces h).consistent⟩
  · rintro ⟨distinct, alone, named, enums, interfaces⟩
    obtain ⟨es, hes⟩ := Table.Holds.empty.exists_registerAll.2 enums
    obtain ⟨is, his⟩ := Table.Holds.empty.exists_registerAll.2 interfaces
    obtain ⟨callers, last, exported, -⟩ := (@exists_exportProcedures procedures [] .empty
      ⟨es, is⟩).2 ⟨⟨distinct, fun _ _ => List.not_mem_nil⟩, alone, ⟨hes, his, named⟩⟩
    exact ⟨_, exportClient_eq_ok.2 ⟨callers, last, exported, rfl⟩⟩

/-- Whether procedures can be exported together does not depend on their order. -/
theorem Exportable.perm (h : Exportable procedures) (same : procedures.Perm others) :
    Exportable others := by
  have definitions : others.flatMap Procedure.definitions ⊆
      procedures.flatMap Procedure.definitions := (same.flatMap_right _).symm.subset
  have entries (keyword : String) : entriesOf keyword (others.flatMap Procedure.definitions) ⊆
      entriesOf keyword (procedures.flatMap Procedure.definitions) := by
    intro e he
    obtain ⟨m, hm, rest⟩ := mem_entriesOf.1 he
    exact mem_entriesOf.2 ⟨m, definitions hm, rest⟩
  exact ⟨(same.map _).nodup_iff.1 h.distinct, fun p hp => h.alone p (same.mem_iff.2 hp),
    fun m hm => h.named m (definitions hm), h.enums.subset (entries _),
    h.interfaces.subset (entries _)⟩

/-! ## Functions -/

/-- What the names and the types of a procedure's functions are made of. -/
def Caller.header (c : Caller) : String × TypeExpr × TypeExpr := (c.procedure, c.input, c.output)

/-- The header of a procedure's functions. -/
def headerOf (p : Procedure) : String × TypeExpr × TypeExpr :=
  (p.name, p.input.typeExpr, p.output.typeExpr)

/-- **The names and types of the functions** are those of the procedures. -/
theorem headers_of_exportProcedures
    (h : exportProcedures seen r procedures = .ok (callers, last)) :
    callers.map Caller.header = procedures.map headerOf := by
  induction procedures generalizing seen r callers with
  | nil =>
    obtain ⟨rfl, -⟩ := exportProcedures_nil.1 h
    rfl
  | cons p rest ih =>
    obtain ⟨-, caller, next, others, exported, exportedRest, rfl⟩ := exportProcedures_cons.1 h
    obtain ⟨-, named, ⟨between, input, output⟩, -⟩ := yields_exportProcedure.1 exported
    obtain ⟨-, input, -⟩ := (resolveType_iff _ _ _ _).1 input
    obtain ⟨-, output, -⟩ := (resolveType_iff _ _ _ _).1 output
    rw [List.map_cons, List.map_cons, ih exportedRest, Caller.header, headerOf, named, input,
      output]

/-- Functions of one header have one name and one signature, and make the same call. -/
structure SameInterface (c c' : Caller) : Prop where
  prepareName : c.prepareFunction.name = c'.prepareFunction.name
  prepareSignature : c.prepareFunction.signature = c'.prepareFunction.signature
  restoreName : c.restoreFunction.name = c'.restoreFunction.name
  restoreSignature : c.restoreFunction.signature = c'.restoreFunction.signature
  stub : c.stub = c'.stub

theorem sameInterface_of_header {c c' : Caller} (h : c.header = c'.header) :
    SameInterface c c' := by
  obtain ⟨procedure, input, output, _, _⟩ := c
  obtain ⟨procedure', input', output', _, _⟩ := c'
  cases h
  exact ⟨rfl, rfl, rfl, rfl, rfl⟩

/-- Every procedure has one caller. -/
theorem exists_caller (h : exportClient options procedures = .ok a) (hp : p ∈ procedures) :
    ∃ c, a.callers.filter (·.procedure = p.name) = [c] ∧ c.header = headerOf p := by
  have distinct := (exists_exportClient.1 ⟨a, h⟩).distinct
  obtain ⟨callers, last, exported, rfl⟩ := exportClient_eq_ok.1 h
  have headers := headers_of_exportProcedures exported
  have names : callers.map (·.procedure) = procedures.map (·.name) := by
    have := congrArg (List.map Prod.fst) headers
    rwa [List.map_map, List.map_map] at this
  obtain ⟨c, hc, header⟩ := List.mem_map.1 (headers ▸ List.mem_map.2 ⟨p, hp, rfl⟩)
  refine ⟨c, ?_, header⟩
  have named : c.procedure = p.name := congrArg Prod.fst header
  rw [← named]
  exact filter_eq_singleton (names ▸ distinct) hc

/-! ## Initial parts -/

/-- What comes later changes nothing that stands before. -/
theorem exportProcedures_append
    (h : exportProcedures seen r (front ++ rest) = .ok (callers, last)) :
    ∃ before between after, exportProcedures seen r front = .ok (before, between) ∧
      callers = before ++ after ∧
        Declares (rest.flatMap Procedure.definitions) between.declarations last.declarations := by
  induction front generalizing seen r callers with
  | nil => exact ⟨[], r, callers, exportProcedures_nil.2 ⟨rfl, rfl⟩, rfl,
      declares_of_exportProcedures h⟩
  | cons p front ih =>
    obtain ⟨new, caller, next, others, exported, exportedRest, rfl⟩ := exportProcedures_cons.1 h
    obtain ⟨before, between, after, first, rfl, declares⟩ := ih exportedRest
    exact ⟨caller :: before, between, after,
      exportProcedures_cons.2 ⟨new, caller, next, before, exported, first, rfl⟩, rfl, declares⟩

/-- A client whose sections begin with those of another one. -/
structure Artifact.Extends (a b : Artifact) : Prop where
  enums : b.enums <+: a.enums
  interfaces : b.interfaces <+: a.interfaces
  prepareFunctions : b.prepareFunctions <+: a.prepareFunctions
  restoreFunctions : b.restoreFunctions <+: a.restoreFunctions
  stubs : b.stubs <+: a.stubs

theorem exists_extends (h : exportClient options (front ++ rest) = .ok a) :
    ∃ b, exportClient options front = .ok b ∧ a.Extends b := by
  obtain ⟨callers, last, exported, rfl⟩ := exportClient_eq_ok.1 h
  obtain ⟨before, between, after, first, rfl, declares⟩ := exportProcedures_append exported
  have functions : before <+: before ++ after := List.prefix_append _ _
  exact ⟨_, exportClient_eq_ok.2 ⟨before, between, first, rfl⟩,
    (Table.registerAll_keeps declares.enums).map _,
    (Table.registerAll_keeps declares.interfaces).map _,
    functions.map _, functions.map _, functions.map _⟩

/-! ## Order -/

/-- An enum or an interface is defined by some procedure, wherever it stands. -/
theorem definesAmong_perm {d : Descriptor} {m : Definition} (same : procedures.Perm others) :
    d.DefinesAmong procedures m ↔ d.DefinesAmong others m := by
  simp only [Descriptor.DefinesAmong, Descriptor.OccursAmong, same.mem_iff]

/-- **The order of procedures** does not decide whether they are exported, which enums and
interfaces are declared, or what functions a procedure gets.  And what comes later in the list
changes nothing in the sections of what comes before. -/
theorem exportClient_order (options : ExportOptions) (procedures : List Procedure) :
    (∀ others, procedures.Perm others →
      ((∃ a, exportClient options procedures = .ok a) ↔
        ∃ b, exportClient options others = .ok b) ∧
      ∀ a b, exportClient options procedures = .ok a → exportClient options others = .ok b →
        (∀ E, E ∈ a.enums ↔ E ∈ b.enums) ∧ (∀ E, E ∈ a.interfaces ↔ E ∈ b.interfaces) ∧
        ∀ p ∈ procedures, ∃ c c', a.callers.filter (·.procedure = p.name) = [c] ∧
          b.callers.filter (·.procedure = p.name) = [c'] ∧ SameInterface c c') ∧
    ∀ rest a, exportClient options (procedures ++ rest) = .ok a →
      ∃ b, exportClient options procedures = .ok b ∧ a.Extends b := by
  refine ⟨fun others same => ⟨?_, fun a b ha hb => ⟨fun E => ?_, fun E => ?_, fun p hp => ?_⟩⟩,
    fun rest a => exists_extends⟩
  · rw [exists_exportClient, exists_exportClient]
    exact ⟨fun h => h.perm same, fun h => h.perm same.symm⟩
  · simp only [mem_enums ha, mem_enums hb, definesAmong_perm same]
  · simp only [mem_interfaces ha, mem_interfaces hb, definesAmong_perm same]
  · obtain ⟨c, hc, header⟩ := exists_caller ha hp
    obtain ⟨c', hc', header'⟩ := exists_caller hb (same.mem_iff.1 hp)
    exact ⟨c, c', hc, hc', sameInterface_of_header (header.trans header'.symm)⟩

/-- Two procedures that share a record, in both orders, and the first of them alone. -/
theorem exportClient_order_visits :
    ∃ visit find save a b c, visit = Descriptor.record "Visit" [("on", .temporal .date)] false ∧
      find = Procedure.mk "Find" (.scalar .int) (.list visit) ∧
      save = Procedure.mk "Save" (.record "Draft" [("visit", visit)] false) (.scalar .bool) ∧
      exportClient ⟨none, none⟩ [find, save] = .ok a ∧
      exportClient ⟨none, none⟩ [save, find] = .ok b ∧
      exportClient ⟨none, none⟩ [find] = .ok c ∧
      (∀ E, E ∈ a.interfaces ↔ E ∈ b.interfaces) ∧
      (∃ f g, a.callers.filter (·.procedure = "Find") = [f] ∧
        b.callers.filter (·.procedure = "Find") = [g] ∧ f.stub = g.stub) ∧
      a.Extends c := by
  obtain ⟨visit, hvisit⟩ :
      ∃ d, d = Descriptor.record "Visit" [("on", .temporal .date)] false := ⟨_, rfl⟩
  obtain ⟨find, hfind⟩ : ∃ p, p = Procedure.mk "Find" (.scalar .int) (.list visit) := ⟨_, rfl⟩
  obtain ⟨save, hsave⟩ : ∃ p, p = Procedure.mk "Save"
      (.record "Draft" [("visit", visit)] false) (.scalar .bool) := ⟨_, rfl⟩
  have accepted : (exportClient ⟨none, none⟩ [find, save]).toBool = true := by
    rw [hfind, hsave, hvisit]
    rfl
  cases exported : exportClient ⟨none, none⟩ [find, save] with
  | error e =>
    rw [exported] at accepted
    cases accepted
  | ok a =>
    obtain ⟨permuted, -⟩ := exportClient_order ⟨none, none⟩ [find, save]
    obtain ⟨-, initial⟩ := exportClient_order ⟨none, none⟩ [find]
    obtain ⟨both, same⟩ := permuted [save, find] (.swap _ _ _)
    obtain ⟨b, swapped⟩ := both.1 ⟨a, exported⟩
    obtain ⟨c, alone, extended⟩ := initial [save] a exported
    obtain ⟨-, interfaces, callers⟩ := same a b exported swapped
    obtain ⟨f, g, hf, hg, agree⟩ := callers find (List.mem_cons_self ..)
    have named : find.name = "Find" := by rw [hfind]
    rw [named] at hf hg
    exact ⟨visit, find, save, a, b, c, hvisit, hfind, hsave, exported, swapped, alone, interfaces,
      ⟨f, g, hf, hg, agree.stub⟩, extended⟩

end Exported

end RpcBridge.Client
