import RpcBridge.Proofs.Client.Calls
import RpcBridge.Proofs.Client.Parameters
import RpcBridge.Proofs.Client.Refused

/-!
# Proofs/Client/Context — the context of an error is the way to what it is about

An error about an unsupported type comes with a procedure and with fields.  They are added on the
way out of two recursions, one that renders types as they are written and one that makes statements
with the arguments of templates put in.  Either way the fields are exactly those that lead from the
procedure's input or output to the unsupported type, in that order: a step into a field adds one
entry, and no other step adds any.

* `Descriptor.Leads` — the steps from a descriptor to another one, and the fields among them;
* `pointsFrom_resolveType`, `pointsFrom_convert` — both recursions tell the fields they went into;
* `context_of_unsupported` — the context of an export that fails for an unsupported type.
-/

namespace RpcBridge

open Client

/-! ## Ways into a descriptor -/

/-- A way from a descriptor to another one that goes into the given fields, in that order, each with
the name of its record or template.  The fields of an application are those of the record it stands
for, named by its origin. -/
inductive Descriptor.Leads : Descriptor → List (String × String) → Descriptor → Prop where
  | here (d : Descriptor) : Leads d [] d
  /-- Into a container, a tuple, a dictionary, an optional type or a union. -/
  | component {c d x : Descriptor} {fields : List (String × String)} (hd : d ∈ c.components)
    (inner : Leads d fields x) : Leads c fields x
  | origin {origin x : Descriptor} {args : List Descriptor} {fields : List (String × String)}
    (inner : Leads origin fields x) : Leads (.application origin args) fields x
  | argument {origin d x : Descriptor} {args : List Descriptor} {fields : List (String × String)}
    (hd : d ∈ args) (inner : Leads d fields x) : Leads (.application origin args) fields x
  | record {name : String} {declared : List Field} {transparent : Bool} {f : Field}
    {fields : List (String × String)} {x : Descriptor} (hf : f ∈ declared)
    (inner : Leads f.2 fields x) :
    Leads (.record name declared transparent) ((name, f.1) :: fields) x
  /-- Into a field of a template as it is written. -/
  | template {name : String} {params : List String} {declared : List Field} {f : Field}
    {fields : List (String × String)} {x : Descriptor} (hf : f ∈ declared)
    (inner : Leads f.2 fields x) :
    Leads (.template name params declared) ((name, f.1) :: fields) x
  /-- Into a field of an application, with the arguments put in. -/
  | instanceField {origin : Descriptor} {args : List Descriptor} {i : Instance} {f : Field}
    {fields : List (String × String)} {x : Descriptor} (made : instantiate origin args = .ok i)
    (hf : f ∈ i.fields) (inner : Leads f.2 fields x) :
    Leads (.application origin args) ((i.name, f.1) :: fields) x

namespace Client

/-! ## Steps that tell the fields they went into -/

section Steps

variable {σ α β : Type} {leads leads' : List (String × String) → Descriptor → Prop}
  {step : ExceptT ExportError (StateM σ) α}

/-- How a field is told. -/
def entry (f : String × String) : String := s!"{f.1}.{f.2}"

/-- A step that fails for an unsupported type, if at all, where the fields of the error's context
lead to. -/
def Points (leads : List (String × String) → Descriptor → Prop)
    (step : ExceptT ExportError (StateM σ) α) : Prop :=
  ∀ start e finish, Fails step start e finish → ∀ x, e.descriptor? = some x →
    ∃ fields, e.context = fields.map entry ∧ leads fields x

namespace Points

theorem pure (a : α) : Points leads (Pure.pure a : ExceptT ExportError (StateM σ) α) :=
  fun _ _ _ failed => (not_fails_pure failed).elim

theorem bind {f : α → ExceptT ExportError (StateM σ) β} (first : Points leads step)
    (second : ∀ a, Points leads (f a)) : Points leads (step >>= f) := by
  intro start e finish failed
  rcases fails_bind.1 failed with failed | ⟨a, between, -, failed⟩
  · exact first start e finish failed
  · exact second a between e finish failed

/-- A step on a part of what the whole is about. -/
theorem whole (h : Points leads step) (up : ∀ fields x, leads fields x → leads' fields x) :
    Points leads' step := by
  intro start e finish failed x unsupported
  obtain ⟨fields, told, there⟩ := h start e finish failed x unsupported
  exact ⟨fields, told, up fields x there⟩

/-- A step that refuses a descriptor. -/
theorem refuse {d : Descriptor} {reason : Refusal} (here : leads [] d)
    (run : ∀ start, step start = (.error (.unsupported d reason), start)) : Points leads step := by
  intro start e finish failed x unsupported
  cases (run start).symm.trans failed
  cases unsupported
  exact ⟨[], rfl, here⟩

/-- A step that wraps the errors of another one into a field tells that field first. -/
theorem wrap {record field : String} {wrapped : ExceptT ExportError (StateM σ) α}
    (run : ∀ start, wrapped start =
      ((step start).1.mapError (.inField record field), (step start).2))
    (h : Points leads step)
    (up : ∀ fields x, leads fields x → leads' ((record, field) :: fields) x) :
    Points leads' wrapped := by
  intro start e finish failed x unsupported
  have ran := (run start).symm.trans failed
  cases result : (step start).1 with
  | ok a =>
    rw [result] at ran
    cases ran
  | error inner =>
    rw [result] at ran
    cases ran
    obtain ⟨fields, told, there⟩ := h start inner _ (Prod.ext result rfl) x unsupported
    refine ⟨(record, field) :: fields, ?_, up fields x there⟩
    rw [ExportError.context, told, List.map_cons]
    rfl

end Points

end Steps

/-! ### Steps that fail for other reasons -/

theorem descriptor?_of_checkIdentifier {name : String} {e : ExportError}
    (h : checkIdentifier name = .error e) : e.descriptor? = none := by
  unfold checkIdentifier at h
  split at h <;> cases h
  rfl

theorem descriptor?_of_register {t : Table} {name body : String} {e : ExportError}
    (h : t.register name body = .error e) : e.descriptor? = none := by
  unfold Table.register at h
  split at h
  · cases h
  · split at h <;> cases h
    rfl

namespace Points

variable {σ α : Type} {leads : List (String × String) → Descriptor → Prop}

/-- A step that does not fail for an unsupported type. -/
theorem silent {step : ExceptT ExportError (StateM σ) α}
    (h : ∀ start e finish, Fails step start e finish → e.descriptor? = none) :
    Points leads step := by
  intro start e finish failed x unsupported
  rw [h start e finish failed] at unsupported
  cases unsupported

theorem temp (letter : String) : Points leads (Generating.temp letter) :=
  silent fun _ _ _ failed => (Generating.not_fails_temp failed).elim

theorem check {name : String} {step : ExceptT ExportError (StateM σ) Unit}
    (run : ∀ start, step start = (checkIdentifier name, start)) : Points leads step := by
  refine silent fun start e finish failed => ?_
  have refused : checkIdentifier name = .error e :=
    congrArg Prod.fst ((run start).symm.trans failed)
  exact descriptor?_of_checkIdentifier refused

/-- The check of the name of a field. -/
theorem checkField {record field name : String} {step : ExceptT ExportError (StateM σ) Unit}
    (run : ∀ start, step start =
      ((checkIdentifier name).mapError (.inField record field), start)) : Points leads step := by
  refine silent fun start e finish failed => ?_
  have refused : (checkIdentifier name).mapError (.inField record field) = .error e :=
    congrArg Prod.fst ((run start).symm.trans failed)
  cases inner : checkIdentifier name with
  | ok u =>
    rw [inner] at refused
    cases refused
  | error e' =>
    rw [inner] at refused
    cases refused
    rw [ExportError.descriptor?, ExportError.root, ← ExportError.descriptor?]
    exact descriptor?_of_checkIdentifier inner

theorem declareInterface (name body : String) :
    Points leads (Declaring.declareInterface name body) := by
  refine silent fun start e finish failed => ?_
  unfold Fails Declaring.declareInterface at failed
  split at failed
  · cases failed
  · next refused =>
    cases failed
    exact descriptor?_of_register refused

theorem declareEnum (name body : String) : Points leads (Declaring.declareEnum name body) := by
  refine silent fun start e finish failed => ?_
  unfold Fails Declaring.declareEnum at failed
  split at failed
  · cases failed
  · next refused =>
    cases failed
    exact descriptor?_of_register refused

theorem forIn {names : List α} {check : α → Declaring Unit} (each : ∀ a, Points leads (check a)) :
    Points leads (ForIn.forIn names PUnit.unit fun a _ => do
      check a
      Pure.pure (ForInStep.yield PUnit.unit)) := by
  induction names with
  | nil => exact .pure _
  | cons name rest ih =>
    simp only [List.forIn_cons, bind_assoc, pure_bind]
    exact (each name).bind fun _ => ih

end Points

/-! ## Types -/

/-- A step that points from a descriptor. -/
abbrev PointsFrom {σ α : Type} (d : Descriptor) (step : ExceptT ExportError (StateM σ) α) : Prop :=
  Points d.Leads step

section Types

variable {c d : Descriptor}

theorem pointsFrom_resolveTypes {ds : List Descriptor}
    (each : ∀ d ∈ ds, PointsFrom c (resolveType d)) : PointsFrom c (resolveTypes ds) := by
  induction ds with
  | nil => exact .pure _
  | cons d rest ih =>
    rw [List.forall_mem_cons] at each
    rw [resolveTypes_cons]
    exact each.1.bind fun _ => (ih each.2).bind fun _ => .pure _

/-- The fields of a record or template tell themselves. -/
theorem pointsFrom_resolveFields {record : String} {fields : List Field}
    (each : ∀ f ∈ fields, PointsFrom f.2 (resolveType f.2))
    (up : ∀ f ∈ fields, ∀ way x, f.2.Leads way x → c.Leads ((record, f.1) :: way) x) :
    PointsFrom c (resolveFields record fields) := by
  induction fields with
  | nil => exact .pure _
  | cons f rest ih =>
    rw [List.forall_mem_cons] at each up
    rw [resolveFields_cons]
    refine (Points.checkField fun _ => rfl).bind fun _ => ?_
    exact (Points.wrap (fun _ => rfl) each.1 up.1).bind fun _ =>
      (ih each.2 up.2).bind fun _ => .pure _

theorem leads_component (hd : d ∈ c.components) :
    ∀ fields x, d.Leads fields x → c.Leads fields x := fun _ _ => .component hd

/-- **Rendering a type tells the fields it went into.** -/
theorem pointsFrom_resolveType (d : Descriptor) : PointsFrom d (resolveType d) := by
  induction d with
  | scalar | temporal => exact .pure _
  | foreign => exact .refuse (.here _) fun _ => rfl
  | param name => exact (Points.check fun _ => rfl).bind fun _ => .pure _
  | list element ih | optional element ih =>
    exact (ih.whole (leads_component (List.mem_singleton_self _))).bind fun _ => .pure _
  | tuple items ih =>
    refine (pointsFrom_resolveTypes fun d hd => ?_).bind fun _ => .pure _
    exact (ih d hd).whole (leads_component hd)
  | variadic items ih =>
    rw [resolveType_variadic]
    split
    · next item =>
      have hd : item ∈ (Descriptor.variadic [item]).components := List.mem_singleton_self item
      exact ((ih _ hd).whole (leads_component hd)).bind fun _ => .pure _
    · exact .refuse (.here _) fun _ => rfl
  | mapping key value ihKey ihValue =>
    refine (ihKey.whole (leads_component (List.mem_cons_self ..))).bind fun _ => ?_
    exact (ihValue.whole (leads_component (.tail _ (List.mem_singleton_self _)))).bind
      fun _ => .pure _
  | union members ih =>
    rw [resolveType_union]
    split
    · exact .refuse (.here _) fun _ => rfl
    · refine (pointsFrom_resolveTypes fun d hd => ?_).bind fun _ => .pure _
      exact (ih d hd).whole (leads_component hd)
  | enum e =>
    refine (Points.check fun _ => rfl).bind fun _ => (Points.forIn fun m => ?_).bind fun _ => ?_
    · exact .checkField fun _ => rfl
    · exact (Points.declareEnum _ _).bind fun _ => .pure _
  | record name fields transparent ih =>
    cases transparent with
    | true =>
      rw [resolveType_wrapper]
      split
      · next field d =>
        have hf := List.mem_singleton_self (field, d)
        exact Points.wrap (fun _ => rfl) (ih _ hf) fun _ _ => .record hf
      · exact .refuse (.here _) fun _ => rfl
    | false =>
      rw [resolveType_record]
      refine (Points.check fun _ => rfl).bind fun _ => ?_
      refine (pointsFrom_resolveFields ih fun f hf _ _ => .record hf).bind fun _ => ?_
      exact (Points.declareInterface _ _).bind fun _ => .pure _
  | template name params fields ih =>
    rw [resolveType_template]
    refine (Points.check fun _ => rfl).bind fun _ => ?_
    refine (Points.forIn fun p => Points.check fun _ => rfl).bind fun _ => ?_
    refine (pointsFrom_resolveFields ih fun f hf _ _ => .template hf).bind fun _ => ?_
    exact (Points.declareInterface _ _).bind fun _ => .pure _
  | application origin args ihOrigin ihArgs =>
    rw [resolveType_application]
    split
    · exact .refuse (.here _) fun _ => rfl
    · refine (ihOrigin.whole fun _ _ => .origin).bind fun _ => ?_
      split
      · refine (pointsFrom_resolveTypes fun d hd => ?_).bind fun _ => .pure _
        exact (ihArgs d hd).whole fun _ _ => .argument hd
      · exact .pure _

end Types

/-! ## Statements -/

section Statements

variable {c : Descriptor} {self : Converter} {direction : Direction} {source target : Place}

theorem pointsFrom_itemsWith {items : List Descriptor}
    (each : ∀ d ∈ items, ∀ source target, PointsFrom c (self d source target)) (start : Nat) :
    PointsFrom c (itemsWith self items start source target) := by
  induction items generalizing start with
  | nil => exact .pure _
  | cons d rest ih =>
    rw [List.forall_mem_cons] at each
    rw [itemsWith]
    exact (each.1 _ _).bind fun _ => (ih each.2 _).bind fun _ => .pure _

theorem pointsFrom_fieldsWith {record : String} {fields : List Field}
    (each : ∀ f ∈ fields, ∀ source target, PointsFrom f.2 (self f.2 source target))
    (up : ∀ f ∈ fields, ∀ way x, f.2.Leads way x → c.Leads ((record, f.1) :: way) x) :
    PointsFrom c (fieldsWith self record fields source target) := by
  induction fields with
  | nil => exact .pure _
  | cons f rest ih =>
    rw [List.forall_mem_cons] at each up
    rw [fieldsWith]
    refine (Points.checkField fun _ => rfl).bind fun _ => ?_
    exact (Points.wrap (fun _ => rfl) (each.1 _ _) up.1).bind fun _ =>
      (ih each.2 up.2).bind fun _ => .pure _

theorem pointsFrom_listWith {element : Descriptor} (hd : element ∈ c.components)
    (each : ∀ source target, PointsFrom element (self element source target)) :
    PointsFrom c (listWith self direction element source target) := by
  rw [listWith]
  refine (Points.temp _).bind fun _ => ?_
  exact ((each _ _).whole (leads_component hd)).bind fun _ => .pure _

/-- A node tells the fields it goes into, if what it calls on does. -/
theorem pointsFrom_convertWith {d : Descriptor}
    (each : ∀ e, d.Calls e → ∀ source target, PointsFrom e (self e source target)) :
    PointsFrom d (convertWith self direction d source target) := by
  cases d with
  | scalar | enum | temporal => exact .pure _
  | template | param | foreign => exact .refuse (.here _) fun _ => rfl
  | list element =>
    rw [convertWith]
    exact pointsFrom_listWith (List.mem_singleton_self _) (each _ (.element element))
  | variadic items =>
    rw [convertWith]
    cases single : Descriptor.variadicItem items with
    | error e => exact .refuse (.here _) fun _ => rfl
    | ok item =>
      exact pointsFrom_listWith (Descriptor.mem_of_variadicItem single) (each _ (.variadic single))
  | tuple items =>
    rw [convertWith]
    refine (pointsFrom_itemsWith (fun d hd source target => ?_) 0).bind fun _ => .pure _
    exact (each d (.item hd) source target).whole (leads_component hd)
  | mapping key value =>
    rw [convertWith]
    refine (Points.temp _).bind fun _ => (Points.temp _).bind fun _ => ?_
    refine ((each _ (.key key value) _ _).whole (leads_component (List.mem_cons_self ..))).bind
      fun _ => ?_
    exact ((each _ (.value key value) _ _).whole
      (leads_component (.tail _ (List.mem_singleton_self _)))).bind fun _ => .pure _
  | optional inner =>
    rw [convertWith]
    exact ((each _ (.present inner) _ _).whole
      (leads_component (List.mem_singleton_self _))).bind fun _ => .pure _
  | union members =>
    rw [convertWith]
    cases member : Descriptor.optionalMember members with
    | error e => exact .refuse (.here _) fun _ => rfl
    | ok inner =>
      have hd : inner ∈ (Descriptor.union members).components :=
        Descriptor.mem_of_optionalMember member
      exact ((each _ (.member member) _ _).whole (leads_component hd)).bind fun _ => .pure _
  | record name fields transparent =>
    rw [convertWith]
    cases wraps : Descriptor.wrappedField name fields transparent with
    | error e => exact .refuse (.here _) fun _ => rfl
    | ok field =>
      cases field with
      | some field =>
        refine Points.wrap (fun _ => rfl) (each _ (.wrapped wraps) _ _) fun _ _ => .record ?_
        rw [Descriptor.eq_singleton_of_wrappedField wraps]
        exact List.mem_singleton_self field
      | none =>
        refine (pointsFrom_fieldsWith (fun f hf => each _ (.field wraps hf))
          fun f hf _ _ => .record hf).bind fun _ => .pure _
  | application origin args =>
    rw [convertWith]
    cases made : Descriptor.instantiate origin args with
    | error e => exact .refuse (.here _) fun _ => rfl
    | ok i =>
      cases origin with
      | template name params fields =>
        exact (pointsFrom_fieldsWith (fun f hf => each _ (.instanceField made hf))
          fun f hf _ _ => .instanceField made hf).bind fun _ => .pure _
      | record name fields transparent =>
        exact (each _ (.origin made) _ _).whole fun _ _ => .origin
      | _ => cases made

/-- **Making the statements of a descriptor tells the fields it went into**, those of an application
with the arguments put in. -/
theorem pointsFrom_convert (d : Descriptor) (source target : Place) :
    PointsFrom d (convert direction d.shape source target) := by
  -- on the price, as the calls go to cheaper descriptors only
  induction priced : d.price using Nat.strongRecOn generalizing d source target with
  | ind n ih =>
    subst priced
    rw [convert_shape]
    exact pointsFrom_convertWith fun e calls source target =>
      ih e.price (price_lt_of_calls calls) e source target rfl

end Statements

/-! ## Procedures -/

section Procedures

variable {leads : List (String × String) → Descriptor → Prop} {α : Type}

theorem Points.declaring {step : Declaring α} (h : Points leads step) :
    Points leads (Resolver.declaring step) := by
  intro r e after failed
  unfold Fails at failed
  rw [run_declaring] at failed
  injection failed with result
  exact h r.declarations e _ (Prod.ext result rfl)

theorem Points.generating {step : Generating α} (h : Points leads step) :
    Points leads (Resolver.generating step) :=
  fun r e _ failed => h r.counter e _ (fails_generating failed)

/-- The input or the output of a procedure. -/
def LeadsFrom (p : Procedure) (fields : List (String × String)) (x : Descriptor) : Prop :=
  p.input.Leads fields x ∨ p.output.Leads fields x

/-- A procedure that is refused for an unsupported type is so for a part of its input or output. -/
theorem points_exportProcedure (p : Procedure) : Points (LeadsFrom p) (exportProcedure p) := by
  have input (fields : List (String × String)) (x : Descriptor) :
      p.input.Leads fields x → LeadsFrom p fields x := .inl
  have output (fields : List (String × String)) (x : Descriptor) :
      p.output.Leads fields x → LeadsFrom p fields x := .inr
  rw [exportProcedure]
  refine (Points.declaring (.check fun _ => rfl)).bind fun _ => ?_
  refine (((pointsFrom_resolveType p.input).whole input).declaring).bind fun _ => ?_
  refine (((pointsFrom_resolveType p.output).whole output).declaring).bind fun _ => ?_
  refine (((pointsFrom_convert p.input _ _).whole input).generating).bind fun _ => ?_
  exact (((pointsFrom_convert p.output _ _).whole output).generating).bind fun _ => .pure _

/-- The export of a list that fails for an unsupported type fails at one of its procedures, behind
procedures that are exported. -/
theorem exists_refused {seen : List String} {r : Resolver} {procedures : List Procedure}
    {e : ExportError} {x : Descriptor} (h : exportProcedures seen r procedures = .error e)
    (unsupported : e.descriptor? = some x) :
    ∃ front p rest callers last inner after, procedures = front ++ p :: rest ∧
      exportProcedures seen r front = .ok (callers, last) ∧ p.name ∉ seen ∧
      p.name ∉ front.map (·.name) ∧ Fails (exportProcedure p) last inner after ∧
      e = .inProcedure p.name inner := by
  induction procedures generalizing seen r with
  | nil => cases h
  | cons p rest ih =>
    rw [exportProcedures] at h
    split at h
    · cases h
      cases unsupported
    · next new =>
      rw [List.contains_iff_mem] at new
      split at h
      · next inner after failed =>
        cases h
        exact ⟨[], p, rest, [], r, inner, after, rfl, rfl, new, List.not_mem_nil, failed, rfl⟩
      · next caller next exported =>
        rcases bind_eq_error.1 h with failed | ⟨_, -, impossible⟩
        · obtain ⟨front, q, rest, callers, last, inner, after, rfl, others, unseen, apart, refused,
            rfl⟩ := ih failed
          rw [List.mem_cons, not_or] at unseen
          refine ⟨p :: front, q, rest, caller :: callers, last, inner, after, rfl, ?_, unseen.2, ?_,
            refused, rfl⟩
          · exact exportProcedures_cons.2 ⟨new, caller, next, callers, exported, others, rfl⟩
          · rw [List.map_cons, List.mem_cons, not_or]
            exact ⟨unseen.1, apart⟩
        · cases impossible

/-- **The context of an error is the way to what it is about.**  An export that fails for an
unsupported type fails at the first procedure that cannot be exported.  The context names that
procedure, and then the fields that lead from its input or output to the unsupported type, no field
more and none less. -/
theorem context_of_unsupported {options : ExportOptions} {procedures : List Procedure}
    {e : ExportError} {x : Descriptor} (h : exportClient options procedures = .error e)
    (unsupported : e.descriptor? = some x) :
    ∃ front p rest fields, procedures = front ++ p :: rest ∧
      (∃ a, exportClient options front = .ok a) ∧
      exportClient options (front ++ [p]) = .error e ∧
      e.context = p.name :: fields.map (fun f => s!"{f.1}.{f.2}") ∧
      (p.input.Leads fields x ∨ p.output.Leads fields x) := by
  rw [exportClient] at h
  rcases bind_eq_error.1 h with failed | ⟨_, -, impossible⟩
  · obtain ⟨front, p, rest, callers, last, inner, after, rfl, exported, unseen, apart, refused,
      rfl⟩ := exists_refused failed unsupported
    obtain ⟨fields, told, there⟩ :=
      points_exportProcedure p last inner after refused x unsupported
    refine ⟨front, p, rest, fields, rfl, ⟨_, exportClient_eq_ok.2 ⟨callers, last, exported, rfl⟩⟩,
      ?_, ?_, there⟩
    · rw [exportClient, exportProcedures_eq_error exported unseen apart refused]
      rfl
    · rw [ExportError.context, told]
      rfl
  · cases impossible

/-- A tag of an unsupported type, applied in a field of the input of the second of three
procedures. -/
theorem context_of_unsupported_tag :
    let tag : Descriptor := .template "Tag" ["T"] [("value", .list (.param "T"))]
    let decimal : Descriptor := .foreign "Decimal"
    let ping : Procedure := ⟨"Ping", .scalar .none, .scalar .string⟩
    let pay : Procedure :=
      ⟨"Pay", .record "Payment" [("amount", .application tag [decimal])] false, .scalar .none⟩
    let e : ExportError := .inProcedure "Pay" (.inField "Payment" "amount"
      (.unsupported decimal (.obstacle (.foreign "Decimal"))))
    exportClient ⟨none, none⟩ [ping, pay, ping] = .error e ∧ e.descriptor? = some decimal ∧
      ∃ front p rest fields, [ping, pay, ping] = front ++ p :: rest ∧
        (∃ a, exportClient ⟨none, none⟩ front = .ok a) ∧
        exportClient ⟨none, none⟩ (front ++ [p]) = .error e ∧
        e.context = p.name :: fields.map (fun f => s!"{f.1}.{f.2}") ∧
        (p.input.Leads fields decimal ∨ p.output.Leads fields decimal) := by
  refine ⟨rfl, rfl, context_of_unsupported rfl rfl⟩

end Procedures

end Client

end RpcBridge
