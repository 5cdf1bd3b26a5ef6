import RpcBridge.Proofs.Client.Exporting
import RpcBridge.Proofs.Wire.Unsupported

/-!
# Proofs/Client/Supported — what a client is generated for, a service has a use for

The generator refuses every shape with an obstacle in it, wherever it stands; a service notices an
obstacle only when a value leads there.  In between stands `Shape.Supported`: no obstacle can be
reached.

* `supported_of_convert` — what is converted is supported;
* `understood_decode`, `understood_encode` — a service has a use for what is supported;
* `not_unsupported_of_exportClient` — both together, for every procedure of a client.
-/

namespace RpcBridge

/-- A shape without obstacles.  Of a transparent record that is applied to nothing it asks for a
single field. -/
inductive Shape.Supported : Shape → Prop where
  | scalar (kind : ScalarKind) : Supported (.scalar kind)
  | temporal (kind : TemporalKind) : Supported (.temporal kind)
  | enum (e : EnumDef) : Supported (.enum e)
  | list {element : Shape} (inner : element.Supported) : Supported (.list element)
  | tuple {items : List Shape} (inner : ∀ s ∈ items, s.Supported) : Supported (.tuple items)
  | mapping {key value : Shape} (keys : key.Supported) (values : value.Supported) :
    Supported (.mapping key value)
  | optional {inner : Shape} (present : inner.Supported) : Supported (.optional inner)
  | record {name : String} {fields : List (String × Shape)} (inner : ∀ f ∈ fields, f.2.Supported) :
    Supported (.record name fields)
  | wrapper {name field : String} {inner : Shape} (wrapped : inner.Supported) :
    Supported (.wrapper name field inner)
  | opened {origin : Descriptor} {name field : String} {inner : Shape} (wrapped : inner.Supported) :
    Supported (.opened origin name [(field, inner)])

namespace Client

/-! ## What is converted -/

section Converted

variable {direction : Direction} {source target : Place} {n m : Nat} {code : Code}

theorem supported_of_convertItems {items : List Shape} {start : Nat}
    (each : ∀ s ∈ items, ∀ {source target n code m},
      Yields (convert direction s source target) n code m → s.Supported)
    (h : Yields (convertItems direction items start source target) n code m) :
    ∀ s ∈ items, s.Supported := by
  induction items generalizing start n code with
  | nil => exact fun _ hs => nomatch hs
  | cons s rest ih =>
    rw [List.forall_mem_cons] at each ⊢
    obtain ⟨head, between, tail, first, others, -⟩ := convertItems_cons h
    exact ⟨each.1 first, ih each.2 others⟩

theorem supported_of_convertFields {record : String} {fields : List (String × Shape)}
    (each : ∀ f ∈ fields, ∀ {source target n code m},
      Yields (convert direction f.2 source target) n code m → f.2.Supported)
    (h : Yields (convertFields direction record fields source target) n code m) :
    ∀ f ∈ fields, f.2.Supported := by
  induction fields generalizing n code with
  | nil => exact fun _ hf => nomatch hf
  | cons f rest ih =>
    rw [List.forall_mem_cons] at each ⊢
    obtain ⟨head, between, tail, -, first, others, -⟩ := convertFields_cons h
    exact ⟨each.1 first, ih each.2 others⟩

/-- **What is converted is supported**: the generator visits every part of a shape. -/
theorem supported_of_convert {s : Shape}
    (h : Yields (convert direction s source target) n code m) : s.Supported := by
  induction s generalizing source target n code m with
  | scalar kind => exact .scalar kind
  | temporal kind => exact .temporal kind
  | enum e => exact .enum e
  | list element ih =>
    obtain ⟨inner, generated, -⟩ := convert_list h
    exact .list (ih generated)
  | mapping key value ihKey ihValue =>
    obtain ⟨keys, between, walked, generated, ⟨-, values, -⟩ | ⟨-, values, -⟩⟩ :=
      convert_mapping h
    · exact .mapping (ihKey generated) (ihValue values)
    · exact .mapping (ihKey generated) (ihValue values)
  | tuple items ih =>
    obtain ⟨inner, generated, -⟩ := convert_tuple h
    exact .tuple (supported_of_convertItems (fun s hs => ih s hs) generated)
  | optional inner ih =>
    obtain ⟨present, generated, -⟩ := convert_optional h
    exact .optional (ih generated)
  | record name fields ih =>
    obtain ⟨inner, generated, -⟩ := convert_record h
    exact .record (supported_of_convertFields (fun f hf => ih f hf) generated)
  | wrapper _ _ inner ih => exact .wrapper (ih (convert_wrapper h))
  | opened _ _ fields ih =>
    obtain ⟨field, inner, rfl, generated⟩ := convert_opened h
    exact .opened (ih _ (List.mem_singleton.2 rfl) generated)
  | bareTemplate => exact (convert_bareTemplate h).elim
  | blocked => exact (convert_blocked h).elim

end Converted

end Client

/-! ## What a service has a use for -/

/-- No obstacle stands in a supported shape. -/
theorem Shape.Supported.not_blocked {s : Shape} (h : s.Supported) (d : Descriptor)
    (obstacle : Obstacle) : ¬(Shape.blocked d obstacle).OccursIn s := by
  induction h with
  | scalar | temporal | enum => exact fun occurs => nomatch occurs
  | list _ ih =>
    intro occurs
    cases occurs with
    | list inner => exact ih inner
  | tuple _ ih =>
    intro occurs
    cases occurs with
    | tuple hs inner => exact ih _ hs inner
  | mapping _ _ ihKey ihValue =>
    intro occurs
    cases occurs with
    | key inner => exact ihKey inner
    | value inner => exact ihValue inner
  | optional _ ih =>
    intro occurs
    cases occurs with
    | optional present => exact ih present
  | record _ ih =>
    intro occurs
    cases occurs with
    | record hf inner => exact ih _ hf inner
  | wrapper _ ih =>
    intro occurs
    cases occurs with
    | wrapper wrapped => exact ih wrapped
  | opened _ ih =>
    intro occurs
    cases occurs with
    | opened hf inner =>
      obtain rfl := List.mem_singleton.1 hf
      exact ih inner

namespace Wire

/-- **A service can tell what is wrong with a JSON value of a supported shape.** -/
theorem understood_decode {s : Shape} (h : s.Supported) (j : Json) (e : WireError)
    (failed : decode s j = .error e) (d : Descriptor) (obstacle : Obstacle) :
    e.cause ≠ .unsupported d obstacle :=
  fun cause => h.not_blocked d obstacle (blames_decode s j e failed d obstacle cause)

/-- **A service can tell what is wrong with a value of a supported shape.** -/
theorem understood_encode {s : Shape} (h : s.Supported) (v : Value) (e : WireError)
    (failed : encode s v = .error e) (d : Descriptor) (obstacle : Obstacle) :
    e.cause ≠ .unsupported d obstacle :=
  fun cause => h.not_blocked d obstacle (blames_encode s v e failed d obstacle cause)

end Wire

/-! ## Clients -/

namespace Client

/-- The code of a procedure is that of its input and its output. -/
theorem code_of_exportProcedure {p : Procedure} {r next : Resolver} {caller : Caller}
    (h : Yields (exportProcedure p) r caller next) :
    (∃ n m, Yields (convert .out p.input.shape Caller.params Caller.preparedParams) n
        caller.prepare m) ∧
      ∃ n m, Yields (convert .back p.output.shape Caller.data Caller.data) n caller.restore m := by
  obtain ⟨-, -, -, between, prepared, restored⟩ := yields_exportProcedure.1 h
  exact ⟨⟨_, _, prepared⟩, ⟨_, _, restored⟩⟩

theorem code_of_exportProcedures {seen : List String} {r last : Resolver}
    {procedures : List Procedure} {callers : List Caller}
    (h : exportProcedures seen r procedures = .ok (callers, last)) :
    ∀ p ∈ procedures, ∃ start caller next, Yields (exportProcedure p) start caller next := by
  induction procedures generalizing seen r callers last with
  | nil => exact fun _ hp => nomatch hp
  | cons p rest ih =>
    obtain ⟨-, caller, next, others, exported, exportedRest, -⟩ := exportProcedures_cons.1 h
    rw [List.forall_mem_cons]
    exact ⟨⟨r, caller, next, exported⟩, ih exportedRest⟩

/-- **What a client is generated for, a service never calls unsupported**: neither when it reads
an input, whatever is sent, nor when it writes an output, whatever the procedure returns. -/
theorem not_unsupported_of_exportClient {options : ExportOptions} {procedures : List Procedure}
    {a : Artifact} (h : exportClient options procedures = .ok a) :
    ∀ p ∈ procedures,
      (∀ (j : Json) (e : WireError), p.input.decode j = .error e →
        ∀ d obstacle, e.cause ≠ .unsupported d obstacle) ∧
      (∀ (v : Value) (e : WireError), p.output.encode v = .error e →
        ∀ d obstacle, e.cause ≠ .unsupported d obstacle) := by
  intro p hp
  obtain ⟨⟨callers, last⟩, exported, -⟩ := bind_eq_ok.1 h
  obtain ⟨_, _, _, generated⟩ := code_of_exportProcedures exported p hp
  obtain ⟨⟨_, _, prepared⟩, ⟨_, _, restored⟩⟩ := code_of_exportProcedure generated
  exact ⟨Wire.understood_decode (supported_of_convert prepared),
    Wire.understood_encode (supported_of_convert restored)⟩

/-- A client for a procedure that takes a page of dates and gives back a record, applied to
nothing. -/
theorem not_unsupported_of_exportClient_page :
    ∃ p a, p = ⟨"Count", .application (.template "Page" ["T"] [("items", .list (.param "T"))])
        [.temporal .date], .application (.record "Count" [("n", .scalar .int)] false) []⟩ ∧
      exportClient ⟨none, none⟩ [p] = .ok a ∧
      (∀ (j : Json) (e : WireError), p.input.decode j = .error e →
        ∀ d obstacle, e.cause ≠ .unsupported d obstacle) ∧
      (∀ (v : Value) (e : WireError), p.output.encode v = .error e →
        ∀ d obstacle, e.cause ≠ .unsupported d obstacle) := by
  obtain ⟨p, hp⟩ : ∃ p : Procedure, p = ⟨"Count",
      .application (.template "Page" ["T"] [("items", .list (.param "T"))]) [.temporal .date],
      .application (.record "Count" [("n", .scalar .int)] false) []⟩ := ⟨_, rfl⟩
  have accepted : (exportClient ⟨none, none⟩ [p]).toBool = true := by
    rw [hp]
    rfl
  cases exported : exportClient ⟨none, none⟩ [p] with
  | error e =>
    rw [exported] at accepted
    cases accepted
  | ok a =>
    obtain ⟨input, output⟩ := not_unsupported_of_exportClient exported p (List.mem_singleton.2 rfl)
    exact ⟨p, a, hp, exported, input, output⟩

end Client

end RpcBridge
