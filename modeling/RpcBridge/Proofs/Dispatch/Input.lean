import Mathlib
import RpcBridge.Dispatch.Call
import RpcBridge.Proofs.Wire.Typed

/-!
# Proofs/Dispatch/Input — what a procedure's body sees

A body is started only by the run of its handler, and there only on what the descriptor of the
procedure's input made of the parameters.  So the typing of `Proofs/Wire/Typed` is a promise to the
bodies: whatever arrives at a dispatcher, a body sees values of its procedure's input type only
(`Dispatcher.holds_input`).
-/

namespace RpcBridge

/-! ## What a step starts -/

namespace Running

variable {α β : Type} {P : Event → Prop}

/-- Whatever the step starts satisfies a property. -/
def Starts (x : Running α) (P : Event → Prop) : Prop :=
  ∀ events, ∃ started, (x.run events).2 = events ++ started ∧ ∀ e ∈ started, P e

theorem starts_lift (r : Except RpcError α) : (lift r).Starts P := fun events =>
  ⟨[], (List.append_nil events).symm, fun _ he => absurd he List.not_mem_nil⟩

theorem starts_start {event : Event} (h : P event) (r : Except RpcError α) :
    (start event r).Starts P := fun _ =>
  ⟨[event], rfl, fun _ he => List.mem_singleton.1 he ▸ h⟩

theorem starts_apply {event : α → Event} {input : α} (h : P (event input))
    (f : α → Except RpcError β) : (apply event f input).Starts P := starts_start h _

theorem run_lift (r : Except RpcError α) (events : List Event) : (lift r).run events = (r, events) :=
  rfl

theorem run_apply (event : α → Event) (f : α → Except RpcError β) (input : α)
    (events : List Event) :
    (apply event f input).run events = (f input, events ++ [event input]) := rfl

/-- The run of a step that another one follows. -/
theorem run_bind (x : Running α) (f : α → Running β) (events : List Event) :
    (x >>= f).run events = match (x.run events).1 with
      | .ok a => (f a).run (x.run events).2
      | .error e => (.error e, (x.run events).2) := by
  simp only [ExceptT.run, bind, ExceptT.bind, ExceptT.mk, StateT.bind, ExceptT.bindCont]
  rcases x events with ⟨r | a, s⟩ <;> rfl

/-- The step that follows may rely on what the first one came to. -/
theorem Starts.bind {x : Running α} {f : α → Running β} (first : x.Starts P)
    (next : ∀ a, (∃ events, (x.run events).1 = .ok a) → (f a).Starts P) : (x >>= f).Starts P := by
  intro events
  obtain ⟨started, log, each⟩ := first events
  rw [run_bind]
  cases outcome : (x.run events).1 with
  | error e => exact ⟨started, log, each⟩
  | ok a =>
    obtain ⟨more, log', each'⟩ := next a ⟨events, outcome⟩ (x.run events).2
    refine ⟨started ++ more, ?_, fun e he => (List.mem_append.1 he).elim (each e) (each' e)⟩
    change ((f a).run (x.run events).2).2 = _
    rw [log', log, List.append_assoc]

end Running

/-! ## A run and its events -/

namespace Handler

variable {C : Type}

/-- The guards start nothing but guards. -/
theorem starts_passGuards {P : Event → Prop} {event : String → Event} (h : ∀ name, P (event name))
    (context : C) (guards : List (Guard C)) : (passGuards event context guards).Starts P := by
  induction guards with
  | nil => exact Running.starts_lift _
  | cons g rest ih => exact (Running.starts_start (h g.name) _).bind fun _ _ => ih

/-- Of the events, a body is started only on what a descriptor reads. -/
def Feeds (d : Descriptor) (params : Json) (e : Event) : Prop :=
  ∀ v, e = .body v → d.decode params = .ok v

/-- Behind the guards, the body is started on the value that is read. -/
theorem starts_serve (h : Handler C) (params : Json) (context : C) :
    (h.serve params context).Starts (Feeds h.procedure.input params) := by
  refine (Running.starts_lift _).bind fun input ⟨_, read⟩ => ?_
  refine (Running.starts_apply (fun v here => ?_) _).bind fun _ _ => Running.starts_lift _
  cases here
  exact mapError_eq_ok.1 read

/-- **A handler starts its body on the value read for its input type, and on nothing else.** -/
theorem starts_invoke (h : Handler C) (params : Json) (context : C) :
    (h.invoke params context).Starts (Feeds h.procedure.input params) :=
  (starts_passGuards (fun _ => nofun) context h.guards).bind fun _ _ =>
    h.starts_serve params context

theorem starts_invokeAwaited (h : Handler C) (params : Json) (context : C) :
    (h.invokeAwaited params context).Starts (Feeds h.procedure.input params) :=
  (starts_passGuards (fun _ => nofun) context h.guards).bind fun _ _ =>
    (starts_passGuards (fun _ => nofun) context h.awaitedGuards).bind fun _ _ =>
      h.starts_serve params context

end Handler

namespace Dispatcher

variable {C : Type}

/-- A dispatcher starts a body only for a handler that the request names. -/
theorem starts_run (d : Dispatcher C) (mode : Mode) (request : Request) (context : C) :
    (d.run mode request context).Starts fun e => ∃ h, d.registry.find? request.method = some h ∧
      Handler.Feeds h.procedure.input request.params e := by
  have answers {h : Handler C} {x : Running Json} (found : d.registry.find? request.method = some h)
      (starts : x.Starts (Handler.Feeds h.procedure.input request.params)) :
      (do return some (← x) : Running (Option Json)).Starts fun e =>
        ∃ h, d.registry.find? request.method = some h ∧
          Handler.Feeds h.procedure.input request.params e := by
    refine Running.Starts.bind (fun events => ?_) fun _ _ => Running.starts_lift (.ok _)
    obtain ⟨started, log, each⟩ := starts events
    exact ⟨started, log, fun e he => ⟨h, found, each e he⟩⟩
  cases mode with
  | blocking =>
    rw [run, dispatch]
    cases found : d.registry.find? request.method with
    | none => exact Running.starts_lift _
    | some h =>
      dsimp only
      split
      · exact Running.starts_lift _
      · exact found ▸ answers found (h.starts_invoke request.params context)
  | awaiting =>
    rw [run, dispatchAwaiting]
    cases found : d.registry.find? request.method with
    | none => exact Running.starts_lift _
    | some h =>
      dsimp only
      split
      · exact found ▸ answers found (h.starts_invokeAwaited request.params context)
      · exact found ▸ answers found (h.starts_invoke request.params context)

/-- Where the events of a call in the form of JSON come from. -/
theorem body_of_callJson {d : Dispatcher C} {mode : Mode} {request : Json} {context : C} {v : Value}
    (h : .body v ∈ (d.callJson mode request context).2) :
    ∃ r handler, Request.ofJson request = .ok r ∧ d.registry.find? r.method = some handler ∧
      handler.procedure.input.decode r.params = .ok v := by
  unfold callJson at h
  cases read : Request.ofJson request with
  | error m =>
    rw [read] at h
    cases h
  | ok r =>
    rw [read] at h
    obtain ⟨started, log, each⟩ := d.starts_run mode r context []
    change .body v ∈ ((d.run mode r context).run []).2 at h
    rw [log, List.nil_append] at h
    obtain ⟨handler, found, fed⟩ := each _ h
    exact ⟨r, handler, rfl, found, fed v rfl⟩

/-- A text that is JSON starts what the JSON starts. -/
theorem events_of_call (d : Dispatcher C) (mode : Mode) {text : List Symbol} {request : Json}
    (parsed : Json.parseSymbols text = .ok request) (context : C) :
    (d.call mode text context).2 = (d.callJson mode request context).2 := by
  rw [call, parsed]

/-- Where the events of a call come from. -/
theorem body_of_call {d : Dispatcher C} {mode : Mode} {body : List Symbol} {context : C} {v : Value}
    (h : .body v ∈ (d.call mode body context).2) :
    ∃ request r handler, Json.parseSymbols body = .ok request ∧ Request.ofJson request = .ok r ∧
      d.registry.find? r.method = some handler ∧
        handler.procedure.input.decode r.params = .ok v := by
  cases parsed : Json.parseSymbols body with
  | error f =>
    rw [call, parsed] at h
    cases h
  | ok request =>
    obtain ⟨r, handler, read, found, decoded⟩ :=
      body_of_callJson (d.events_of_call mode parsed context ▸ h)
    exact ⟨request, r, handler, rfl, read, found, decoded⟩

/-- **What is read has the type it is read for**, if the fields of each record have distinct names,
**and so has what a body sees**: whether a request arrives as text or as JSON, the handler it names
is given values of its procedure's input type only. -/
theorem holds_input :
    (∀ (d : Descriptor) (j : Json) (v : Value), d.Distinct → d.decode j = .ok v → d.Holds v) ∧
    (∀ (disp : Dispatcher C) (mode : Mode) (request : Json) (context : C) (v : Value),
      .body v ∈ (disp.callJson mode request context).2 →
        ∃ r h, Request.ofJson request = .ok r ∧ disp.registry.find? r.method = some h ∧
          (h.procedure.input.Distinct → h.procedure.input.Holds v)) ∧
    ∀ (disp : Dispatcher C) (mode : Mode) (text : List Symbol) (context : C) (v : Value),
      .body v ∈ (disp.call mode text context).2 →
        ∃ request r h, Json.parseSymbols text = .ok request ∧ Request.ofJson request = .ok r ∧
          disp.registry.find? r.method = some h ∧
            (h.procedure.input.Distinct → h.procedure.input.Holds v) := by
  refine ⟨fun d j v => Descriptor.holds_of_decode, fun disp mode request context v started => ?_,
    fun disp mode text context v started => ?_⟩
  · obtain ⟨r, h, read, found, decoded⟩ := body_of_callJson started
    exact ⟨r, h, read, found, fun distinct => Descriptor.holds_of_decode distinct decoded⟩
  · obtain ⟨request, r, h, parsed, read, found, decoded⟩ := body_of_call started
    exact ⟨request, r, h, parsed, read, found, fun distinct =>
      Descriptor.holds_of_decode distinct decoded⟩

/-- A page of dates that is asked for, with a date in short form and a member too many. -/
theorem holds_input_page :
    let page := Descriptor.application
      (.template "Page" ["T"] [("items", .list (.param "T")), ("next", .optional (.param "T"))])
      [.temporal .date]
    let turn : Handler Unit := ⟨⟨"turn", page, .scalar .none⟩, false, [], [], fun _ _ => .ok .null⟩
    let disp : Dispatcher Unit := ⟨⟨[turn], by decide⟩, fun _ _ => none⟩
    let params := Json.object [("items", .array [.string "2024-2-29"]), ("next", .null)]
    let request := Json.array [.number (.whole ⟨7, by decide, by decide⟩), .string "turn", params]
    let text := Symbol.ofText
      "[7, \"turn\", \x7b\"items\": [\"2024-2-29\"], \"next\": null\x7d]"
    let v := Value.record "Page" [("items", .list [.date ⟨⟨2024, 2, 29⟩, by decide⟩]),
      ("next", .null)]
    (page.Distinct ∧ page.decode params = .ok v ∧ page.Holds v) ∧
    (.body v ∈ (disp.callJson .blocking request ()).2 ∧
      ∃ r h, Request.ofJson request = .ok r ∧ disp.registry.find? r.method = some h ∧
        (h.procedure.input.Distinct → h.procedure.input.Holds v)) ∧
    (.body v ∈ (disp.call .blocking text ()).2 ∧
      ∃ request r h, Json.parseSymbols text = .ok request ∧ Request.ofJson request = .ok r ∧
        disp.registry.find? r.method = some h ∧
          (h.procedure.input.Distinct → h.procedure.input.Holds v)) := by
  intro page turn disp params request text v
  have distinct : page.Distinct := Descriptor.distinct_of_parts (by decide)
  have read : page.decode params = .ok v := by cbv
  have parsed : Json.parseSymbols text = .ok request := by
    unfold text request params
    cbv
  have events : (disp.callJson .blocking request ()).2 = [.body v] := by cbv
  have started : .body v ∈ (disp.callJson .blocking request ()).2 := by
    rw [events]
    exact List.mem_singleton_self _
  have called : .body v ∈ (disp.call .blocking text ()).2 := by
    rw [disp.events_of_call .blocking parsed]
    exact started
  obtain ⟨ofDecode, ofJson, ofText⟩ := @holds_input Unit
  exact ⟨⟨distinct, read, ofDecode page params v distinct read⟩,
    ⟨started, ofJson disp .blocking request () v started⟩,
    called, ofText disp .blocking text () v called⟩

end Dispatcher

end RpcBridge
