import RpcBridge.Proofs.Dispatch.Input

/-!
# Proofs/Dispatch/Hooks — what a call starts, and in which order

The guards of a handler are its hooks: first those that are not awaited, then those that are.  A
call passes them in order and stops at the first that refuses; only then are the parameters looked
at, and only then is the body started (`Handler.run_serve`).  So a caller who is refused learns
nothing about its parameters (`call_disciplined`).
-/

namespace RpcBridge

/-- A guard as it is started: what is recorded of it, and what it checks. -/
structure Hook (C : Type) where
  event : Event
  check : C → Except RpcError Unit

variable {C : Type}

/-- The guards of a handler in the order in which they are passed; only an awaited handler has
guards that are awaited. -/
def Handler.hooks (h : Handler C) : List (Hook C) :=
  (h.guards.map fun g => ⟨.guard g.name, g.check⟩) ++
    if h.awaited then h.awaitedGuards.map fun g => ⟨.awaitedGuard g.name, g.check⟩ else []

namespace Running

/-- Passes hooks, one after the other. -/
def passHooks (context : C) : List (Hook C) → Running Unit
  | [] => lift (.ok ())
  | k :: rest => do
    start k.event (k.check context)
    passHooks context rest

theorem passHooks_append (context : C) (front back : List (Hook C)) :
    passHooks context (front ++ back) =
      passHooks context front >>= fun _ => passHooks context back := by
  induction front with
  | nil => rfl
  | cons k rest ih =>
    rw [List.cons_append, passHooks, ih, passHooks, bind_assoc]

/-- Hooks that all pass are all started, in order. -/
theorem passHooks_of_pass {context : C} {hooks : List (Hook C)}
    (pass : ∀ k ∈ hooks, k.check context = .ok ()) (events : List Event) :
    (passHooks context hooks).run events = (.ok (), events ++ hooks.map Hook.event) := by
  induction hooks generalizing events with
  | nil =>
    rw [List.map_nil, List.append_nil]
    rfl
  | cons k rest ih =>
    rw [List.forall_mem_cons] at pass
    have first : (start k.event (k.check context)).run events = (.ok (), events ++ [k.event]) := by
      rw [pass.1]
      rfl
    rw [passHooks, run_bind, first]
    dsimp only
    rw [ih pass.2, List.map_cons, List.append_assoc]
    rfl

/-- Nothing is started behind the first hook that refuses. -/
theorem passHooks_of_refused {context : C} {front back : List (Hook C)} {k : Hook C} {e : RpcError}
    (pass : ∀ k ∈ front, k.check context = .ok ()) (refused : k.check context = .error e)
    (events : List Event) : (passHooks context (front ++ k :: back)).run events =
      (.error e, events ++ (front.map Hook.event ++ [k.event])) := by
  have last (events : List Event) :
      (passHooks context (k :: back)).run events = (.error e, events ++ [k.event]) := by
    rw [passHooks, run_bind, refused]
    rfl
  rw [passHooks_append, run_bind, passHooks_of_pass pass]
  dsimp only
  rw [last, List.append_assoc]

end Running

/-- Hooks pass, or there is a first one that refuses. -/
theorem Hook.pass_or_refused (context : C) (hooks : List (Hook C)) :
    (∀ k ∈ hooks, k.check context = .ok ()) ∨ ∃ front k back e, hooks = front ++ k :: back ∧
      (∀ k ∈ front, k.check context = .ok ()) ∧ k.check context = .error e := by
  induction hooks with
  | nil => exact .inl (List.forall_mem_nil _)
  | cons k rest ih =>
    cases checked : k.check context with
    | error e => exact .inr ⟨[], k, rest, e, rfl, List.forall_mem_nil _, checked⟩
    | ok =>
      rcases ih with pass | ⟨front, k', back, e, rfl, pass, refused⟩
      · exact .inl (List.forall_mem_cons.2 ⟨checked, pass⟩)
      · exact .inr ⟨k :: front, k', back, e, rfl, List.forall_mem_cons.2 ⟨checked, pass⟩, refused⟩

namespace Handler

open Running

/-- No hook is taken for a body. -/
theorem body_not_mem_hooks (h : Handler C) (v : Value) : .body v ∉ h.hooks.map Hook.event := by
  rw [hooks]
  split <;> simp

/-- What a handler comes to behind its guards, events apart. -/
def outcome (h : Handler C) (params : Json) (context : C) : Except RpcError Json := do
  let input ← (h.procedure.input.decode params).mapError (.validation "params")
  let output ← h.body input context
  (h.procedure.output.encode output).mapError (.validation "result")

/-- The guards of one kind are hooks. -/
theorem passGuards_eq (event : String → Event) (context : C) (guards : List (Guard C)) :
    passGuards event context guards =
      passHooks context (guards.map fun g => ⟨event g.name, g.check⟩) := by
  induction guards with
  | nil => rfl
  | cons g rest ih => rw [passGuards, ih, List.map_cons, passHooks]

theorem invoke_eq {h : Handler C} (blocking : h.awaited = false) (params : Json) (context : C) :
    h.invoke params context =
      passHooks context h.hooks >>= fun _ => h.serve params context := by
  rw [invoke, passGuards_eq, hooks, if_neg (by simp [blocking]), List.append_nil]

theorem invokeAwaited_eq {h : Handler C} (awaited : h.awaited = true) (params : Json)
    (context : C) : h.invokeAwaited params context =
      passHooks context h.hooks >>= fun _ => h.serve params context := by
  rw [invokeAwaited, passGuards_eq, passGuards_eq, hooks, if_pos awaited, passHooks_append,
    bind_assoc]

/-- **Behind the guards**, the body is started once if the parameters can be read, and on what is
read; otherwise it is not started. -/
theorem run_serve (h : Handler C) (params : Json) (context : C) (events : List Event) :
    (h.serve params context).run events = (h.outcome params context, events ++
      match h.procedure.input.decode params with
      | .ok v => [.body v]
      | .error _ => []) := by
  rw [serve, outcome, run_bind, run_lift]
  cases h.procedure.input.decode params with
  | error e =>
    rw [List.append_nil]
    rfl
  | ok v =>
    simp only [mapError_ok, ok_bind]
    rw [run_bind, run_apply]
    cases h.body v context <;> rfl

end Handler

namespace Dispatcher

/-- What a call runs for a request that names a handler. -/
theorem run_of_named {d : Dispatcher C} {request : Request} {h : Handler C}
    (named : d.registry.find? request.method = some h) (mode : Mode) (context : C) :
    d.run mode request context =
      if h.awaited && mode = .blocking then Running.lift (.error (.awaitedOnly h.name))
      else Running.passHooks context h.hooks >>= fun _ =>
        h.serve request.params context >>= fun result => pure (some result) := by
  cases mode with
  | blocking =>
    rw [run, dispatch, named]
    cases kind : h.awaited with
    | true => simp [kind]
    | false => simp [kind, h.invoke_eq kind]
  | awaiting =>
    rw [run, dispatchAwaiting, named]
    cases kind : h.awaited with
    | true => simp [kind, h.invokeAwaited_eq kind]
    | false => simp [kind, h.invoke_eq kind]

/-- The answer to a text that holds a readable request. -/
theorem call_of_readable {d : Dispatcher C} {text : List Symbol} {request : Json} {r : Request}
    (parsed : Json.parseSymbols text = .ok request) (readable : Request.ofJson request = .ok r)
    (mode : Mode) (context : C) :
    d.call mode text context =
      ((d.answer context (.ofInt64 r.id) ((d.run mode r context).run []).1).map Json.compact,
        ((d.run mode r context).run []).2) := by
  rw [call, parsed]
  dsimp only
  rw [callJson, readable]
  rfl

section Named

variable {d : Dispatcher C} {mode : Mode} {context : C} {r : Request} {h : Handler C}
  (named : d.registry.find? r.method = some h)

include named

/-- A handler that has to be awaited is not called at once. -/
theorem run_awaitedOnly (barred : (h.awaited && mode = .blocking) = true) (events : List Event) :
    (d.run mode r context).run events = (.error (.awaitedOnly h.name), events) := by
  rw [run_of_named named, if_pos barred]
  rfl

variable (callable : ¬(h.awaited && mode = .blocking) = true)

include callable

/-- If all hooks pass, they are all started, and then the body on what is read of the parameters. -/
theorem run_of_pass (pass : ∀ k ∈ h.hooks, k.check context = .ok ()) :
    (d.run mode r context).run [] = ((h.outcome r.params context).map some,
      h.hooks.map Hook.event ++
        match h.procedure.input.decode r.params with
        | .ok v => [.body v]
        | .error _ => []) := by
  rw [run_of_named named, if_neg callable, Running.run_bind, Running.passHooks_of_pass pass]
  dsimp only
  rw [Running.run_bind, List.nil_append, h.run_serve]
  cases h.outcome r.params context <;> rfl

/-- If a hook refuses, nothing behind it is started, whatever the parameters are. -/
theorem run_of_refused {front back : List (Hook C)} {k : Hook C} {e : RpcError}
    (hooks : h.hooks = front ++ k :: back) (pass : ∀ k ∈ front, k.check context = .ok ())
    (refused : k.check context = .error e) :
    (d.run mode r context).run [] = (.error e, front.map Hook.event ++ [k.event]) := by
  rw [run_of_named named, if_neg callable, Running.run_bind, hooks,
    Running.passHooks_of_refused pass refused]
  rfl

end Named

/-- **A call passes the hooks in order and looks at the parameters only behind them.**  Of a
handler that is called in the way it can be, the hooks are started in order up to the first that
refuses; only if none does and the parameters can be read, the body is started, once and on what is
read, and the answer is that to what comes of it; and if one does, the answer is the same whatever
the parameters are.  A handler that has to be awaited starts nothing when it is called at once. -/
theorem call_disciplined (d : Dispatcher C) (mode : Mode) (text : List Symbol) (context : C)
    {request : Json} {r : Request} {h : Handler C} (parsed : Json.parseSymbols text = .ok request)
    (readable : Request.ofJson request = .ok r) (named : d.registry.find? r.method = some h) :
    (∀ v, .body v ∉ h.hooks.map Hook.event) ∧
    if h.awaited && mode = .blocking then
      d.call mode text context =
        ((d.answerError context (.ofInt64 r.id) (.awaitedOnly h.name)).map Json.compact, [])
    else
      ((∀ k ∈ h.hooks, k.check context = .ok ()) ∧
        (d.call mode text context).2 = h.hooks.map Hook.event ++
          (match h.procedure.input.decode r.params with
          | .ok v => [.body v]
          | .error _ => []) ∧
        (d.call mode text context).1 = (d.answer context (.ofInt64 r.id)
          ((h.outcome r.params context).map some)).map Json.compact) ∨
      ∃ front k back e, h.hooks = front ++ k :: back ∧
        (∀ k ∈ front, k.check context = .ok ()) ∧ k.check context = .error e ∧
        (d.call mode text context).2 = front.map Hook.event ++ [k.event] ∧
        ∀ text' request' r', Json.parseSymbols text' = .ok request' →
          Request.ofJson request' = .ok r' → r'.id = r.id → r'.method = r.method →
            d.call mode text' context = d.call mode text context := by
  refine ⟨h.body_not_mem_hooks, ?_⟩
  split
  · next barred =>
    rw [call_of_readable parsed readable, run_awaitedOnly named barred]
    rfl
  · next callable =>
    rw [call_of_readable parsed readable]
    rcases Hook.pass_or_refused context h.hooks with
      pass | ⟨front, k, back, e, hooks, pass, refused⟩
    · rw [run_of_pass named callable pass]
      exact .inl ⟨pass, rfl, rfl⟩
    · refine .inr ⟨front, k, back, e, hooks, pass, refused, ?_, ?_⟩
      · rw [run_of_refused named callable hooks pass refused]
      · intro text' request' r' parsed' readable' id method
        rw [call_of_readable parsed' readable', run_of_refused named callable hooks pass refused,
          run_of_refused (method ▸ named) callable hooks pass refused, id]

/-- Administrators only: who is none is refused behind a guard that passes, whatever is asked for;
an administrator is served if the parameters can be read. -/
theorem call_disciplined_roll :
    let guards : List (Guard Bool) := [⟨"open", fun _ => .ok ()⟩]
    let admin : Guard Bool := ⟨"admin", fun admin =>
      if admin then .ok () else .error (.permissionDenied "admin required")⟩
    let roll : Handler Bool := ⟨⟨"roll", .list (.scalar .int), .scalar .int⟩, true, guards, [admin],
      fun _ _ => .ok (.int 3)⟩
    let disp : Dispatcher Bool := ⟨⟨[roll], by decide⟩, fun _ _ => none⟩
    let fits := Symbol.ofText "[7, \"roll\", [1, 2]]"
    let fails := Symbol.ofText "[7, \"roll\", null]"
    let passed := [Event.guard "open", .awaitedGuard "admin"]
    disp.call .awaiting fits false = disp.call .awaiting fails false ∧
    (disp.call .awaiting fails false).2 = passed ∧
    (disp.call .awaiting fits true).2 = passed ++ [.body (.list [.int 1, .int 2])] ∧
    (disp.call .awaiting fits true).1 =
      .ok (Response.ofResult (.ofInt64 7) (.ofInt64 3)).compact ∧
    (disp.call .awaiting fails true).2 = passed ∧
    (disp.call .blocking fits true).2 = [] := by
  intro guards admin roll disp fits fails passed
  let whole (n : Int) (low : -2 ^ (63 : Nat) ≤ n) (high : n < 2 ^ (64 : Nat)) : Json :=
    .number (.whole ⟨n, low, high⟩)
  let request (params : Json) : Json :=
    .array [whole 7 (by decide) (by decide), .string "roll", params]
  let numbers : Json := .array [whole 1 (by decide) (by decide), whole 2 (by decide) (by decide)]
  have parsedFits : Json.parseSymbols fits = .ok (request numbers) := by
    unfold fits request numbers whole
    cbv
  have parsedFails : Json.parseSymbols fails = .ok (request .null) := by
    unfold fails request whole
    cbv
  have readable (params : Json) : Request.ofJson (request params) = .ok ⟨7, "roll", params⟩ := rfl
  have named : disp.registry.find? "roll" = some roll := rfl
  have served {text : List Symbol} {params : Json}
      (parsed : Json.parseSymbols text = .ok (request params)) :
      (disp.call .awaiting text true).2 = passed ++
        (match roll.procedure.input.decode params with
        | .ok v => [.body v]
        | .error _ => []) ∧
      (disp.call .awaiting text true).1 = (disp.answer true (.ofInt64 7)
        ((roll.outcome params true).map some)).map Json.compact := by
    obtain ⟨-, outcome⟩ :=
      disp.call_disciplined .awaiting text true parsed (readable params) named
    rw [if_neg (by decide)] at outcome
    rcases outcome with ⟨-, served⟩ | ⟨front, k, back, e, hooks, -, refused, -⟩
    · exact served
    · have passes : ∀ k ∈ roll.hooks, k.check true = .ok () := by
        simp [roll, guards, admin, Handler.hooks]
      rw [passes k (hooks ▸ List.mem_append_right front (.head back))] at refused
      cases refused
  have refused : (disp.call .awaiting fails false).2 = passed ∧
      disp.call .awaiting fits false = disp.call .awaiting fails false := by
    obtain ⟨-, outcome⟩ :=
      disp.call_disciplined .awaiting fails false parsedFails (readable .null) named
    rw [if_neg (by decide)] at outcome
    rcases outcome with ⟨pass, -⟩ | ⟨front, k, back, e, hooks, -, refused, events, same⟩
    · cases pass ⟨.awaitedGuard "admin", admin.check⟩ (.tail _ (.head _))
    · have second : front.map Hook.event ++ [k.event] = passed := by
        rcases front with _ | ⟨first, _ | ⟨second, rest⟩⟩
        · cases hooks
          cases refused
        · cases hooks
          rfl
        · have long := congrArg List.length hooks
          simp [roll, guards, Handler.hooks] at long
      exact ⟨events.trans second, same fits _ _ parsedFits (readable numbers) rfl rfl⟩
  have decoded : roll.procedure.input.decode numbers = .ok (.list [.int 1, .int 2]) := by cbv
  obtain ⟨e, misread⟩ : ∃ e, roll.procedure.input.decode .null = .error e := ⟨_, rfl⟩
  have barred := (disp.call_disciplined .blocking fits true parsedFits (readable numbers) named).2
  rw [if_pos (by decide)] at barred
  have three : roll.outcome numbers true = .ok (.ofInt64 3) := by
    rw [Handler.outcome, decoded]
    rfl
  refine ⟨refused.2, refused.1, ?_, ?_, ?_, by rw [barred]⟩
  · rw [(served parsedFits).1, decoded]
  · rw [(served parsedFits).2, three]
    rfl
  · rw [(served parsedFails).1, misread, List.append_nil]

end Dispatcher

end RpcBridge
