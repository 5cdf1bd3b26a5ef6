import RpcBridge.Proofs.Dispatch.Hooks

/-!
# Proofs/Dispatch/Modes — calling at once and awaiting

A handler that is called at once and one that is awaited run through two bodies of code, and so do
the two kinds of calls.  They agree where they should: a request that names no handler that has to
be awaited is answered alike by both kinds of calls, and a caller that awaits does not notice
whether a handler has to be awaited (`call_agrees`).  Alike means: with the same response or the
same error, and with the same hooks and bodies started in the same order.
-/

namespace RpcBridge

variable {C : Type}

namespace Handler

/-- The handler to be awaited, with no further guards. -/
def await (h : Handler C) : Handler C := { h with awaited := true, awaitedGuards := [] }

/-- The handler to be awaited if it is among some that could be called at once. -/
def awaitAmong (among : String → Bool) (h : Handler C) : Handler C :=
  if !h.awaited && among h.name then h.await else h

theorem name_awaitAmong (among : String → Bool) (h : Handler C) :
    (h.awaitAmong among).name = h.name := by
  rw [awaitAmong]
  split <;> rfl

/-- It has the same hooks. -/
theorem hooks_awaitAmong (among : String → Bool) (h : Handler C) :
    (h.awaitAmong among).hooks = h.hooks := by
  rw [awaitAmong]
  split
  · next chosen =>
    obtain ⟨blocking, -⟩ := Bool.and_eq_true_iff.1 chosen
    rw [Bool.not_eq_true'] at blocking
    rw [hooks, hooks, blocking]
    rfl
  · rfl

theorem serve_awaitAmong (among : String → Bool) (h : Handler C) :
    (h.awaitAmong among).serve = h.serve := by
  rw [awaitAmong]
  split <;> rfl

end Handler

namespace Registry

/-- The registry with some of the handlers to be awaited. -/
def await (r : Registry C) (among : String → Bool) : Registry C :=
  ⟨r.handlers.map (Handler.awaitAmong among), by
    have same : (Handler.name ∘ Handler.awaitAmong among : Handler C → String) = Handler.name :=
      funext (Handler.name_awaitAmong among)
    rw [List.map_map, same]
    exact r.distinct⟩

theorem find?_await (r : Registry C) (among : String → Bool) (name : String) :
    (r.await among).find? name = (r.find? name).map (Handler.awaitAmong among) := by
  rw [find?, await, List.find?_map, find?]
  congr 2
  funext h
  rw [Function.comp, Handler.name_awaitAmong]

end Registry

namespace Dispatcher

/-- The dispatcher with some of the handlers to be awaited. -/
def await (d : Dispatcher C) (among : String → Bool) : Dispatcher C :=
  { d with registry := d.registry.await among }

/-- A text names a handler that has to be awaited. -/
def NamesAwaited (d : Dispatcher C) (text : List Symbol) : Prop :=
  ∃ request r h, Json.parseSymbols text = .ok request ∧ Request.ofJson request = .ok r ∧
    d.registry.find? r.method = some h ∧ h.awaited = true

theorem run_awaiting_eq_blocking {d : Dispatcher C} {r : Request}
    (blocking : ∀ h, d.registry.find? r.method = some h → h.awaited = false) (context : C) :
    d.run .awaiting r context = d.run .blocking r context := by
  rw [run, run, dispatch, dispatchAwaiting]
  cases named : d.registry.find? r.method with
  | none => rfl
  | some h => simp [blocking h named]

theorem run_await (d : Dispatcher C) (among : String → Bool) (r : Request) (context : C) :
    (d.await among).run .awaiting r context = d.run .awaiting r context := by
  have found := d.registry.find?_await among r.method
  cases named : d.registry.find? r.method with
  | none =>
    rw [named, Option.map_none] at found
    rw [run, run, dispatchAwaiting, dispatchAwaiting, named, await, found]
  | some h =>
    rw [named, Option.map_some] at found
    have replaced : (d.await among).registry.find? r.method = some (h.awaitAmong among) := found
    rw [run_of_named named, run_of_named replaced, Handler.hooks_awaitAmong,
      Handler.serve_awaitAmong]
    simp

/-- Calls agree on a text if their runs agree on the request in it. -/
theorem call_congr {d d' : Dispatcher C} {mode mode' : Mode} {text : List Symbol} {context : C}
    (mapError : d.mapError = d'.mapError)
    (runs : ∀ request r, Json.parseSymbols text = .ok request → Request.ofJson request = .ok r →
      d.run mode r context = d'.run mode' r context) :
    d.call mode text context = d'.call mode' text context := by
  have answers (id : Json) (e : RpcError) :
      d.answerError context id e = d'.answerError context id e := by
    rw [answerError, answerError, mapError]
  cases parsed : Json.parseSymbols text with
  | error f =>
    rw [call, call, parsed]
    dsimp only
    rw [answers]
  | ok request =>
    cases readable : Request.ofJson request with
    | error m =>
      rw [call, call, parsed]
      dsimp only
      rw [callJson, callJson, readable]
      dsimp only
      rw [answers]
    | ok r =>
      rw [call_of_readable parsed readable, call_of_readable parsed readable,
        runs request r parsed readable]
      congr 2
      rcases ((d'.run mode' r context).run []).1 with e | _ | result
      · exact answers _ e
      · rfl
      · rfl

/-- **Calling at once and awaiting agree.**  A text that names no handler that has to be awaited is
answered alike by a call that awaits and by one that does not; and whichever handlers are replaced
by ones that have to be awaited, with the same guards and the same body, a call that awaits answers
every text as before. -/
theorem call_agrees (d : Dispatcher C) (context : C) :
    (∀ text, ¬d.NamesAwaited text → d.call .awaiting text context = d.call .blocking text context) ∧
    ∀ among text, (d.await among).call .awaiting text context = d.call .awaiting text context := by
  refine ⟨fun text free => call_congr rfl fun request r parsed readable => ?_,
    fun among text => call_congr rfl fun _ r _ _ => d.run_await among r context⟩
  refine run_awaiting_eq_blocking (fun h named => Bool.eq_false_iff.2 fun awaited => ?_) context
  exact free ⟨request, r, h, parsed, readable, named, awaited⟩

/-- A handler that can be called at once beside one that has to be awaited: a request for the first
is answered alike by both kinds of calls, also after it has to be awaited itself. -/
theorem call_agrees_sum :
    let passes : List (Guard Unit) := [⟨"open", fun _ => .ok ()⟩]
    let refuses : List (Guard Unit) := [⟨"shut", fun _ => .error (.permissionDenied "shut")⟩]
    let sum : Handler Unit := ⟨⟨"sum", .list (.scalar .int), .scalar .int⟩, false, passes, [],
      fun _ _ => .ok (.int 3)⟩
    let roll : Handler Unit := ⟨⟨"roll", .scalar .none, .scalar .int⟩, true, passes, refuses,
      fun _ _ => .ok (.int 4)⟩
    let disp : Dispatcher Unit := ⟨⟨[roll, sum], by decide⟩, fun _ _ => none⟩
    let text := Symbol.ofText "[7, \"sum\", [1, 2]]"
    let events := [Event.guard "open", .body (.list [.int 1, .int 2])]
    ¬disp.NamesAwaited text ∧ (disp.call .blocking text ()).2 = events ∧
      disp.call .awaiting text () = disp.call .blocking text () ∧
      (disp.await (· = "sum")).call .awaiting text () = disp.call .awaiting text () := by
  intro passes refuses sum roll disp text events
  let whole (n : Int) (low : -2 ^ (63 : Nat) ≤ n) (high : n < 2 ^ (64 : Nat)) : Json :=
    .number (.whole ⟨n, low, high⟩)
  let numbers : Json := .array [whole 1 (by decide) (by decide), whole 2 (by decide) (by decide)]
  let request : Json := .array [whole 7 (by decide) (by decide), .string "sum", numbers]
  have parsed : Json.parseSymbols text = .ok request := by
    unfold text request numbers whole
    cbv
  have free : ¬disp.NamesAwaited text := by
    rintro ⟨_, _, h, parsed', readable, named, awaited⟩
    rw [parsed] at parsed'
    cases parsed'
    cases readable
    cases named
    cases awaited
  have called : (disp.callJson .blocking request ()).2 = events := by cbv
  rw [← disp.events_of_call .blocking parsed] at called
  obtain ⟨alike, replaced⟩ := disp.call_agrees ()
  exact ⟨free, called, alike text free, replaced (· = "sum") text⟩

end Dispatcher

end RpcBridge
