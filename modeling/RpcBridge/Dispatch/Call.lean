import RpcBridge.Dispatch.Envelope
import RpcBridge.Dispatch.Registry
import RpcBridge.Wire.Decode

/-!
# Dispatch/Call — from a request to its response

A call passes its guards in order, decodes its parameters, runs the body and encodes the result;
whatever fails ends it.  Guards and bodies are the caller's own, so a run keeps a list of `Event`s
that says which of them were started, in order and with what input.

An error becomes a response if the dispatcher's `mapError` makes an error object of it; otherwise it
is the caller's.
-/

namespace RpcBridge

/-- Something of the caller's that a dispatcher starts. -/
inductive Event where
  | guard (name : String)
  | awaitedGuard (name : String)
  | body (input : Value)

/-- A step that starts guards and bodies and may fail. -/
abbrev Running (α : Type) := ExceptT RpcError (StateM (List Event)) α

namespace Running

/-- A step that starts something of the caller's. -/
def start {α : Type} (event : Event) (r : Except RpcError α) : Running α :=
  fun events => (r, events ++ [event])

/-- A step that starts something of the caller's on an input, which is what is recorded of it. -/
def apply {α β : Type} (event : α → Event) (f : α → Except RpcError β) (input : α) : Running β :=
  start (event input) (f input)

/-- A step that starts nothing. -/
def lift {α : Type} (r : Except RpcError α) : Running α := fun events => (r, events)

end Running

/-- Whether a caller awaits what it calls. -/
inductive Mode where
  | blocking
  | awaiting
deriving DecidableEq

namespace Handler

variable {C : Type}

/-- Passes the guards, one after the other. -/
def passGuards (event : String → Event) (context : C) : List (Guard C) → Running Unit
  | [] => Running.lift (.ok ())
  | g :: rest => do
    Running.start (event g.name) (g.check context)
    passGuards event context rest

/-- What is behind the guards: the parameters are read, the body is run on what was read, and its
result is written. -/
def serve (h : Handler C) (params : Json) (context : C) : Running Json := do
  let input ← Running.lift ((h.procedure.input.decode params).mapError (.validation "params"))
  let output ← Running.apply .body (h.body · context) input
  Running.lift ((h.procedure.output.encode output).mapError (.validation "result"))

/-- Runs a handler on parameters at once. -/
def invoke (h : Handler C) (params : Json) (context : C) : Running Json := do
  passGuards .guard context h.guards
  h.serve params context

/-- Runs a handler on parameters and awaits it; its guards are of both kinds. -/
def invokeAwaited (h : Handler C) (params : Json) (context : C) : Running Json := do
  passGuards .guard context h.guards
  passGuards .awaitedGuard context h.awaitedGuards
  h.serve params context

end Handler

/-- Handlers, and what becomes of their errors. -/
structure Dispatcher (C : Type) where
  registry : Registry C
  mapError : RpcError → C → Option Json

namespace Dispatcher

variable {C : Type}

/-- The dispatcher without handlers that answers requests it cannot make sense of. -/
def empty : Dispatcher C := ⟨.empty, fun e _ => Response.validationErrors e⟩

/-- The response to an error, or the error itself. -/
def answerError (d : Dispatcher C) (context : C) (id : Json) (e : RpcError) :
    Except RpcError Json :=
  match d.mapError e context with
  | some error => .ok (Response.ofError id error)
  | none => .error e

/-- The response to the outcome of a run; no outcome means that there is no such method. -/
def answer (d : Dispatcher C) (context : C) (id : Json) :
    Except RpcError (Option Json) → Except RpcError Json
  | .ok (some result) => .ok (Response.ofResult id result)
  | .ok none => .ok (Response.ofError id Response.unknownMethod)
  | .error e => d.answerError context id e

/-- Runs the handler a request names, if there is one, at once. -/
def dispatch (d : Dispatcher C) (request : Request) (context : C) : Running (Option Json) :=
  match d.registry.find? request.method with
  | none => Running.lift (.ok none)
  | some h =>
    if h.awaited then Running.lift (.error (.awaitedOnly h.name))
    else do return some (← h.invoke request.params context)

/-- Runs the handler a request names, if there is one, and awaits it if it has to be. -/
def dispatchAwaiting (d : Dispatcher C) (request : Request) (context : C) :
    Running (Option Json) :=
  match d.registry.find? request.method with
  | none => Running.lift (.ok none)
  | some h =>
    if h.awaited then do return some (← h.invokeAwaited request.params context)
    else do return some (← h.invoke request.params context)

/-- Runs the handler a request names, if there is one. -/
def run (d : Dispatcher C) (mode : Mode) (request : Request) (context : C) :
    Running (Option Json) :=
  match mode with
  | .blocking => d.dispatch request context
  | .awaiting => d.dispatchAwaiting request context

/-- The response to a request in the form of JSON, with the events on the way. -/
def callJson (d : Dispatcher C) (mode : Mode) (request : Json) (context : C) :
    Except RpcError Json × List Event :=
  match Request.ofJson request with
  | .error m => (d.answerError context .null (.invalidRequest m.message), [])
  | .ok r =>
    let (outcome, events) := (d.run mode r context).run []
    (d.answer context (.ofInt64 r.id) outcome, events)

/-- The response to a request in the form of text, with the events on the way. -/
def call (d : Dispatcher C) (mode : Mode) (body : List Symbol) (context : C) :
    Except RpcError String × List Event :=
  let (response, events) :=
    match Json.parseSymbols body with
    | .ok request => d.callJson mode request context
    | .error f => (d.answerError context .null (.invalidRequest (f.messageIn body)), [])
  (response.map Json.compact, events)

end Dispatcher

end RpcBridge
