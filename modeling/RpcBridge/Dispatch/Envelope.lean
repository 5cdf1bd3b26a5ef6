import RpcBridge.Json.Parts
import RpcBridge.Wire.Error

/-!
# Dispatch/Envelope — requests, responses and errors

A request is an object with a number, the name of a method and parameters, or an array of these
three.  A response carries the number of its request and either a result or an error.
-/

namespace RpcBridge

open Json (Misfit)

/-- Why a call, or a step on the way to it, fails. -/
inductive RpcError where
  | duplicateProcedure (name : String)
  | invalidRequest (message : String)
  /-- A value that cannot cross the wire, under a name for the whole value. -/
  | validation (root : String) (e : WireError)
  | permissionDenied (message : String)
  | failed (procedure message : String)
  /-- A procedure that has to be awaited, called without awaiting. -/
  | awaitedOnly (name : String)
  | malformedJson (message : String)

namespace RpcError

/-- The text of an error. -/
def message : RpcError → String
  | .duplicateProcedure name => s!"non unique procedure name '{name}'"
  | .invalidRequest message => s!"invalid request: {message}"
  | .validation root e => s!"validation error: {e.message root}"
  | .permissionDenied message => s!"permission denied: {message}"
  | .failed procedure message => s!"procedure '{procedure}' failed: {message}"
  | .awaitedOnly name => s!"procedure '{name}' is asynchronous; dispatch it with call_async"
  | .malformedJson message => s!"json error: {message}"

end RpcError

/-- A request. -/
structure Request where
  id : Int64
  method : String
  params : Json

/-- A signed word. -/
def readInt64 : Json → Except Misfit Int64
  | j@(.number (.whole n)) =>
    match n.toInt64? with
    | some i => .ok i
    | none => .error (.wrongValue (.ofJson j) "i64")
  | j => Misfit.expected "i64" j

/-- The request a JSON value holds. -/
def Request.ofJson (j : Json) : Except Misfit Request := do
  let title := "struct RpcRequest"
  (← partsOf title j).threeOuter title ⟨0, "id", readInt64⟩ ⟨1, "method", readString⟩
    ⟨2, "params", .ok⟩ .mk

namespace Response

/-- The code of an unknown method. -/
def methodNotFound : Json := .ofInt64 (-32601)

/-- The code of a request that cannot be made sense of. -/
def invalidRequest : Json := .ofInt64 (-32600)

/-- A response with a result. -/
def ofResult (id result : Json) : Json :=
  .object [("jsonrpc", .string "2.0"), ("result", result), ("id", id)]

/-- A response with an error. -/
def ofError (id error : Json) : Json :=
  .object [("jsonrpc", .string "2.0"), ("error", error), ("id", id)]

/-- The error of an unknown method. -/
def unknownMethod : Json :=
  .object [("code", methodNotFound), ("message", .string "Method not found")]

/-- The error object of an envelope or of parameters that do not fit; all other errors have
none. -/
def validationErrors (e : RpcError) : Option Json :=
  let object (detail : Json) : Json :=
    .object [("code", invalidRequest), ("message", .string "Validation error"),
      ("details", .array [detail])]
  match e with
  | .invalidRequest message =>
    some (object (.object [("loc", .array []), ("msg", .string message),
      ("type", .string "invalid_request")]))
  | .validation root e => some (object (e.detail root))
  | _ => none

end Response

end RpcBridge
