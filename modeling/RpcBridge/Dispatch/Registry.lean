import RpcBridge.Dispatch.Envelope
import RpcBridge.Procedure.Basic
import RpcBridge.Value.Basic

/-!
# Dispatch/Registry — procedures that can be called

A handler is a procedure together with what guards it and what it does, both as functions of a
context of the caller's.  A handler is called either at once or by awaiting it.  The handlers of a
registry have distinct names and keep the order in which they were registered.
-/

namespace RpcBridge

/-- A check that lets a call pass or refuses it. -/
structure Guard (C : Type) where
  name : String
  check : C → Except RpcError Unit

/-- A procedure that can be called. -/
structure Handler (C : Type) where
  procedure : Procedure
  /-- Whether a call has to be awaited. -/
  awaited : Bool
  guards : List (Guard C)
  /-- Guards that are awaited, after the others; only a call that is awaited has them. -/
  awaitedGuards : List (Guard C)
  body : Value → C → Except RpcError Value

/-- The name of a handler. -/
def Handler.name {C : Type} (h : Handler C) : String := h.procedure.name

/-- Handlers of distinct names, in the order in which they were registered. -/
structure Registry (C : Type) where
  handlers : List (Handler C)
  distinct : (handlers.map Handler.name).Nodup

namespace Registry

variable {C : Type}

/-- The registry without handlers. -/
def empty : Registry C := ⟨[], List.nodup_nil⟩

/-- The handler of a name. -/
def find? (r : Registry C) (name : String) : Option (Handler C) :=
  r.handlers.find? (·.name = name)

/-- Whether a name is taken. -/
def contains (r : Registry C) (name : String) : Bool := (r.find? name).isSome

/-- The handler of a name, if it can be called at once. -/
def findBlocking? (r : Registry C) (name : String) : Option (Handler C) :=
  (r.find? name).filter (!·.awaited)

/-- The handler of a name, if it has to be awaited. -/
def findAwaited? (r : Registry C) (name : String) : Option (Handler C) :=
  (r.find? name).filter (·.awaited)

/-- The registry with one more handler, unless the name is taken. -/
def register (r : Registry C) (h : Handler C) : Except RpcError (Registry C) :=
  if taken : h.name ∈ r.handlers.map Handler.name then .error (.duplicateProcedure h.name)
  else .ok ⟨r.handlers ++ [h], by
    rw [List.map_append, List.nodup_append]
    refine ⟨r.distinct, by simp, ?_⟩
    intro a ha b hb
    simp only [List.map_cons, List.map_nil, List.mem_singleton] at hb
    rintro rfl
    exact taken (hb ▸ ha)⟩

/-- The procedures, in the order in which they were registered. -/
def procedures (r : Registry C) : List Procedure := r.handlers.map (·.procedure)

end Registry

end RpcBridge
