import RpcBridge.Dispatch.Registry

/-!
# Dispatch/Directory — handlers with an index of their names

A directory holds handlers in the order in which they were registered, and an index that says at
which place the handler of a name stands.  Names are looked up in the index alone, for handlers of
both kinds.  Nothing in the type ties the index to the list: that they agree is what registering
sees to.
-/

namespace RpcBridge

/-- Handlers, in the order in which they were registered, and the places of their names. -/
structure Directory (C : Type) where
  handlers : List (Handler C)
  index : List (String × Nat)

namespace Directory

variable {C : Type}

/-- The directory without handlers. -/
def empty : Directory C := ⟨[], []⟩

/-- Whether a name is taken. -/
def contains (d : Directory C) (name : String) : Bool := (d.index.lookup name).isSome

/-- Enters a handler, of whichever kind, at the end. -/
def register (h : Handler C) : ExceptT RpcError (StateM (Directory C)) Unit := do
  let d ← get
  if d.contains h.name then throw (.duplicateProcedure h.name)
  set ({ handlers := d.handlers ++ [h]
         index := putEntry d.index h.name d.handlers.length } : Directory C)

/-- The handler of a name. -/
def find? (d : Directory C) (name : String) : Option (Handler C) := do
  d.handlers[← d.index.lookup name]?

/-- The handler of a name, if it can be called at once. -/
def findBlocking? (d : Directory C) (name : String) : Option (Handler C) :=
  (d.find? name).filter (!·.awaited)

/-- The handler of a name, if it has to be awaited. -/
def findAwaited? (d : Directory C) (name : String) : Option (Handler C) :=
  (d.find? name).filter (·.awaited)

/-- The procedures, in the order in which they were registered. -/
def procedures (d : Directory C) : List Procedure := d.handlers.map (·.procedure)

end Directory

end RpcBridge
