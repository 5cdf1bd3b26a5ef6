import RpcBridge.Client.Error

/-!
# Client/Table — declarations by name

A table of declarations keeps them in the order in which they were first registered.  Registering
a declaration again changes nothing; registering another one under its name is a conflict.
-/

namespace RpcBridge.Client

/-- Named bodies, in the order of their registration. -/
structure Table where
  entries : List (String × String)

namespace Table

/-- The table without declarations. -/
def empty : Table := ⟨[]⟩

/-- The body registered under a name. -/
def get? (t : Table) (name : String) : Option String := t.entries.lookup name

/-- Whether a name is registered. -/
def contains (t : Table) (name : String) : Bool := (t.get? name).isSome

/-- The names, in the order of their registration. -/
def names (t : Table) : List String := t.entries.map (·.1)

/-- The table with one more declaration. -/
def register (t : Table) (name body : String) : Except ExportError Table :=
  match t.get? name with
  | none => .ok ⟨t.entries ++ [(name, body)]⟩
  | some existing =>
    if existing = body then .ok t else .error (.nameConflict name existing body)

end Table

/-- The declarations of a client: its enums and its interfaces. -/
structure Declarations where
  enums : Table
  interfaces : Table

namespace Declarations

/-- No declarations. -/
def empty : Declarations := ⟨.empty, .empty⟩

/-- Whether nothing is declared. -/
def isEmpty (d : Declarations) : Bool := d.enums.entries.isEmpty && d.interfaces.entries.isEmpty

end Declarations

end RpcBridge.Client
