import RpcBridge.Client.Error

/-!
# Client/Catalog — declarations with an index of their names

A catalog keeps declarations in the order in which they were first registered, and an index that
says at which place the body of a name stands.  Names are looked up in the index alone.  Nothing in
the type ties the index to the list, so the index might lead to a place where nothing stands; then
there is no outcome at all.  That it never does is what registering sees to.
-/

namespace RpcBridge.Client

/-- Named bodies, in the order of their registration, and the places of their names. -/
structure Catalog where
  entries : List (String × String)
  index : List (String × Nat)

namespace Catalog

/-- The catalog without declarations. -/
def empty : Catalog := ⟨[], []⟩

/-- The body at a place. -/
def bodyAt (c : Catalog) (i : Nat) : Option String := c.entries[i]?.map (·.2)

/-- The body of a name, if the name is there; no outcome where the index leads astray. -/
def get? (c : Catalog) (name : String) : Option (Option String) :=
  (c.index.lookup name).mapM c.bodyAt

/-- Whether a name is registered. -/
def contains (c : Catalog) (name : String) : Bool := (c.index.lookup name).isSome

/-- The names, in the order of their registration. -/
def names (c : Catalog) : List String := c.entries.map (·.1)

/-- The catalog with one more declaration, at the end. -/
def entered (c : Catalog) (name body : String) : Catalog where
  entries := c.entries ++ [(name, body)]
  index := putEntry c.index name c.entries.length

/-- Enters a new name at the end; a name that is there keeps its body, and can only be registered
with the same one again. -/
def register (name body : String) : ExceptT ExportError (StateT Catalog Option) Unit := do
  let c ← get
  match c.index.lookup name with
  | none => set (c.entered name body)
  | some i =>
    let existing ← c.bodyAt i
    if existing ≠ body then throw (.nameConflict name existing body)

end Catalog

end RpcBridge.Client
