import RpcBridge.Descriptor.Reading
import RpcBridge.Descriptor.Written

/-!
# Procedure/Basic — procedures and sets of procedures

A procedure is known by its name and by the types of its input and output.  The procedures of a
set have distinct names and keep the order in which they were added.
-/

namespace RpcBridge

/-- The name and the types of a procedure. -/
structure Procedure where
  name : String
  input : Descriptor
  output : Descriptor

namespace Procedure

/-- The procedure as JSON. -/
def toJson (p : Procedure) : Json :=
  .object [("name", .string p.name), ("input", p.input.toJson), ("output", p.output.toJson)]

/-- The procedure on one line. -/
def describe (p : Procedure) : String :=
  s!"{p.name}({p.input.toText}) -> {p.output.toText}"

end Procedure

/-- Procedures of distinct names, in the order in which they were added. -/
structure ProcedureSet where
  procedures : List Procedure
  distinct : (procedures.map (·.name)).Nodup

namespace ProcedureSet

/-- The empty set. -/
def empty : ProcedureSet := ⟨[], .nil⟩

/-- The names of the procedures, in order. -/
def names (s : ProcedureSet) : List String := s.procedures.map (·.name)

/-- The names of the procedures, in alphabetical order. -/
def sortedNames (s : ProcedureSet) : List String := s.names.mergeSort (fun a b => decide (a ≤ b))

/-- The set with one more procedure, unless the name is taken. -/
def insert? (s : ProcedureSet) (p : Procedure) : Option ProcedureSet :=
  if h : p.name ∈ s.procedures.map (·.name) then none
  else some ⟨s.procedures ++ [p], by
    rw [List.map_append, List.nodup_append]
    refine ⟨s.distinct, by simp, ?_⟩
    intro a ha b hb
    simp only [List.map_cons, List.map_nil, List.mem_singleton] at hb
    rintro rfl
    exact h (hb ▸ ha)⟩

/-- Adds a procedure to the set at hand; the failure is the name that is taken. -/
def insert (p : Procedure) : ExceptT String (StateM ProcedureSet) Unit := do
  match (← get).insert? p with
  | some t => set t
  | none => throw p.name

/-- The text of the complaint about a name that is taken. -/
def takenMessage (name : String) : String := s!"non unique procedure name '{name}'"

/-- The set of a list of procedures, or the first name that comes twice. -/
def ofList (ps : List Procedure) : Except String ProcedureSet :=
  ps.foldlM (fun s p => match s.insert? p with
    | some t => .ok t
    | none => .error p.name) empty

/-- The set as JSON. -/
def toJson (s : ProcedureSet) : Json :=
  .object [("procedures", .array (s.procedures.map (·.toJson)))]

/-- The set as a text on several lines. -/
def pretty (s : ProcedureSet) : String := s.toJson.pretty

end ProcedureSet

end RpcBridge
