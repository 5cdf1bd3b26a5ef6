import RpcBridge.Client.Artifact
import RpcBridge.Procedure.Basic

/-!
# Client/Export — clients out of procedures

Procedure by procedure: first the types of its input and output, then the statements that convert
them.  Declarations and the numbering of temporaries are shared by all procedures of a client.
-/

namespace RpcBridge.Client

/-- What the procedures of a client share: the declarations and the number of the next
temporary. -/
structure Resolver where
  declarations : Declarations
  counter : Nat

namespace Resolver

/-- Nothing declared, no temporary made. -/
def empty : Resolver := ⟨.empty, 0⟩

/-- A step on a resolver. -/
abbrev Resolving (α : Type) := ExceptT ExportError (StateM Resolver) α

/-- A step that registers declarations. -/
def declaring {α : Type} (step : Declaring α) : Resolving α := fun r =>
  let (result, after) := step r.declarations
  (result, { r with declarations := after })

/-- A step that makes temporaries. -/
def generating {α : Type} (step : Generating α) : Resolving α := fun r =>
  let (result, after) := step r.counter
  (result, { r with counter := after })

/-- The type of a descriptor. -/
def type (d : Descriptor) : Resolving TypeExpr := declaring (resolveType d)

/-- The statements that convert a value of a descriptor's type. -/
def code (direction : Direction) (d : Descriptor) (source target : Place) : Resolving Code :=
  generating (convert direction d.shape source target)

end Resolver

/-- What is generated for a procedure. -/
def exportProcedure (p : Procedure) : Resolver.Resolving Caller := do
  Resolver.declaring (Declaring.lift (checkIdentifier p.name))
  let input ← Resolver.type p.input
  let output ← Resolver.type p.output
  let prepare ← Resolver.code .out p.input Caller.params Caller.preparedParams
  let restore ← Resolver.code .back p.output Caller.data Caller.data
  return ⟨p.name, input, output, prepare, restore⟩

/-- What is generated for a list of procedures; the names in `seen` are taken. -/
def exportProcedures (seen : List String) (r : Resolver) :
    List Procedure → Except ExportError (List Caller × Resolver)
  | [] => .ok ([], r)
  | p :: rest =>
    if seen.contains p.name then .error (.duplicateProcedure p.name)
    else match exportProcedure p r with
      | (.error e, _) => .error (.inProcedure p.name e)
      | (.ok caller, next) => do
        let (callers, last) ← exportProcedures (p.name :: seen) next rest
        return (caller :: callers, last)

/-- The choices of whoever generates a client. -/
structure ExportOptions where
  /-- The default address. -/
  url? : Option String
  /-- Takes the place of the built-in runtime. -/
  prelude? : Option String

/-- The client of a list of procedures. -/
def exportClient (options : ExportOptions) (procedures : List Procedure) :
    Except ExportError Artifact := do
  let (callers, resolver) ← exportProcedures [] .empty procedures
  return ⟨options.prelude?.getD prelude, options.url?, resolver.declarations, callers⟩

end RpcBridge.Client
