import RpcBridge.Client.Conversion
import RpcBridge.Client.Prelude
import RpcBridge.Client.TypeExpr
import RpcBridge.Text.Invisible

/-!
# Client/Artifact — a generated client

A client consists of the runtime, a default address, the declarations of enums and interfaces, and
for every procedure three functions: one converts its parameters to what travels, one converts its
result back, and one makes the call.  The functions are put together from the types and the
statements of the procedure's `Caller`; text comes last (`Artifact.render`).
-/

namespace RpcBridge.Client

/-- A declaration of an enum or an interface. -/
structure Declaration where
  keyword : String
  name : String
  body : String

/-- The text of a declaration. -/
def Declaration.toText (d : Declaration) : String := s!"export {d.keyword} {d.name} {d.body}"

/-- A function: its name, its header up to the opening brace, and the lines of its body. -/
structure Function where
  name : String
  signature : String
  body : List String

/-- The text of a function. -/
def Function.toText (f : Function) : String :=
  f.signature ++ " \x7b\n" ++ "".intercalate (f.body.map fun l => "    " ++ l ++ "\n") ++ "\x7d"

/-- What is generated for one procedure. -/
structure Caller where
  procedure : String
  input : TypeExpr
  output : TypeExpr
  /-- Brings `params` to `preparedParams`. -/
  prepare : Code
  /-- Converts `data` in place. -/
  restore : Code

namespace Caller

/-- The parameters as the function that converts them takes them. -/
def params : Place := .root "params"

/-- The parameters as they travel. -/
def preparedParams : Place := .root "preparedParams"

/-- The result, before and after its conversion. -/
def data : Place := .root "data"

/-- The name of the function that converts parameters. -/
def prepareName (c : Caller) : String := s!"_{c.procedure}ParamsToPrimitive"

/-- The name of the function that converts a result. -/
def restoreName (c : Caller) : String := s!"_{c.procedure}PrimitiveToResult"

/-- The statements that prepare the parameters: a copy, unless something is converted. -/
def prepareBody (c : Caller) : List Statement :=
  if c.prepare.transforms then c.prepare.body else [.assign preparedParams (.place params)]

/-- The statements that restore a result: none, unless something is converted. -/
def restoreBody (c : Caller) : List Statement :=
  if c.restore.transforms then c.restore.body else []

/-- The function that converts parameters. -/
def prepareFunction (c : Caller) : Function where
  name := c.prepareName
  signature := s!"function {c.prepareName}(params: {c.input.toText}): any"
  body := "let preparedParams: any;" :: Statement.printAll c.prepareBody ++
    ["return preparedParams;"]

/-- The function that converts a result. -/
def restoreFunction (c : Caller) : Function where
  name := c.restoreName
  signature := s!"function {c.restoreName}(data: any): {c.output.toText}"
  body := Statement.printAll c.restoreBody ++ ["return data;"]

/-- The function that makes the call. -/
def stub (c : Caller) : Function :=
  let input := c.input.toText
  let output := c.output.toText
  let method := Json.quote c.procedure
  let name := s!"call{c.procedure}"
  { name
    signature := s!"export function {name}(params: {input}): AbortableRequest<{output}>"
    body := [s!"return abortableFetch<{input}, {output}>({method}, params, " ++
      s!"{c.prepareName}, {c.restoreName});"] }

end Caller

/-- A generated client. -/
structure Artifact where
  prelude : String
  url? : Option String
  declarations : Declarations
  callers : List Caller

namespace Artifact

/-- The declarations of enums. -/
def enums (a : Artifact) : List Declaration :=
  a.declarations.enums.entries.map fun e => ⟨"enum", e.1, e.2⟩

/-- The declarations of interfaces. -/
def interfaces (a : Artifact) : List Declaration :=
  a.declarations.interfaces.entries.map fun e => ⟨"interface", e.1, e.2⟩

/-- The functions that convert parameters. -/
def prepareFunctions (a : Artifact) : List Function := a.callers.map (·.prepareFunction)

/-- The functions that convert results. -/
def restoreFunctions (a : Artifact) : List Function := a.callers.map (·.restoreFunction)

/-- The functions that make calls. -/
def stubs (a : Artifact) : List Function := a.callers.map (·.stub)

/-- Every function, section by section. -/
def functions (a : Artifact) : List Function :=
  a.prepareFunctions ++ a.restoreFunctions ++ a.stubs

/-- The function of a name. -/
def function? (a : Artifact) (name : String) : Option Function :=
  a.functions.find? (·.name = name)

/-- The enum of a name. -/
def enum? (a : Artifact) (name : String) : Option Declaration := a.enums.find? (·.name = name)

/-- The interface of a name. -/
def interface? (a : Artifact) (name : String) : Option Declaration :=
  a.interfaces.find? (·.name = name)

/-- The line that sets the default address. -/
def urlLine (url : String) : String := "rpcConfig.url = " ++ Json.quote url ++ ";"

/-- The pieces behind the runtime, in order. -/
def pieces (a : Artifact) : List String :=
  (a.url?.map urlLine).toList ++ a.enums.map (·.toText) ++ a.interfaces.map (·.toText) ++
    a.functions.map (·.toText)

/-- The text of a client: its pieces, an empty line in front of each. -/
def render (a : Artifact) : String :=
  Text.trimEnd a.prelude ++ "\n" ++ "".intercalate (a.pieces.map fun p => "\n" ++ p ++ "\n")

end Artifact

end RpcBridge.Client
