import RpcBridge.Client.Export
import RpcBridge.Command.Error
import RpcBridge.Digest.Sha256
import RpcBridge.Procedure.Reading

/-!
# Command/Report — a client from a document of procedures

What the command line says about the sources of a client comes before what the configuration says
(`Settings`).  The document is read first, then the replacement of the runtime, and then the client
is generated.  A file is up to date if its text has the digest of the generated module.
-/

namespace RpcBridge.Command

/-- What a client is generated from. -/
structure Settings where
  schema : Path
  output? : Option Path
  url? : Option String
  prelude? : Option Path
deriving DecidableEq

namespace Settings

/-- The settings out of what the command line says and what the configuration says. -/
def resolve (given config : Config) : Except CommandError Settings :=
  match given.schema?.or config.schema? with
  | none => .error .noSchema
  | some schema =>
    .ok ⟨schema, given.output?.or config.output?, given.url?.or config.url?,
      given.prelude?.or config.prelude?⟩

/-- The path of the generated module, which has to be given. -/
def output (s : Settings) : Except CommandError Path :=
  match s.output? with
  | some path => .ok path
  | none => .error .noOutput

end Settings

/-- A generated client and the procedures it is for. -/
structure Report where
  procedures : ProcedureSet
  artifact : Client.Artifact

namespace Report

/-- The text of the generated module. -/
def text (r : Report) : String := r.artifact.render

/-- The digest of the generated module. -/
def digest (r : Report) : String := Digest.sha256Hex r.text

/-- What the client holds, in numbers. -/
def summary (r : Report) : String :=
  let procedures := r.procedures.procedures.length
  let interfaces := r.artifact.interfaces.length
  let enums := r.artifact.enums.length
  s!"({procedures} procedures, {interfaces} interfaces, {enums} enums)"

variable {m : Type → Type} [Monad m] (files : FileAccess m)

/-- The procedures of a document. -/
def readSchema (path : Path) : ExceptT CommandError m ProcedureSet := do
  let text ← (files.read path).adapt (.schemaUnreadable path)
  MonadExcept.ofExcept ((ProcedureSet.ofText text).mapError (.schemaInvalid path))

/-- The replacement of the runtime. -/
def readPrelude (path : Path) : ExceptT CommandError m String :=
  (files.read path).adapt (.preludeUnreadable path)

/-- The client that some settings ask for. -/
def make (s : Settings) : ExceptT CommandError m Report := do
  let procedures ← readSchema files s.schema
  let prelude? ← s.prelude?.mapM (readPrelude files)
  let artifact ← MonadExcept.ofExcept
    ((Client.exportClient ⟨s.url?, prelude?⟩ procedures.procedures).mapError .export)
  return ⟨procedures, artifact⟩

/-- Whether a file holds the generated module already. -/
def isUpToDate (r : Report) (path : Path) : m Bool := do
  match ← (files.read path).run with
  | .ok existing => return Digest.sha256Hex existing == r.digest
  | .error _ => return false

end Report

variable {m : Type → Type} [Monad m] (files : FileAccess m)

/-- Writes a generated client to a file; directories on the way are made. -/
def writeArtifact (a : Client.Artifact) (path : Path) : ExceptT Client.ExportError m Unit :=
  (files.writeWithParents path a.render).adapt .file

/-- Writes the generated module to a file. -/
def Report.write (r : Report) (path : Path) : ExceptT CommandError m Unit :=
  (writeArtifact files r.artifact path).adapt (.outputUnwritable path)

end RpcBridge.Command
