import RpcBridge.Files.Path
import RpcBridge.Toml.Reading

/-!
# Config/Basic — what a configuration says

A configuration is a TOML document; its table `export` names the document of procedures, the
generated module, the default address and a replacement of the runtime.  Everything else in the
document is skipped.  Relative paths are meant from the directory of the configuration.
-/

namespace RpcBridge

/-- What a configuration says about generating a client. -/
structure Config where
  schema? : Option Path
  output? : Option Path
  url? : Option String
  prelude? : Option Path
deriving DecidableEq

namespace Config

/-- A configuration that says nothing. -/
def empty : Config := ⟨none, none, none, none⟩

/-- The text under a key; nothing else may stand there. -/
def textOf? (t : Toml.Table) (name : String) : Option (Option String) :=
  match t.get? name with
  | none => some none
  | some (.string s) => some (some s)
  | some _ => none

/-- What the value of `export` says.  Four texts in an array stand for the four keys in order, and
a moment counts as a table without any of them. -/
def ofSection? : Toml → Option Config
  | .table form entries => do
    let section' : Toml.Table := ⟨form, entries⟩
    let schema? ← textOf? section' "schema"
    let output? ← textOf? section' "output"
    let url? ← textOf? section' "url"
    let prelude? ← textOf? section' "prelude"
    some ⟨schema?.map .mk, output?.map .mk, url?, prelude?.map .mk⟩
  | .array _ (.string schema :: .string output :: .string url :: .string prelude :: _) =>
    some ⟨some ⟨schema⟩, some ⟨output⟩, some url, some ⟨prelude⟩⟩
  | .moment _ => some empty
  | _ => none

/-- The configuration a text holds. -/
def ofText? (text : String) : Option Config := do
  let document ← Toml.Table.ofText? text
  match document.get? "export" with
  | some v => ofSection? v
  | none => some empty

/-- The configuration with its relative paths behind a directory. -/
def relativeTo (base : Path) (c : Config) : Config :=
  { c with
    schema? := c.schema?.map base.join
    output? := c.output?.map base.join
    prelude? := c.prelude?.map base.join }

/-- The lines of the configuration to start from. -/
def templateLines : List String :=
  ["# Typewire configuration",
    "",
    "[export]",
    "# Procedure set written by the service (JSON).",
    "schema = \"procedures.json\"",
    "# Generated TypeScript client.",
    "output = \"client/api.ts\"",
    "# Default endpoint; clients may still set rpcConfig.url themselves.",
    "# url = \"/api/rpc\"",
    "# Replace the built-in runtime helpers.",
    "# prelude = \"client/prelude.ts\""]

/-- The configuration to start from. -/
def template : String := "".intercalate (templateLines.map (· ++ "\n"))

end Config

end RpcBridge
