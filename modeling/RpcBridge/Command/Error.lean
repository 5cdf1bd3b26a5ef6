import RpcBridge.Client.Error
import RpcBridge.Config.Search
import RpcBridge.Json.Misfit

/-!
# Command/Error — why a command fails

An error is shown with its causes (`Trail`), from the outermost to the innermost, each on a line of
its own.
-/

namespace RpcBridge

/-- An error of a client and what it is nested in, outermost first. -/
def Client.ExportError.layers : Client.ExportError → List String
  | .inProcedure name e => message (.inProcedure name e) :: e.layers
  | .inField record field e => message (.inField record field e) :: e.layers
  | .file e => [message (.file e), e.message]
  | e => [e.message]

namespace Command

/-- An error and its causes, outermost first. -/
structure Trail where
  message : String
  causes : List String

namespace Trail

/-- The text of an error and its causes. -/
def toText (t : Trail) : String :=
  t.message ++ "".intercalate (t.causes.map ("\n  caused by: " ++ ·))

/-- The text behind a word that says what it is. -/
def labelled (label : String) (t : Trail) : String := label ++ " " ++ t.toText

end Trail

/-- Why a command fails. -/
inductive CommandError where
  | config (message : String)
  | noSchema
  | noOutput
  | schemaUnreadable (path : Path) (e : FileError)
  | schemaInvalid (path : Path) (e : Json.ReadError)
  | export (e : Client.ExportError)
  | preludeUnreadable (path : Path) (e : FileError)
  | outputUnwritable (path : Path) (e : Client.ExportError)

namespace CommandError

/-- The text of an error without its causes. -/
def message : CommandError → String
  | .config message => message
  | .noSchema => "no schema given; pass one or set [export] schema in typewire.toml"
  | .noOutput => "no output path given; pass --output or set [export] output in typewire.toml"
  | .schemaUnreadable path _ => s!"cannot read schema '{path.text}'"
  | .schemaInvalid path _ => s!"invalid schema '{path.text}'"
  | .export _ => "export failed"
  | .preludeUnreadable path _ => s!"cannot read prelude '{path.text}'"
  | .outputUnwritable path _ => s!"cannot write '{path.text}'"

/-- The causes of an error, outermost first. -/
def causes : CommandError → List String
  | .config _ | .noSchema | .noOutput => []
  | .schemaUnreadable _ e | .preludeUnreadable _ e => [e.message]
  | .schemaInvalid _ e => [e.message]
  | .export e | .outputUnwritable _ e => e.layers

/-- An error with its causes. -/
def trail (e : CommandError) : Trail := ⟨e.message, e.causes⟩

end CommandError

end Command

end RpcBridge
