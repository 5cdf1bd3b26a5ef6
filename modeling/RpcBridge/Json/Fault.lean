import RpcBridge.Text.Symbol

/-!
# Json/Fault — what can be wrong with a JSON text

A fault is a cause and the place where it was noticed.  A cause is *premature* when the text ended
too early; all others mean that no continuation could mend the text.
-/

namespace RpcBridge.Json

/-- Why a text is no JSON text. -/
inductive Cause where
  | endInValue
  | endInString
  | endInArray
  | endInObject
  | valueExpected
  | wordExpected
  | colonExpected
  | commaOrBracketExpected
  | commaOrBraceExpected
  | keyExpected
  | trailingComma
  | trailingCharacters
  | invalidNumber
  | numberOutOfRange
  | invalidEscape
  | halfSurrogatePair
  | loneSurrogate
  | invalidCodePoint
  | controlCharacter
  | nestingTooDeep
deriving DecidableEq

namespace Cause

/-- The text of a cause. -/
def message : Cause → String
  | .endInValue => "EOF while parsing a value"
  | .endInString => "EOF while parsing a string"
  | .endInArray => "EOF while parsing a list"
  | .endInObject => "EOF while parsing an object"
  | .valueExpected => "expected value"
  | .wordExpected => "expected ident"
  | .colonExpected => "expected `:`"
  | .commaOrBracketExpected => "expected `,` or `]`"
  | .commaOrBraceExpected => "expected `,` or `\x7d`"
  | .keyExpected => "key must be a string"
  | .trailingComma => "trailing comma"
  | .trailingCharacters => "trailing characters"
  | .invalidNumber => "invalid number"
  | .numberOutOfRange => "number out of range"
  | .invalidEscape => "invalid escape"
  | .halfSurrogatePair => "unexpected end of hex escape"
  | .loneSurrogate => "lone leading surrogate in hex escape"
  | .invalidCodePoint => "invalid unicode code point"
  | .controlCharacter => "control character (\\u0000-\\u001F) found while parsing a string"
  | .nestingTooDeep => "recursion limit exceeded"

/-- Whether the text ended too early. -/
def premature : Cause → Bool
  | .endInValue | .endInString | .endInArray | .endInObject => true
  | _ => false

end Cause

/-- A cause at a place. -/
structure Fault where
  cause : Cause
  place : Place
deriving DecidableEq

namespace Fault

/-- A fault at the very end of the text. -/
def atEnd (cause : Cause) : Fault := ⟨cause, .before []⟩

/-- The text of a fault together with its line and column in a text. -/
def messageIn (text : List Symbol) (f : Fault) : String :=
  let (line, column) := f.place.coordinates text
  s!"{f.cause.message} at line {line} column {column}"

end Fault

end RpcBridge.Json
