import RpcBridge.Text.Combining
import RpcBridge.Text.Invisible

/-!
# Text/Quoted — texts as messages quote them

A text in a message stands between double quotes.  The quote, the backslash and the usual control
characters have short escapes; every other character that is invisible by itself, or that would
join the quote in front of it, is written by its code point.
-/

namespace RpcBridge.Text

/-- A character by its code point. -/
def codePointEscape (c : Char) : List Char :=
  ['\\', 'u', '\x7b'] ++ Nat.toDigits 16 c.toNat ++ ['\x7d']

/-- Whether a character can be written as it is. -/
def isPlain (c : Char) : Bool :=
  if c.toNat < 0x7f then 0x20 ≤ c.toNat
  else 0x80 ≤ c.toNat && !isCombining c && !isInvisible c

/-- A character inside a quoted text. -/
def quotedChar (c : Char) : List Char :=
  if c = '\x00' then ['\\', '0']
  else if c = '\t' then ['\\', 't']
  else if c = '\r' then ['\\', 'r']
  else if c = '\n' then ['\\', 'n']
  else if c = '"' then ['\\', '"']
  else if c = '\\' then ['\\', '\\']
  else if isPlain c then [c]
  else codePointEscape c

/-- A text in quotes. -/
def quoted (s : String) : String := String.ofList ('"' :: s.toList.flatMap quotedChar ++ ['"'])

end RpcBridge.Text
