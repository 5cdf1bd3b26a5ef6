import RpcBridge.Json.Basic
import RpcBridge.Json.Fault

/-!
# Json/Draft — a JSON text up to its first fault

A draft is what can be seen of a JSON text from its start up to the first place where it stops
being JSON; there the draft is *cut*.  A reader that walks a draft in the order of the text meets
faults of form and faults of content in the order in which they stand.

Some faults trouble only a reader that wants the value: a number out of range, half a surrogate
pair.  They sit inside the draft, which goes on behind them, and a reader that skips the value
never sees them.  Where reader and skipper notice the same damage at different places or under
different names, a `Cut` holds both faults.
-/

namespace RpcBridge.Json

-- Powers are the ones of the core library, also where an algebraic library is in scope.
attribute [local instance (high)] instPowNat

/-- The damage that ends a draft: as a reader of the value sees it, and as a skipper does. -/
structure Cut where
  read : Fault
  skip : Fault
deriving DecidableEq

/-- Damage that reader and skipper see alike. -/
def Cut.both (f : Fault) : Cut := ⟨f, f⟩

/-- What can be seen of a JSON value.  Arrays and objects hold the place where they open, and the
cut that keeps them from being closed, if it is not inside their last item. -/
inductive Draft where
  | null
  | bool (b : Bool)
  | number (n : Except Fault JsonNumber)
  | string (s : Except Fault String)
  | array (opening : Place) (items : List Draft) (unclosed? : Option Cut)
  | object (opening : Place) (members : List (Except Fault String × Draft)) (unclosed? : Option Cut)
  | cut (c : Cut)

/-- A draft and, unless it has been cut, the rest of the text. -/
structure Drafted (α : Type) where
  draft : α
  rest? : Option (List Symbol)

/-- Drops blanks, tabs and line ends. -/
def skipBlanks : List Symbol → List Symbol
  | .char c :: rest =>
    if c = ' ' || c = '\n' || c = '\t' || c = '\r' then skipBlanks rest else .char c :: rest
  | other => other

/-! ## Words and numbers -/

/-- Reads the rest of a word. -/
def draftWord (value : Draft) : List Char → List Symbol → Drafted Draft
  | [], rest => ⟨value, some rest⟩
  | _ :: _, [] => ⟨.cut (.both (.atEnd .endInValue)), none⟩
  | c :: word, s :: rest =>
    if s = .char c then draftWord value word rest
    else ⟨.cut (.both ⟨.wordExpected, .into (s :: rest)⟩), none⟩

/-- The value of a decimal digit. -/
def digit? : Symbol → Option Nat
  | .char c => if c.isDigit then some (c.toNat - '0'.toNat) else none
  | .stray _ => none

/-- Splits off a run of digits. -/
def spanDigits : List Symbol → List Nat × List Symbol
  | [] => ([], [])
  | s :: rest =>
    match digit? s with
    | some d => let (digits, after) := spanDigits rest; (d :: digits, after)
    | none => ([], s :: rest)

/-- The digits and the exponent of a number literal. -/
structure Literal where
  whole : List Nat
  fraction? : Option (List Nat)
  exponent? : Option (Bool × List Nat)

/-- The place behind the first exponent digit that leaves thirty-two bits. -/
def exponentOverflow? (n : Nat) : List Symbol → Option Place
  | [] => none
  | s :: rest =>
    match digit? s with
    | none => none
    | some d =>
      if 10 * n + d < 2 ^ (31 : Nat) then exponentOverflow? (10 * n + d) rest else some (.before rest)

/-- The number a literal stands for; `exponentRest` is the text from its exponent digits on and
`rest` the text behind it, where a number out of range is noticed. -/
def Literal.number (negative : Bool) (l : Literal) (exponentRest rest : List Symbol) :
    Except Fault JsonNumber :=
  let integer : Int := (l.whole.foldl (fun n d => 10 * n + d) 0 : Nat)
  let signed := if negative then -integer else integer
  let exact := match l.fraction?, l.exponent? with
    | none, none => if negative && signed == 0 then none else Whole.ofInt? signed
    | _, _ => none
  match exact with
  | some n => .ok (.whole n)
  | none =>
    let leading := JsonNumber.Leading.ofDigits l.whole (l.fraction?.getD [])
    let (down, digits) := l.exponent?.getD (false, [])
    let exponent : Int := (digits.foldl (fun n d => 10 * n + d) 0 : Nat)
    let overflow? := exponentOverflow? 0 exponentRest
    if overflow?.isSome && (down || leading.significand == 0) then
      .ok (.real ⟨negative, Number.Magnitude.zero⟩)
    else
      let total := leading.exponent + if down then -exponent else exponent
      match overflow?, JsonNumber.ofSignificand? negative leading.significand total with
      | none, some n => .ok n
      | _, _ => .error ⟨.numberOutOfRange, overflow?.getD (.before rest)⟩

/-- The cut in a number that lacks a digit: a skipper does not tell the end of the text apart. -/
def digitMissing (rest : List Symbol) : Cut :=
  let invalid : Fault := ⟨.invalidNumber, .into rest⟩
  if rest.isEmpty then ⟨.atEnd .endInValue, invalid⟩ else .both invalid

/-- Reads the exponent of a number behind its `e`. -/
def draftExponent (negative : Bool) (l : Literal) (s : List Symbol) : Drafted Draft :=
  let (down, digitsRest) := match s with
    | .char '+' :: rest => (false, rest)
    | .char '-' :: rest => (true, rest)
    | rest => (false, rest)
  let (digits, rest) := spanDigits digitsRest
  if digits.isEmpty then ⟨.cut (digitMissing digitsRest), none⟩
  else
    let whole := { l with exponent? := some (down, digits) }
    ⟨.number (whole.number negative digitsRest rest), some rest⟩

/-- Reads what may follow the digits before and behind the point. -/
def draftNumberEnd (negative : Bool) (l : Literal) (rest : List Symbol) : Drafted Draft :=
  match rest with
  | .char 'e' :: more | .char 'E' :: more => draftExponent negative l more
  | _ => ⟨.number (l.number negative [] rest), some rest⟩

/-- Reads a number behind its sign. -/
def draftNumber (negative : Bool) (s : List Symbol) : Drafted Draft :=
  let (digits, rest) := spanDigits s
  match digits with
  | [] => ⟨.cut (digitMissing s), none⟩
  | 0 :: _ :: _ => ⟨.cut (.both ⟨.invalidNumber, .into (s.drop 1)⟩), none⟩
  | whole =>
    match rest with
    | .char '.' :: more =>
      let (fraction, after) := spanDigits more
      if fraction.isEmpty then ⟨.cut (digitMissing more), none⟩
      else draftNumberEnd negative ⟨whole, some fraction, none⟩ after
    | _ => draftNumberEnd negative ⟨whole, none, none⟩ rest

/-! ## Strings -/

/-- The value of a hexadecimal digit. -/
def hexDigit? : Symbol → Option Nat
  | .stray _ => none
  | .char c =>
    if c.isDigit then some (c.toNat - '0'.toNat)
    else if 'a' ≤ c && c ≤ 'f' then some (c.toNat - 'a'.toNat + 10)
    else if 'A' ≤ c && c ≤ 'F' then some (c.toNat - 'A'.toNat + 10)
    else none

/-- The number of four hexadecimal digits. -/
def hexFour? (a b c d : Symbol) : Option Nat := do
  let a ← hexDigit? a
  let b ← hexDigit? b
  let c ← hexDigit? c
  let d ← hexDigit? d
  some (((a * 16 + b) * 16 + c) * 16 + d)

/-- Whether a number is the leading half of a surrogate pair. -/
def isLeading (n : Nat) : Bool := 0xD800 ≤ n && n ≤ 0xDBFF

/-- Whether a number is the trailing half of a surrogate pair. -/
def isTrailing (n : Nat) : Bool := 0xDC00 ≤ n && n ≤ 0xDFFF

/-- The character of a surrogate pair. -/
def joinPair (leading trailing : Nat) : Char :=
  Char.ofNat (0x10000 + (leading - 0xD800) * 0x400 + (trailing - 0xDC00))

/-- The character a one-letter escape stands for. -/
def shortEscape? : Symbol → Option Char
  | .char '"' => some '"'
  | .char '\\' => some '\\'
  | .char '/' => some '/'
  | .char 'b' => some '\x08'
  | .char 'f' => some '\x0c'
  | .char 'n' => some '\n'
  | .char 'r' => some '\r'
  | .char 't' => some '\t'
  | _ => none

/-- The content of a string so far, last character first, with what only a reader of the content
minds: half a surrogate pair at once, a stray byte when the string ends.  `stray?` is the number of
bytes that the content takes from its first stray byte on. -/
structure Content where
  reversed : List Char
  half? : Option Fault
  stray? : Option Nat

namespace Content

/-- Nothing read yet. -/
def empty : Content := ⟨[], none, none⟩

/-- The content with one more character. -/
def push (k : Content) (c : Char) : Content :=
  { k with reversed := c :: k.reversed, stray? := k.stray?.map (· + c.utf8Size) }

/-- The content with half a surrogate pair; the first one counts. -/
def half (k : Content) (f : Fault) : Content := { k with half? := k.half?.or (some f) }

/-- The content with a stray byte. -/
def stray (k : Content) : Content := { k with stray? := some (k.stray?.getD 0 + 1) }

/-- The content of a string that has been closed; `rest` follows it.  A stray byte is told by
counting back from there over the content, in which an escape is as long as what it stands for. -/
def close (k : Content) (rest : List Symbol) : Except Fault String :=
  match k.half?, k.stray? with
  | some f, _ => .error f
  | none, some bytes => .error ⟨.invalidCodePoint, .back bytes rest⟩
  | none, none => .ok (String.ofList k.reversed.reverse)

/-- The cut of a string that cannot be closed. -/
def cut (k : Content) (f : Fault) : Cut := ⟨k.half?.getD f, f⟩

end Content

/-- The four hexadecimal digits at the start of a text and what follows them. -/
def spanHexFour? : List Symbol → Option (Nat × List Symbol)
  | a :: b :: c :: d :: rest => (hexFour? a b c d).map fun n => (n, rest)
  | _ => none

/-- Half a surrogate pair has been read; `rest` follows it.  A trailing half that follows at once
makes a character of eleven symbols in all. -/
def draftPair (k : Content) (leading : Nat) (rest : List Symbol) : Content × Nat :=
  match rest with
  | [] | .char '\\' :: [] => (k, 5)
  | .char '\\' :: .char 'u' :: more =>
    match spanHexFour? more with
    | none => (k, 5)
    | some (n, after) =>
      if isTrailing n then (k.push (joinPair leading n), 11)
      else (k.half ⟨.loneSurrogate, .before after⟩, 5)
  | .char '\\' :: other | other => (k.half ⟨.halfSurrogatePair, .into other⟩, 5)

/-- Reads an escape behind its backslash; the answer holds the number of symbols it takes. -/
def draftEscape (k : Content) : List Symbol → Except Cut (Content × Nat)
  | [] => .error (k.cut (.atEnd .endInString))
  | .char 'u' :: more =>
    match spanHexFour? more with
    | some (n, rest) =>
      if isTrailing n then .ok (k.half ⟨.loneSurrogate, .before rest⟩, 5)
      else if isLeading n then .ok (draftPair k n rest)
      else .ok (k.push (Char.ofNat n), 5)
    | none =>
      if Symbol.totalWidth more < 4 then .error (k.cut (.atEnd .endInString))
      else .error (k.cut ⟨.invalidEscape, ⟨more, 4⟩⟩)
  | s :: rest =>
    match shortEscape? s with
    | some c => .ok (k.push c, 1)
    | none => .error (k.cut ⟨.invalidEscape, .into (s :: rest)⟩)

/-- A string behind its opening quote: its content and the rest of the text, or the cut in it. -/
abbrev StringDraft := Except Cut (Except Fault String × List Symbol)

/-- Reads a string behind its opening quote; the first `taken` symbols belong to an escape. -/
def draftString (k : Content) : Nat → List Symbol → StringDraft
  | _, [] => .error (k.cut (.atEnd .endInString))
  | taken + 1, _ :: rest => draftString k taken rest
  | 0, .stray _ :: rest => draftString k.stray 0 rest
  | 0, .char c :: rest =>
    if c = '"' then .ok (k.close rest, rest)
    else if c = '\\' then
      match draftEscape k rest with
      | .ok (next, size) => draftString next size rest
      | .error e => .error e
    else if c.toNat < 0x20 then .error (k.cut ⟨.controlCharacter, .into (.char c :: rest)⟩)
    else draftString (k.push c) 0 rest

/-! ## Values -/

/-- A draft that is cut here. -/
def cutHere (c : Cut) : Drafted Draft := ⟨.cut c, none⟩

mutual

/-- Reads a value; `fuel` is at least twice the number of symbols left, since a symbol that opens an
array or object takes two steps. -/
def draftValue : Nat → List Symbol → Drafted Draft
  | 0, _ => cutHere (.both (.atEnd .endInValue))
  | fuel + 1, s =>
    match skipBlanks s with
    | [] => cutHere (.both (.atEnd .endInValue))
    | .char 'n' :: rest => draftWord .null "ull".toList rest
    | .char 't' :: rest => draftWord (.bool true) "rue".toList rest
    | .char 'f' :: rest => draftWord (.bool false) "alse".toList rest
    | .char '-' :: rest => draftNumber true rest
    | .char '"' :: rest =>
      match draftString .empty 0 rest with
      | .ok (content, after) => ⟨.string content, some after⟩
      | .error c => cutHere c
    | .char '[' :: rest =>
      let items := draftItems fuel true rest
      ⟨.array (.into (.char '[' :: rest)) items.draft.1 items.draft.2, items.rest?⟩
    | .char '\x7b' :: rest =>
      let members := draftMembers fuel true rest
      ⟨.object (.into (.char '\x7b' :: rest)) members.draft.1 members.draft.2, members.rest?⟩
    | c :: rest =>
      if (digit? c).isSome then draftNumber false (c :: rest)
      else cutHere (.both ⟨.valueExpected, .into (c :: rest)⟩)

/-- Reads the items of an array up to and including its closing bracket; `first` says that no
comma is due. -/
def draftItems : Nat → Bool → List Symbol → Drafted (List Draft × Option Cut)
  | 0, _, _ => ⟨([], some (.both (.atEnd .endInArray))), none⟩
  | fuel + 1, first, s =>
    let item (start : List Symbol) : Drafted (List Draft × Option Cut) :=
      let value := draftValue fuel start
      match value.rest? with
      | none => ⟨([value.draft], none), none⟩
      | some after =>
        let others := draftItems fuel false after
        ⟨(value.draft :: others.draft.1, others.draft.2), others.rest?⟩
    match skipBlanks s with
    | [] => ⟨([], some (.both (.atEnd .endInArray))), none⟩
    | .char ']' :: rest => ⟨([], none), some rest⟩
    | .char ',' :: rest =>
      if first then item s
      else match skipBlanks rest with
        | [] => ⟨([], some (.both (.atEnd .endInValue))), none⟩
        | .char ']' :: more =>
          let place := Place.into (.char ']' :: more)
          ⟨([], some ⟨⟨.trailingComma, place⟩, ⟨.valueExpected, place⟩⟩), none⟩
        | _ => item rest
    | c :: rest =>
      if first then item s
      else ⟨([], some (.both ⟨.commaOrBracketExpected, .into (c :: rest)⟩)), none⟩

/-- Reads the members of an object up to and including its closing brace; `first` says that no
comma is due. -/
def draftMembers : Nat → Bool → List Symbol →
    Drafted (List (Except Fault String × Draft) × Option Cut)
  | 0, _, _ => ⟨([], some (.both (.atEnd .endInObject))), none⟩
  | fuel + 1, first, s =>
    let member (start : List Symbol) : Drafted (List (Except Fault String × Draft) × Option Cut) :=
      match draftString .empty 0 start with
      | .error c => ⟨([], some c), none⟩
      | .ok (key, afterKey) =>
        match skipBlanks afterKey with
        | [] => ⟨([(key, .cut (.both (.atEnd .endInObject)))], none), none⟩
        | .char ':' :: start =>
          let value := draftValue fuel start
          match value.rest? with
          | none => ⟨([(key, value.draft)], none), none⟩
          | some after =>
            let others := draftMembers fuel false after
            ⟨((key, value.draft) :: others.draft.1, others.draft.2), others.rest?⟩
        | c :: more => ⟨([(key, .cut (.both ⟨.colonExpected, .into (c :: more)⟩))], none), none⟩
    match skipBlanks s with
    | [] => ⟨([], some (.both (.atEnd .endInObject))), none⟩
    | .char '\x7d' :: rest => ⟨([], none), some rest⟩
    | .char '"' :: rest =>
      if first then member rest
      else ⟨([], some (.both ⟨.commaOrBraceExpected, .into (.char '"' :: rest)⟩)), none⟩
    | .char ',' :: rest =>
      if first then ⟨([], some (.both ⟨.keyExpected, .into (.char ',' :: rest)⟩)), none⟩
      else match skipBlanks rest with
        | .char '"' :: more => member more
        | [] => ⟨([], some ⟨.atEnd .endInValue, .atEnd .endInObject⟩), none⟩
        | .char '\x7d' :: more =>
          let place := Place.into (.char '\x7d' :: more)
          ⟨([], some ⟨⟨.trailingComma, place⟩, ⟨.keyExpected, place⟩⟩), none⟩
        | c :: more => ⟨([], some (.both ⟨.keyExpected, .into (c :: more)⟩)), none⟩
    | c :: rest =>
      let cause := if first then Cause.keyExpected else .commaOrBraceExpected
      ⟨([], some (.both ⟨cause, .into (c :: rest)⟩)), none⟩

end

/-- The draft of a text. -/
def draft (text : List Symbol) : Drafted Draft := draftValue (2 * text.length + 2) text

end RpcBridge.Json
