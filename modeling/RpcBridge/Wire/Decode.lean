import RpcBridge.Json.Reader
import RpcBridge.Number.Numeral
import RpcBridge.Wire.Encode

/-!
# Wire/Decode — values out of JSON

Reads back what `Wire/Encode` writes.  Member names are texts; the shape of the key says how a
name is turned into the JSON value the key travels as (`keyJson`).  Members of an object that its
record does not know are passed over.
-/

namespace RpcBridge

namespace Wire

/-- The scalar a JSON value holds. -/
def decodeScalar : ScalarKind → Json → Wired Value
  | .string, .string s => .ok (.string s)
  | .bool, .bool b => .ok (.bool b)
  | .int, .number n =>
    match n.toInt64? with
    | some i => .ok (.int i)
    | none => Wired.fail (.invalidLiteral "int" n.toText)
  | .float, .number n => .ok (.float n.toDouble)
  | .any, j => .ok (.raw j)
  | .anyList, .array items => .ok (.raw (.array items))
  | .none, .null => .ok .null
  | kind, j => Wired.mismatch kind.name j.kind

/-- The date or instant a text holds. -/
def readTemporal? : TemporalKind → String → Option Value
  | .date, s => (Date.ofText? s).map .date
  | .dateTime, s => (Instant.ofText? s).map .dateTime

/-- The date or instant a JSON value holds. -/
def decodeTemporal (kind : TemporalKind) : Json → Wired Value
  | .string s =>
    match readTemporal? kind s with
    | some v => .ok v
    | none => Wired.fail (.invalidLiteral kind.name s)
  | j => Wired.mismatch kind.name j.kind

/-- The enum member a JSON value denotes. -/
def decodeEnum (e : EnumDef) (j : Json) : Wired Value :=
  match e.memberFor? j with
  | some m => .ok (.enum e.name m.name)
  | none => Wired.mismatch s!"member of {e.name}" j.compact

/-- A signed word with an optional sign. -/
def readInt64? (s : String) : Option Int64 :=
  match Numeral.int? s.toList with
  | some n => (Whole.ofInt? n).bind Whole.toInt64?
  | none => none

/-- The JSON value that a member name stands for, by the shape of the key. -/
def keyJson (key : Shape) (name : String) : Wired Json :=
  let orInvalid (kind : String) (j? : Option Json) : Wired Json :=
    match j? with
    | some j => .ok j
    | none => Wired.fail (.invalidLiteral kind name)
  match key with
  | .scalar .int => orInvalid "int" ((readInt64? name).map .ofInt64)
  | .scalar .float =>
    orInvalid "float" (((Double.ofNumeral? name).bind JsonNumber.ofDouble?).map .number)
  | .scalar .bool =>
    orInvalid "bool"
      (if name = "true" then some (.bool true)
        else if name = "false" then some (.bool false) else none)
  | .enum e =>
    if (e.memberFor? (.string name)).isSome then .ok (.string name)
    else match Json.parse name with
      | .ok (.number n) => .ok (.number n)
      | _ => Wired.fail (.invalidLiteral "enum key" name)
  | _ => .ok (.string name)

/-- Carries the members of an object over one by one. -/
def decodeMembers (keyShape : Shape) (key value : Json → Wired Value) :
    Members → Wired (List (Value × Value))
  | [] => .ok []
  | (name, j) :: rest => do
    let entry ← Wired.within (.key name) do
      let k ← key (← keyJson keyShape name)
      return (k, ← value j)
    return entry :: (← decodeMembers keyShape key value rest)

mutual

/-- The value of a shape that a JSON value holds. -/
def decode : Shape → Json → Wired Value
  | .scalar kind, j => decodeScalar kind j
  | .temporal kind, j => decodeTemporal kind j
  | .list element, .array js => do return .list (← Wired.items (decode element) 0 js)
  | .list _, j => Wired.mismatch "array" j.kind
  | .tuple items, .array js =>
    if js.length = items.length then do return .list (← decodeItems items 0 js)
    else Wired.mismatch s!"tuple of {items.length}" s!"array of {js.length}"
  | .tuple _, j => Wired.mismatch "tuple" j.kind
  | .mapping key value, .object members => do
    return .map (← decodeMembers key (decode key) (decode value) members)
  | .mapping _ _, j => Wired.mismatch "object" j.kind
  | .optional _, .null => .ok .null
  | .optional inner, j => decode inner j
  | .enum e, j => decodeEnum e j
  | .record name fields, .object members
  | .bareTemplate _ name fields, .object members
  | .opened _ name fields, .object members => do
    return .ofFields name (← decodeFields fields members)
  | .record name _, j
  | .bareTemplate _ name _, j
  | .opened _ name _, j => Wired.mismatch s!"record {name}" j.kind
  | .wrapper _ _ inner, j => decode inner j
  | .blocked d obstacle, _ => Wired.fail (.unsupported d obstacle)

/-- The values of the items of a tuple, counting from `start`. -/
def decodeItems : List Shape → Nat → List Json → Wired (List Value)
  | s :: shapes, start, j :: js => do
    let v ← (decode s j).within (.index start)
    return v :: (← decodeItems shapes (start + 1) js)
  | _, _, _ => .ok []

/-- The fields of a record, in the order in which it lists them. -/
def decodeFields : List (String × Shape) → Members → Wired (List (String × Value))
  | [], _ => .ok []
  | (name, s) :: rest, members => do
    let v ← match members.lookup name with
      | some j => (decode s j).within (.member name)
      | none =>
        if s.allowsAbsence then .ok .null
        else (Wired.fail .missing).within (.member name)
    return (name, v) :: (← decodeFields rest members)

end

end Wire

namespace Descriptor

/-- The value of the descriptor's type that a JSON value holds. -/
def decode (d : Descriptor) (j : Json) : Wired Value := Wire.decode d.shape j

end Descriptor

end RpcBridge
