import RpcBridge.Value.Basic
import RpcBridge.Wire.Error

/-!
# Wire/Encode — values as JSON

How a value of a shape travels: dates as `YYYY-MM-DD`, instants as timestamps in UTC, enum members
as their literals, the keys of a map as member names.  A field that is absent or null is left out
where its type allows that.
-/

namespace RpcBridge

namespace Shape

/-- Whether a field of the shape may be left out. -/
def allowsAbsence : Shape → Bool
  | .optional _ => true
  | .scalar .none => true
  | _ => false

end Shape

namespace Wire

/-- The JSON value of a scalar. -/
def encodeScalar : ScalarKind → Value → Wired Json
  | .string, .string s => .ok (.string s)
  | .bool, .bool b => .ok (.bool b)
  | .int, .int n => .ok (.ofInt64 n)
  | .float, .int n => .ok (.ofDouble (.ofInt n.toInt))
  | .float, .float x =>
    match JsonNumber.ofDouble? x with
    | some n => .ok (.number n)
    | none => Wired.fail (.invalidLiteral "float" x.toText)
  | .any, .raw j => .ok j
  | .anyList, .raw (.array items) => .ok (.array items)
  | .none, .null => .ok .null
  | kind, v => Wired.mismatch kind.name v.kind

/-- The JSON value of a date or an instant. -/
def encodeTemporal : TemporalKind → Value → Wired Json
  | .date, .date d => .ok (.string d.toText)
  | .dateTime, .dateTime i => .ok (.string i.wire)
  | kind, v => Wired.mismatch kind.name v.kind

/-- The JSON value of an enum member. -/
def encodeEnum (e : EnumDef) (v : Value) : Wired Json :=
  match v with
  | .enum typeName member =>
    if typeName = e.name then
      match e.member? member with
      | some m => .ok m.value.toJson
      | none => Wired.mismatch s!"member of {e.name}" member
    else Wired.mismatch s!"enum {e.name}" v.toText
  | _ => Wired.mismatch s!"enum {e.name}" v.toText

/-- The member name a key travels as. -/
def memberName : Json → Wired String
  | .string s => .ok s
  | .number n => .ok n.toText
  | .bool true => .ok "true"
  | .bool false => .ok "false"
  | j => Wired.fail (.keyNotScalar j.kind)

/-- Carries the entries of a map over one by one. -/
def encodeEntries (key value : Value → Wired Json) (done : Members) :
    List (Value × Value) → Wired Members
  | [] => .ok done
  | (k, v) :: rest => do
    let (name, j) ← Wired.within (.key k.toText) do
      let name ← memberName (← key k)
      return (name, ← value v)
    encodeEntries key value (putEntry done name j) rest

mutual

/-- The JSON value of a value of a shape. -/
def encode : Shape → Value → Wired Json
  | .scalar kind, v => encodeScalar kind v
  | .temporal kind, v => encodeTemporal kind v
  | .list element, .list vs => do return .array (← Wired.items (encode element) 0 vs)
  | .list _, v => Wired.mismatch "list" v.kind
  | .tuple items, .list vs =>
    if vs.length = items.length then do return .array (← encodeItems items 0 vs)
    else Wired.mismatch s!"tuple of {items.length}" s!"tuple of {vs.length}"
  | .tuple _, v => Wired.mismatch "tuple" v.kind
  | .mapping key value, .map entries => do
    return .object (← encodeEntries (encode key) (encode value) [] entries)
  | .mapping _ _, v => Wired.mismatch "map" v.kind
  | .optional _, .null => .ok .null
  | .optional inner, v => encode inner v
  | .enum e, v => encodeEnum e v
  | .record _ fields, .record _ vs
  | .bareTemplate _ _ fields, .record _ vs
  | .opened _ _ fields, .record _ vs => do return .object (← encodeFields fields vs [])
  | .record _ _, v
  | .bareTemplate _ _ _, v
  | .opened _ _ _, v => Wired.mismatch "record" v.kind
  | .wrapper _ _ inner, v => encode inner v
  | .blocked d obstacle, _ => Wired.fail (.unsupported d obstacle)

/-- The JSON values of the items of a tuple, counting from `start`. -/
def encodeItems : List Shape → Nat → List Value → Wired (List Json)
  | s :: shapes, start, v :: vs => do
    let j ← (encode s v).within (.index start)
    return j :: (← encodeItems shapes (start + 1) vs)
  | _, _, _ => .ok []

/-- The members of a record, entered into those that are already there. -/
def encodeFields : List (String × Shape) → List (String × Value) → Members → Wired Members
  | [], _, done => .ok done
  | (name, s) :: rest, vs, done =>
    let present (v : Value) : Wired Members := do
      let j ← (encode s v).within (.member name)
      encodeFields rest vs (putEntry done name j)
    match vs.lookup name with
    | none =>
      if s.allowsAbsence then encodeFields rest vs done
      else (Wired.fail .missing).within (.member name)
    | some .null => if s.allowsAbsence then encodeFields rest vs done else present .null
    | some v => present v

end

end Wire

namespace Descriptor

/-- The JSON value of a value of the descriptor's type. -/
def encode (d : Descriptor) (v : Value) : Wired Json := Wire.encode d.shape v

end Descriptor

end RpcBridge
