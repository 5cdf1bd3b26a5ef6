import RpcBridge.Json.Number

/-!
# Json/Basic — JSON values

A JSON value keeps the members of its objects in the order in which they were written.  A value in
*settled* form (`Json.settle`) has no two members of one name: a repeated name keeps its first
place and takes its last value.
-/

namespace RpcBridge

/-- A JSON value. -/
inductive Json where
  | null
  | bool (b : Bool)
  | number (n : JsonNumber)
  | string (s : String)
  | array (items : List Json)
  | object (members : List (String × Json))
deriving Inhabited

/-- The members of an object, in order. -/
abbrev Members := List (String × Json)

/-- Enters a value under a name: a name that is there keeps its place, a new one comes last. -/
def putEntry {α : Type} (entries : List (String × α)) (name : String) (value : α) :
    List (String × α) :=
  match entries with
  | [] => [(name, value)]
  | (n, v) :: rest => if n = name then (n, value) :: rest else (n, v) :: putEntry rest name value

namespace Json

/-- The word for the kind of a value. -/
def kind : Json → String
  | .null => "null"
  | .bool _ => "bool"
  | .number _ => "number"
  | .string _ => "string"
  | .array _ => "array"
  | .object _ => "object"

/-- A signed word as a JSON value. -/
def ofInt64 (n : Int64) : Json := .number (.whole (.ofInt64 n))

/-- A natural number as a JSON value; one beyond sixty-four bits becomes null. -/
def ofNat (n : Nat) : Json :=
  match Whole.ofInt? n with
  | some w => .number (.whole w)
  | none => .null

/-- A binary64 number as a JSON value; one that is not finite becomes null. -/
def ofDouble (x : Double) : Json :=
  match JsonNumber.ofDouble? x with
  | some n => .number n
  | none => .null

/-- The member of a name, if the value is an object that has one. -/
def member? (j : Json) (name : String) : Option Json :=
  match j with
  | .object members => members.lookup name
  | _ => none

/-- The text, if the value is a string. -/
def text? : Json → Option String
  | .string s => some s
  | _ => none

mutual

/-- The value with the repeated members of every object merged. -/
def settle : Json → Json
  | .array items => .array (settleItems items)
  | .object members => .object (settleMembers [] members)
  | other => other

/-- The settled items of an array. -/
def settleItems : List Json → List Json
  | [] => []
  | j :: rest => j.settle :: settleItems rest

/-- The members entered one after the other into those that are already there. -/
def settleMembers (done : Members) : Members → Members
  | [] => done
  | (name, j) :: rest => settleMembers (putEntry done name j.settle) rest

end

mutual

/-- Sameness of values: arrays item by item, objects whatever the order of their members. -/
def same : Json → Json → Bool
  | .null, .null => true
  | .bool a, .bool b => a == b
  | .number m, .number n => m.same n
  | .string s, .string t => s == t
  | .array xs, .array ys => sameItems xs ys
  | .object ms, .object ns => ms.length == ns.length && sameMembers ms ns
  | _, _ => false

/-- Item-by-item sameness. -/
def sameItems : List Json → List Json → Bool
  | [], [] => true
  | x :: xs, y :: ys => x.same y && sameItems xs ys
  | _, _ => false

/-- Whether every member of the first list has a match in the second. -/
def sameMembers : Members → Members → Bool
  | [], _ => true
  | (name, x) :: rest, ns =>
    (match ns.lookup name with
      | some y => x.same y
      | none => false) && sameMembers rest ns

end

end Json

end RpcBridge
