import RpcBridge.Calendar.Date
import RpcBridge.Calendar.Instant
import RpcBridge.Json.Printer
import RpcBridge.Text.Quoted

/-!
# Value/Basic — values as procedures see them

A value is what a procedure takes and returns.  A map keeps its entries in the order in which they
were entered; the fields of a record are kept in the order of their names.

A field that a record lacks reads as null, and sameness of values (`Value.same`) does not tell the
two apart; otherwise it compares part by part, numbers as floating-point arithmetic does.
-/

namespace RpcBridge

/-- A value of a procedure. -/
inductive Value where
  /-- The absent value. -/
  | null
  | bool (b : Bool)
  | int (n : Int64)
  | float (x : Double)
  | string (s : String)
  | date (d : Date)
  | dateTime (i : Instant)
  /-- A list or a tuple. -/
  | list (items : List Value)
  | map (entries : List (Value × Value))
  | record (typeName : String) (fields : List (String × Value))
  | enum (typeName member : String)
  /-- An untyped JSON value, carried through unchanged. -/
  | raw (j : Json)
deriving Inhabited

namespace Value

/-- Enters a field among fields that are in the order of their names; one of the same name is
replaced. -/
def putField (fields : List (String × Value)) (name : String) (value : Value) :
    List (String × Value) :=
  match fields with
  | [] => [(name, value)]
  | (n, v) :: rest =>
    if name < n then (name, value) :: (n, v) :: rest
    else if n = name then (name, value) :: rest
    else (n, v) :: putField rest name value

/-- The record of a list of fields; of two fields of one name the later one counts. -/
def ofFields (typeName : String) (fields : List (String × Value)) : Value :=
  .record typeName (fields.foldl (fun done f => putField done f.1 f.2) [])

/-- The field of a name, null if there is none. -/
def fieldOf (fields : List (String × Value)) (name : String) : Value :=
  (fields.lookup name).getD .null

/-- Whether the value is absent. -/
def isNull : Value → Bool
  | .null => true
  | _ => false

/-- The word for the kind of a value. -/
def kind : Value → String
  | .null => "null"
  | .bool _ => "bool"
  | .int _ => "int"
  | .float _ => "float"
  | .string _ => "string"
  | .date _ => "date"
  | .dateTime _ => "date_time"
  | .list _ => "list"
  | .map _ => "map"
  | .record _ _ => "record"
  | .enum _ _ => "enum"
  | .raw _ => "raw"

mutual

/-- The value as messages show it. -/
def toText : Value → String
  | .null => "null"
  | .bool true => "true"
  | .bool false => "false"
  | .int n => toString n.toInt
  | .float x => x.toText
  | .string s => Text.quoted s
  | .date d => d.toText
  | .dateTime i => i.shown
  | .list items => "[" ++ ", ".intercalate (itemTexts items) ++ "]"
  | .map entries => "\x7b" ++ ", ".intercalate (entryTexts entries) ++ "\x7d"
  | .record typeName fields => typeName ++ "(" ++ ", ".intercalate (fieldTexts fields) ++ ")"
  | .enum typeName member => typeName ++ "." ++ member
  | .raw j => j.compact

/-- The texts of items. -/
def itemTexts : List Value → List String
  | [] => []
  | v :: rest => v.toText :: itemTexts rest

/-- The texts of entries. -/
def entryTexts : List (Value × Value) → List String
  | [] => []
  | (k, v) :: rest => (k.toText ++ ": " ++ v.toText) :: entryTexts rest

/-- The texts of fields. -/
def fieldTexts : List (String × Value) → List String
  | [] => []
  | (name, v) :: rest => (name ++ ": " ++ v.toText) :: fieldTexts rest

end

mutual

/-- Sameness of values. -/
def same : Value → Value → Bool
  | .null, .null => true
  | .bool a, .bool b => a == b
  | .int m, .int n => m == n
  | .float x, .float y => x.same y
  | .string s, .string t => s == t
  | .date d, .date e => d == e
  | .dateTime i, .dateTime k => i == k
  | .list vs, .list ws => sameItems vs ws
  | .map es, .map fs => sameEntries es fs
  | .record n fs, .record m gs =>
    n == m && sameFields fs gs && gs.all fun g => (fs.lookup g.1).isSome || g.2.isNull
  | .enum n a, .enum m b => n == m && a == b
  | .raw j, .raw k => j.same k
  | _, _ => false

/-- Item-by-item sameness. -/
def sameItems : List Value → List Value → Bool
  | [], [] => true
  | v :: vs, w :: ws => v.same w && sameItems vs ws
  | _, _ => false

/-- Entry-by-entry sameness. -/
def sameEntries : List (Value × Value) → List (Value × Value) → Bool
  | [], [] => true
  | (k, v) :: es, (l, w) :: fs => k.same l && v.same w && sameEntries es fs
  | _, _ => false

/-- Whether every field of the first list is the same in the second. -/
def sameFields : List (String × Value) → List (String × Value) → Bool
  | [], _ => true
  | (name, v) :: rest, gs => v.same (fieldOf gs name) && sameFields rest gs

end

end Value

end RpcBridge
