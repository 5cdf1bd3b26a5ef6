import RpcBridge.Number.Double

/-!
# Toml/Basic — TOML values and how lines build a table

A TOML document is a list of lines: a header opens a table, a header in double brackets adds one
more table to an array, and an assignment gives a value to a key of the table that was opened last
(`Line`).  `Table.ofLines?` builds the table of a document.

A table remembers how it came to be (`Form`), because that decides who may add to it: a table that
stands between braces is complete, a header may open a table once, a dotted key may only add to
tables that dotted keys made.
-/

namespace RpcBridge

/-- How a table came to be. -/
inductive Toml.Form where
  /-- Written between braces. -/
  | inline
  /-- Opened by a header. -/
  | header
  /-- On the way to a table that a header opened. -/
  | implied
  /-- On the way to a dotted key. -/
  | dotted
deriving DecidableEq

/-- A TOML value. -/
inductive Toml where
  | string (s : String)
  | integer (n : Int)
  | float (x : Double)
  | boolean (b : Bool)
  /-- A date, a time, or both, as written. -/
  | moment (written : String)
  /-- An array; `growing` if its items are tables that headers add one by one. -/
  | array (growing : Bool) (items : List Toml)
  | table (form : Toml.Form) (entries : List (String × Toml))

namespace Toml

/-- The keys of a table with their values, and how the table came to be. -/
structure Table where
  form : Form
  entries : List (String × Toml)

/-- A dotted key: the tables on the way, and the last name. -/
structure Key where
  tables : List String
  name : String

/-- What a line of a document says. -/
inductive Line where
  | header (key : Key)
  | arrayHeader (key : Key)
  | assign (key : Key) (value : Toml)

namespace Table

/-- A table without keys. -/
def empty (form : Form) : Table := ⟨form, []⟩

/-- The table as a value. -/
def toValue (t : Table) : Toml := .table t.form t.entries

/-- The value of a key. -/
def get? (t : Table) (name : String) : Option Toml := t.entries.lookup name

/-- The table with a value for a key, in the place of an earlier one or behind all others. -/
def set (t : Table) (name : String) (value : Toml) : Table :=
  if t.entries.any (·.1 == name) then
    { t with entries := t.entries.map fun e => if e.1 == name then (name, value) else e }
  else { t with entries := t.entries ++ [(name, value)] }

/-- Changes the table at the end of a path.  Tables that are not there yet are made on the way; of
an array that headers fill, the last table is meant.  A dotted key does not enter a table that a
header opened, and nothing enters a value. -/
def within (dotted : Bool) (change : Table → Option Table) : List String → Table → Option Table
  | [], t => change t
  | name :: path, t =>
    match t.get? name with
    | none => do
      let inner ← within dotted change path (empty (if dotted then .dotted else .implied))
      some (t.set name inner.toValue)
    | some (.table form entries) =>
      if form = .inline || (dotted && form = .header) then none
      else do
        let inner ← within dotted change path ⟨form, entries⟩
        some (t.set name inner.toValue)
    | some (.array true items) =>
      match items.getLast? with
      | some (.table form entries) => do
        let inner ← within dotted change path ⟨form, entries⟩
        some (t.set name (.array true (items.dropLast ++ [inner.toValue])))
      | _ => none
    | some _ => none

/-- Gives a value to a key that has none. -/
def assign (key : Key) (value : Toml) : Table → Option Table :=
  within true (fun t =>
    if (t.form == .dotted) == key.tables.isEmpty || (t.get? key.name).isSome then none
    else some (t.set key.name value)) key.tables

/-- Opens a table that no header has opened. -/
def openTable (key : Key) : Table → Option Table :=
  within false (fun t =>
    match t.get? key.name with
    | none => some (t.set key.name (.table .header []))
    | some (.table .implied entries) => some (t.set key.name (.table .header entries))
    | some _ => none) key.tables

/-- Adds a table to an array of tables, which is made if it is not there yet. -/
def addTable (key : Key) : Table → Option Table :=
  within false (fun t =>
    match t.get? key.name with
    | none => some (t.set key.name (.array true [.table .header []]))
    | some (.array true items) =>
      some (t.set key.name (.array true (items ++ [.table .header []])))
    | some _ => none) key.tables

/-- Adds the lines of a document to a table; `current` is the path of the table opened last. -/
def addLines (current : List String) (t : Table) : List Line → Option Table
  | [] => some t
  | .header key :: rest => do addLines (key.tables ++ [key.name]) (← t.openTable key) rest
  | .arrayHeader key :: rest => do addLines (key.tables ++ [key.name]) (← t.addTable key) rest
  | .assign key value :: rest => do
    addLines current (← within false (assign key value) current t) rest

/-- The table of a document, unless its lines contradict each other. -/
def ofLines? (lines : List Line) : Option Table := addLines [] (empty .header) lines

/-- The table between a pair of braces, unless its assignments contradict each other. -/
def ofInline? (assignments : List (Key × Toml)) : Option Table :=
  assignments.foldlM (fun t a => t.assign a.1 a.2) (empty .inline)

end Table

end Toml

end RpcBridge
