import RpcBridge.Client.Error
import RpcBridge.Client.Statement

/-!
# Client/Conversion — code that converts between memory and wire

The statements that bring a value of a shape from one place to another, as it travels on one side
and as generated code holds it in memory on the other.

A list or a dictionary is walked key by key with fresh temporaries, a tuple item by item, a record
field by field.  Where the statements for the parts convert nothing, a single copy takes the place
of the walk.  Every temporary takes the next number, also when the statements it was made for are
dropped or never finished.
-/

namespace RpcBridge.Client

/-- Which way a value goes. -/
inductive Direction where
  /-- From memory to the wire. -/
  | out
  /-- From the wire to memory. -/
  | back
deriving DecidableEq

/-- A step that may make temporaries and may fail; the state is the number of the next one. -/
abbrev Generating (α : Type) := ExceptT ExportError (StateM Nat) α

namespace Generating

/-- Fails. -/
def fail {α : Type} (e : ExportError) : Generating α := fun n => (.error e, n)

/-- A step that makes no temporaries. -/
def lift {α : Type} (r : Except ExportError α) : Generating α := fun n => (r, n)

/-- A step whose error is wrapped into a field. -/
def inField {α : Type} (record field : String) (step : Generating α) : Generating α := fun n =>
  let (r, after) := step n
  (r.mapError (.inField record field), after)

/-- A fresh temporary. -/
def temp (letter : String) : Generating Temp := fun n => (.ok ⟨letter, n⟩, n + 1)

end Generating

namespace Code

/-- The conversion of a date or an instant. -/
def ofTemporal (kind : TemporalKind) (direction : Direction) (source target : Place) : Code :=
  let conversion : Conversion := match kind, direction with
    | .date, .out => .dateToText
    | .date, .back => .dateFromText
    | .dateTime, .out => .instantToText
    | .dateTime, .back => .instantFromText
  ⟨[.assign target (.converted conversion source)], true⟩

/-- What is written into a place before its parts are: on the way out a fresh container. -/
def fresh (direction : Direction) (target : Place) (container : Operand) : List Statement :=
  match direction with
  | .out => [.assign target container]
  | .back => []

/-- The conversion of a list whose items `inner` converts. -/
def ofList (direction : Direction) (index : Temp) (source target : Place) (inner : Code) : Code :=
  if inner.transforms then
    ⟨fresh direction target .emptyArray ++ [.forKeys index source inner.body], true⟩
  else copy source target

/-- The conversion of a dictionary whose keys and values `keys` and `values` convert. -/
def ofMapping (direction : Direction) (key prepared : Temp) (source target : Place)
    (keys values : Code) : Code :=
  if keys.transforms || values.transforms then
    ⟨.declare prepared :: fresh direction target .emptyObject ++
      [.forKeys key source (keys.body ++ values.body)], true⟩
  else copy source target

/-- The conversion of a value of a dictionary that has been moved to its new slot first. -/
def ofMoved (source target : Place) (inPlace : Code) : Code :=
  if inPlace.transforms then ⟨.assign target (.place source) :: inPlace.body, true⟩
  else copy source target

/-- The conversion of a tuple whose items `inner` converts. -/
def ofTuple (direction : Direction) (source target : Place) (inner : Code) : Code :=
  match direction with
  | .out =>
    if inner.transforms then ⟨.assign target .emptyArray :: inner.body, true⟩
    else copy source target
  | .back => inner

/-- The conversion of a value that may be absent. -/
def ofOptional (direction : Direction) (source target : Place) (inner : Code) : Code :=
  match direction with
  | .out => ⟨[.unlessUndefined source inner.body], inner.transforms⟩
  | .back => ⟨[.unlessNull source target inner.body], true⟩

end Code

mutual

/-- The statements that bring a value of a shape from `source` to `target`. -/
def convert (direction : Direction) : Shape → Place → Place → Generating Code
  | .scalar _, source, target => return .copy source target
  | .enum _, source, target => return .copy source target
  | .temporal kind, source, target => return .ofTemporal kind direction source target
  | .list element, source, target => do
    let index ← Generating.temp "i"
    let inner ← convert direction element (.slot source index) (.slot target index)
    return .ofList direction index source target inner
  | .mapping key value, source, target => do
    let k ← Generating.temp "k"
    let prepared ← Generating.temp "k"
    let keys ← convert direction key (.temp k) (.temp prepared)
    let valueSource := Place.slot source k
    let valueTarget := Place.slot target prepared
    let moved := direction = .back && keys.transforms
    let walked ←
      convert direction value (if moved then valueTarget else valueSource) valueTarget
    let values := if moved then .ofMoved valueSource valueTarget walked else walked
    return .ofMapping direction k prepared source target keys values
  | .tuple items, source, target => do
    return .ofTuple direction source target (← convertItems direction items 0 source target)
  | .optional inner, source, target => do
    return .ofOptional direction source target (← convert direction inner source target)
  | .record name fields, source, target => do
    let inner ← convertFields direction name fields source target
    return ⟨Code.fresh direction target .emptyObject ++ inner.body, inner.transforms⟩
  | .wrapper name field inner, source, target =>
    Generating.inField name field (convert direction inner source target)
  | .opened _ name [(field, inner)], source, target =>
    Generating.inField name field (convert direction inner source target)
  | .opened origin name fields, _, _ =>
    Generating.fail (.unsupported origin (.obstacle (.malformed
      (.wrappedFields name fields.length))))
  | .bareTemplate origin name _, _, _ =>
    Generating.fail (.unsupported origin (.bareTemplate name))
  | .blocked d obstacle, _, _ => Generating.fail (.unsupported d (.obstacle obstacle))

/-- The statements for the items of a tuple, counting from `start`. -/
def convertItems (direction : Direction) : List Shape → Nat → Place → Place → Generating Code
  | [], _, _, _ => return .empty
  | s :: rest, start, source, target => do
    let code ← convert direction s (.item source start) (.item target start)
    return code.append (← convertItems direction rest (start + 1) source target)

/-- The statements for the fields of a record. -/
def convertFields (direction : Direction) (record : String) :
    List (String × Shape) → Place → Place → Generating Code
  | [], _, _ => return .empty
  | (name, s) :: rest, source, target => do
    Generating.inField record name (Generating.lift (checkIdentifier name))
    let code ← Generating.inField record name
      (convert direction s (.field source name) (.field target name))
    return code.append (← convertFields direction record rest source target)

end

/-- A scalar travels as it is held. -/
theorem convert_scalar_eq (direction : Direction) (kind : ScalarKind) (source target : Place) :
    convert direction (.scalar kind) source target = pure (.copy source target) := by
  rw [convert]

end RpcBridge.Client
