import RpcBridge.Descriptor.Reading
import RpcBridge.Descriptor.Written
import RpcBridge.Proofs.Client.Definitions
import RpcBridge.Proofs.Json.Printed
import RpcBridge.Proofs.Wire.Keys

/-!
# Proofs/Descriptor/Document — what is written of a descriptor is read as it

A descriptor is written as an object with its kind in front, and read from any value of that form:
the kind says which parts are asked for, and each of them is found under its name.  What a value
can be read as is built from the readings of its parts, so the proof is one induction on the
descriptor (`isRead`).

A literal stands in the way: a binary64 number that is not finite is written as null, and a reader
may take another number out of the text of a finite one.  `EnumLiteral.ReadsBack` says that neither
happens, `Descriptor.ReadsBack` that it happens nowhere in a descriptor.

* `Parts.one_named`, `Parts.two_named`, `Parts.three_named` — named parts that are all there;
* `IsRead.readNode_eq` — reading undoes writing;
* `ofDraft_of_read` — also out of a draft, whose members are looked at before they are read.
-/

namespace RpcBridge

open Json (Misfit Draft)

/-! ## Literals and names -/

/-- A literal that is read from what is written for it: a binary64 number has to be finite, and a
reader has to take it out of its text. -/
def EnumLiteral.ReadsBack : EnumLiteral → Prop
  | .float x => ∃ y, x = .finite y ∧ (JsonNumber.real y).ReadsBack
  | _ => True

namespace EnumLiteral

/-- A literal whose number reads back is read back from its JSON. -/
theorem ofJson_toJson {l : EnumLiteral} (back : l.ReadsBack) : ofJson l.toJson = .ok l := by
  cases l with
  | int n =>
    rw [toJson, Json.ofInt64, ofJson, JsonNumber.toInt64?, Whole.toInt64?_ofInt64]
  | float x =>
    obtain ⟨y, rfl, -⟩ := back
    rfl
  | text s => rfl

/-- A literal whose number reads back is written as JSON whose numbers do. -/
theorem readsBack_toJson {l : EnumLiteral} (back : l.ReadsBack) : l.toJson.ReadsBack := by
  cases l with
  | int n => exact .number (JsonNumber.readsBack_whole _)
  | float x =>
    obtain ⟨y, rfl, reads⟩ := back
    exact .number reads
  | text s => exact .string s

end EnumLiteral

/-- A scalar kind is read from its own name. -/
theorem ScalarKind.ofJson_name (kind : ScalarKind) : ofJson (.string kind.name) = .ok kind := by
  cases kind <;> rfl

/-- A temporal kind is read from its own name. -/
theorem TemporalKind.ofJson_name (kind : TemporalKind) : ofJson (.string kind.name) = .ok kind := by
  cases kind <;> rfl

/-- At the root, a node kind is read from its own name. -/
theorem NodeKind.ofOuterJson_name (kind : NodeKind) :
    ofOuterJson (.string kind.name) = .ok kind := by
  cases kind <;> rfl

/-- Inside a node, a node kind is read from its own name. -/
theorem NodeKind.ofInnerJson_name (kind : NodeKind) :
    ofInnerJson (.string kind.name) = .ok kind := by
  cases kind <;> rfl

/-! ## Named parts -/

namespace Parts

variable {α β β' β'' γ : Type} {p : Part α β} {q : Part α β'} {r : Part α β''} {a a' a'' : α}
  {b : β} {b' : β'} {b'' : β''}

/-- A part that is asked for and fits. -/
def Passes (checks : List (String × (α → Except Misfit Unit))) (m : String × α) : Prop :=
  ∃ check, checks.lookup m.1 = some check ∧ check m.2 = .ok ()

/-- A member passes the checks of its node when the part of that name reads it. -/
theorem passes_of_read {checks : List (String × (α → Except Misfit Unit))}
    (distinct : (checks.map (·.1)).Nodup) (known : p.check ∈ checks) (read : p.read a = .ok b) :
    Passes checks (p.name, a) := by
  refine ⟨p.check.2, lookup_eq_some_of_mem distinct known, ?_⟩
  change (p.read a).map _ = _
  rw [read]
  rfl

/-- Distinct parts that are all asked for and fit are not refused. -/
theorem checkNamed_eq_ok {checks : List (String × (α → Except Misfit Unit))} {seen : List String}
    {members : List (String × α)} (distinct : (members.map (·.1)).Nodup)
    (fresh : ∀ m ∈ members, m.1 ∉ seen) (passes : ∀ m ∈ members, Passes checks m) :
    checkNamed checks seen members = .ok () := by
  induction members generalizing seen with
  | nil => rw [checkNamed]
  | cons m rest ih =>
    rw [List.map_cons, List.nodup_cons] at distinct
    rw [List.forall_mem_cons] at fresh passes
    obtain ⟨check, known, fits⟩ := passes.1
    rw [checkNamed, known]
    dsimp only
    rw [if_neg (by simpa using fresh.1), fits]
    refine ih distinct.2 (fun n hn there => ?_) passes.2
    rcases List.mem_cons.1 there with same | there
    · exact distinct.1 (same ▸ List.mem_map_of_mem hn)
    · exact fresh.2 n hn there

/-- A part is found among members of distinct names and read from its own member. -/
theorem get_named (members : List (String × α)) (distinct : (members.map (·.1)).Nodup)
    (there : (p.name, a) ∈ members) (read : p.read a = .ok b) {title : String} {count : Nat} :
    (named members).get title count p = .ok b := by
  rw [get, lookup_eq_some_of_mem distinct there]
  exact read

/-- A node of one part is read from the one member that carries it. -/
theorem one_named (read : p.read a = .ok b) (title : String) (make : β → γ) :
    (named [(p.name, a)]).one title p make = .ok (make b) := by
  have single : [p.name].Nodup := List.pairwise_singleton _ _
  have passes : (named [(p.name, a)]).start [p.check] = .ok () :=
    checkNamed_eq_ok single (fun _ _ => List.not_mem_nil)
      (List.forall_mem_singleton.2 (passes_of_read single (.head _) read))
  have found : (named [(p.name, a)]).get title 1 p = .ok b :=
    get_named [(_, a)] single (.head _) read
  rw [one, passes, found]
  rfl

/-- A node of two parts is read from the two members that carry them. -/
theorem two_named (distinct : [p.name, q.name].Nodup) (first : p.read a = .ok b)
    (second : q.read a' = .ok b') (title : String) (make : β → β' → γ) :
    (named [(p.name, a), (q.name, a')]).two title p q make = .ok (make b b') := by
  have passes : (named [(p.name, a), (q.name, a')]).start [p.check, q.check] = .ok () :=
    checkNamed_eq_ok distinct (fun _ _ => List.not_mem_nil)
      (List.forall_mem_cons.2 ⟨passes_of_read distinct (.head _) first,
        List.forall_mem_singleton.2 (passes_of_read distinct (.tail _ (.head _)) second)⟩)
  have found : (named [(p.name, a), (q.name, a')]).get title 2 p = .ok b :=
    get_named [(_, a), (_, a')] distinct (.head _) first
  have found' : (named [(p.name, a), (q.name, a')]).get title 2 q = .ok b' :=
    get_named [(_, a), (_, a')] distinct (.tail _ (.head _)) second
  rw [two, passes, found, found']
  rfl

/-- Three parts that are all there. -/
theorem three_named (distinct : [p.name, q.name, r.name].Nodup) (first : p.read a = .ok b)
    (second : q.read a' = .ok b') (third : r.read a'' = .ok b'') (title : String) (count : Nat) :
    let parts := named [(p.name, a), (q.name, a'), (r.name, a'')]
    parts.start [p.check, q.check, r.check] = .ok () ∧ parts.get title count p = .ok b ∧
      parts.get title count q = .ok b' ∧ parts.get title count r = .ok b'' :=
  ⟨checkNamed_eq_ok distinct (fun _ _ => List.not_mem_nil)
    (List.forall_mem_cons.2 ⟨passes_of_read distinct (.head _) first,
      List.forall_mem_cons.2 ⟨passes_of_read distinct (.tail _ (.head _)) second,
        List.forall_mem_singleton.2
          (passes_of_read distinct (.tail _ (.tail _ (.head _))) third)⟩⟩),
    get_named [(_, a), (_, a'), (_, a'')] distinct (.head _) first,
    get_named [(_, a), (_, a'), (_, a'')] distinct (.tail _ (.head _)) second,
    get_named [(_, a), (_, a'), (_, a'')] distinct (.tail _ (.tail _ (.head _))) third⟩

/-- Two parts that are there, if a third one may be missing. -/
theorem two_named_of_three (distinct : [p.name, q.name, r.name].Nodup) (first : p.read a = .ok b)
    (second : q.read a' = .ok b') (title : String) (count : Nat) :
    let parts := named [(p.name, a), (q.name, a')]
    parts.start [p.check, q.check, r.check] = .ok () ∧ parts.get title count p = .ok b ∧
      parts.get title count q = .ok b' :=
  have fewer : [p.name, q.name].Nodup := distinct.sublist (List.sublist_append_left [_, _] [_])
  ⟨checkNamed_eq_ok fewer (fun _ _ => List.not_mem_nil)
    (List.forall_mem_cons.2 ⟨passes_of_read distinct (.head _) first,
      List.forall_mem_singleton.2 (passes_of_read distinct (.tail _ (.head _)) second)⟩),
    get_named [(_, a), (_, a')] fewer (.head _) first,
    get_named [(_, a), (_, a')] fewer (.tail _ (.head _)) second⟩

end Parts

/-- An enum member whose literal reads back is read back from its JSON. -/
theorem EnumMember.ofJson_toJson {m : EnumMember} (back : m.value.ReadsBack) :
    ofJson m.toJson = .ok m :=
  Parts.two_named (p := ⟨0, "name", readString⟩) (q := ⟨1, "value", EnumLiteral.ofJson⟩)
    (a := .string m.name) (by decide) rfl (EnumLiteral.ofJson_toJson back) _ _

/-! ## Nodes -/

/-- The kinds that are asked for by name. -/
def KnowsNames (kindOf : Json → Except Misfit NodeKind) : Prop :=
  ∀ kind : NodeKind, kindOf (.string kind.name) = .ok kind

/-- What a value is read as, if its kind is read so. -/
def readNode (kindOf : Json → Except Misfit NodeKind) : Json → Except Misfit Descriptor
  | .object members => readNamedNode kindOf (memberReadings members)
  | .array items => readPlacedNode kindOf (readings items)
  | leaf => noNode leaf

/-- A descriptor is read by the reader of nodes, with the kinds the root admits. -/
theorem Descriptor.ofJson_eq_readNode (j : Json) : ofJson j = readNode NodeKind.ofOuterJson j := by
  cases j <;> rfl

/-- What is nested is read by the same reader, with the kinds a nested node admits. -/
theorem descriptor_reading (j : Json) :
    (reading j).descriptor = readNode NodeKind.ofInnerJson j := by
  cases j <;> simp [reading, readNode]

theorem json_reading (j : Json) : (reading j).json = j := by
  cases j <;> simp [reading]

theorem readings_eq_map (js : List Json) : readings js = js.map reading := by
  induction js with
  | nil => rw [readings, List.map_nil]
  | cons j rest ih => rw [readings, ih, List.map_cons]

/-- The members' readings are taken one by one. -/
theorem memberReadings_eq_map (ms : Members) :
    memberReadings ms = ms.map fun m => (m.1, reading m.2) := by
  induction ms with
  | nil => rw [memberReadings, List.map_nil]
  | cons m rest ih => rw [memberReadings, ih, List.map_cons]

/-- Splitting off the kind leaves parts without a member of that name as they are. -/
theorem splitKind_eq (kindOf : Json → Except Misfit NodeKind) (seen : Option NodeKind)
    {parts : List (String × Reading)} (without : ∀ m ∈ parts, m.1 ≠ "kind") :
    splitKind kindOf seen parts = .ok (seen, parts) := by
  induction parts with
  | nil => rw [splitKind]
  | cons m rest ih =>
    rw [List.forall_mem_cons] at without
    rw [splitKind, if_neg without.1, ih without.2]
    rfl

/-- **A node is read as its kind asks**, if the kind stands in front of its parts. -/
theorem readNode_kindObject {kindOf : Json → Except Misfit NodeKind} (knows : KnowsNames kindOf)
    (kind : NodeKind) {members : Members} (without : "kind" ∉ members.map (·.1)) :
    readNode kindOf (kindObject kind.name members) =
      kind.read (.named (members.map fun m => (m.1, reading m.2))) := by
  have named : ∀ m ∈ members.map fun m => (m.1, reading m.2), m.1 ≠ "kind" :=
    List.forall_mem_map.2 fun m hm same => without (same ▸ List.mem_map_of_mem hm)
  rw [kindObject, readNode, memberReadings_eq_map, List.map_cons, readNamedNode, splitKind,
    if_pos rfl, Option.isSome_none, if_neg Bool.false_ne_true, json_reading, knows kind, ok_bind,
    splitKind_eq _ _ named, ok_bind]

/-! ## Lists -/

/-- A traversal succeeds exactly when every element does, each with its own result. -/
theorem mapM_eq_ok {α β ε : Type} {f : α → Except ε β} {as : List α} {bs : List β} :
    as.mapM f = .ok bs ↔ List.Forall₂ (fun a b => f a = .ok b) as bs := by
  induction as generalizing bs with
  | nil => simp [eq_comm]
  | cons a rest ih =>
    rw [List.mapM_cons]
    constructor
    · intro h
      obtain ⟨b, first, h⟩ := bind_eq_ok.1 h
      obtain ⟨others, each, same⟩ := bind_eq_ok.1 h
      cases same
      exact .cons first (ih.1 each)
    · rintro (_ | ⟨first, each⟩)
      rw [first, ok_bind, ih.2 each]
      rfl

/-- What is written item by item is read item by item. -/
theorem mapM_map_eq_ok {α β ε : Type} {f : α → Except ε β} {g : β → α} {bs : List β}
    (each : ∀ b ∈ bs, f (g b) = .ok b) : (bs.map g).mapM f = .ok bs := by
  rw [mapM_eq_ok, List.forall₂_map_left_iff, List.forall₂_same]
  exact each

/-! ## Descriptors -/

namespace Descriptor

/-- The literals of the enums of a descriptor are read from what is written for them. -/
def ReadsBack (d : Descriptor) : Prop :=
  ∀ e, (enum e).OccursIn d → ∀ m ∈ e.members, m.value.ReadsBack

theorem listJson_eq_map (ds : List Descriptor) : listJson ds = ds.map toJson := by
  induction ds with
  | nil => rw [listJson, List.map_nil]
  | cons d rest ih => rw [listJson, ih, List.map_cons]

/-- A field as JSON. -/
def fieldJson (f : Field) : Json := .object [("name", .string f.1), ("type", f.2.toJson)]

theorem fieldsJson_eq_map (fields : List Field) : fieldsJson fields = fields.map fieldJson := by
  induction fields with
  | nil => rw [fieldsJson, List.map_nil]
  | cons f rest ih => rw [fieldsJson, ih, List.map_cons, fieldJson]

end Descriptor

/-- What a part is read from is the value itself. -/
theorem read_reading {β : Type} (read : Json → Except Misfit β) (index : Nat) (name : String)
    (j : Json) :
    (⟨index, name, fun r => read r.json⟩ : Parts.Part Reading β).read (reading j) = read j := by
  change read (reading j).json = read j
  rw [json_reading]

/-- A string is read back as the text of a part. -/
theorem read_text (index : Nat) (name s : String) :
    (Parts.Part.text index name).read (reading (.string s)) = .ok s :=
  read_reading readString index name (.string s)

/-- A descriptor that is written as an object with the kind in front, and that its kind reads from
the other members. -/
inductive IsRead (d : Descriptor) : Prop where
  | of_kind (kind : NodeKind) (members : Members)
      (written : d.toJson = kindObject kind.name members) (without : "kind" ∉ members.map (·.1))
      (read : kind.read (.named (members.map fun m => (m.1, reading m.2))) = .ok d) : IsRead d

namespace IsRead

variable {d : Descriptor}

/-- A descriptor's JSON is read back by every reader of nodes that knows the names of the kinds. -/
theorem readNode_eq (isRead : IsRead d) {kindOf : Json → Except Misfit NodeKind}
    (knows : KnowsNames kindOf) : readNode kindOf d.toJson = .ok d := by
  obtain ⟨kind, members, written, without, read⟩ := isRead
  rw [written, readNode_kindObject knows kind without, read]

/-- A nested descriptor is read back. -/
theorem descriptor_eq (isRead : IsRead d) : (reading d.toJson).descriptor = .ok d := by
  rw [descriptor_reading]
  exact isRead.readNode_eq NodeKind.ofInnerJson_name

/-- A list of descriptors that each read back is read back. -/
theorem descriptors_eq {ds : List Descriptor} (read : ∀ d ∈ ds, IsRead d) :
    (reading (.array (Descriptor.listJson ds))).descriptors = .ok ds := by
  rw [reading, Descriptor.listJson_eq_map, readings_eq_map, List.map_map]
  exact mapM_map_eq_ok fun d hd => (read d hd).descriptor_eq

/-- A field whose descriptor reads back is read back. -/
theorem field_eq {f : Field} (read : IsRead f.2) :
    (reading (Descriptor.fieldJson f)).field = .ok f := by
  rw [Descriptor.fieldJson, reading, memberReadings_eq_map]
  exact Parts.two_named (p := .text 0 "name") (q := .node 1 "type") (by decide)
    (read_text ..) read.descriptor_eq _ _

/-- A list of fields that each read back is read back. -/
theorem fields_eq {fields : List Field} (read : ∀ f ∈ fields, IsRead f.2) :
    (reading (.array (Descriptor.fieldsJson fields))).fields = .ok fields := by
  rw [reading, Descriptor.fieldsJson_eq_map, readings_eq_map, List.map_map]
  exact mapM_map_eq_ok fun f hf => field_eq (read f hf)

/-- A node with one part. -/
theorem of_one (kind : NodeKind) {β : Type} {p : Parts.Part Reading β} {b : β} (j : Json)
    (make : β → Descriptor) {title : String}
    (written : (make b).toJson = kindObject kind.name [(p.name, j)]) (without : "kind" ∉ [p.name])
    (reads : ∀ parts, kind.read parts = parts.one title p make)
    (part : p.read (reading j) = .ok b) : IsRead (make b) :=
  of_kind kind _ written without ((reads _).trans (Parts.one_named part title make))

/-- A node with two parts. -/
theorem of_two (kind : NodeKind) {β β' : Type} {p : Parts.Part Reading β}
    {q : Parts.Part Reading β'} {b : β} {b' : β'} (j j' : Json) (make : β → β' → Descriptor)
    {title : String}
    (written : (make b b').toJson = kindObject kind.name [(p.name, j), (q.name, j')])
    (distinct : ["kind", p.name, q.name].Nodup)
    (reads : ∀ parts, kind.read parts = parts.two title p q make)
    (first : p.read (reading j) = .ok b) (second : q.read (reading j') = .ok b') :
    IsRead (make b b') :=
  have apart := List.nodup_cons.1 distinct
  of_kind kind _ written apart.1
    ((reads _).trans (Parts.two_named apart.2 first second title make))

theorem scalar (kind : ScalarKind) : IsRead (.scalar kind) :=
  of_one .scalar _ .scalar rfl (by decide) (fun _ => rfl)
    ((read_reading ScalarKind.ofJson 0 "primitive" _).trans kind.ofJson_name)

theorem temporal (kind : TemporalKind) : IsRead (.temporal kind) :=
  of_one .temporal _ .temporal rfl (by decide) (fun _ => rfl)
    ((read_reading TemporalKind.ofJson 0 "temporal" _).trans kind.ofJson_name)

/-- A record reads back when its fields' descriptors do. -/
theorem record {name : String} {fields : List Field} {transparent : Bool}
    (ih : ∀ f ∈ fields, IsRead f.2) : IsRead (.record name fields transparent) := by
  let wrapping : Parts.Part Reading Bool := ⟨2, "transparent", fun r => readBool r.json⟩
  have distinct : ["name", "fields", "transparent"].Nodup := by decide
  have first := read_text 0 "name" name
  have second : (Parts.Part.fieldList 1).read
      (reading (.array (Descriptor.fieldsJson fields))) = .ok fields := fields_eq ih
  have third : wrapping.read (reading (.bool true)) = .ok true := read_reading readBool ..
  refine of_kind .record _ rfl (by cases transparent <;> simp) ?_
  rw [NodeKind.read]
  cases transparent with
  | false =>
    obtain ⟨passes, name', fields'⟩ :=
      Parts.two_named_of_three (r := wrapping) distinct first second "struct RecordDef" 3
    exact bind_eq_ok.2 ⟨(), passes, bind_eq_ok.2 ⟨name, name', bind_eq_ok.2 ⟨fields, fields', rfl⟩⟩⟩
  | true =>
    obtain ⟨passes, name', fields', transparent'⟩ :=
      Parts.three_named distinct first second third "struct RecordDef" 3
    exact bind_eq_ok.2 ⟨(), passes, bind_eq_ok.2 ⟨name, name', bind_eq_ok.2 ⟨fields, fields',
      bind_eq_ok.2 ⟨true, transparent', rfl⟩⟩⟩⟩

/-- A template reads back when its fields' descriptors do. -/
theorem template {name : String} {params : List String} {fields : List Field}
    (ih : ∀ f ∈ fields, IsRead f.2) : IsRead (.template name params fields) := by
  let texts : Parts.Part Reading (List String) := ⟨1, "params", fun r => readList readString r.json⟩
  have distinct : ["name", "params", "fields"].Nodup := by decide
  have second : texts.read (reading (.array (params.map .string))) = .ok params :=
    (read_reading (readList readString) ..).trans (mapM_map_eq_ok fun _ _ => rfl)
  have third : (Parts.Part.fieldList 2).read
      (reading (.array (Descriptor.fieldsJson fields))) = .ok fields := fields_eq ih
  obtain ⟨passes, name', params', fields'⟩ :=
    Parts.three_named distinct (read_text 0 "name" name) second third "struct GenericRecordDef" 3
  refine of_kind .template _ rfl (by simp) ?_
  exact bind_eq_ok.2 ⟨(), passes, bind_eq_ok.2 ⟨name, name', bind_eq_ok.2 ⟨params, params',
    bind_eq_ok.2 ⟨fields, fields', rfl⟩⟩⟩⟩

/-- An application reads back when its origin and arguments do. -/
theorem application {origin : Descriptor} {args : List Descriptor} (ih : IsRead origin)
    (each : ∀ d ∈ args, IsRead d) : IsRead (.application origin args) :=
  of_two .application _ (.array (Descriptor.listJson args)) .application rfl (by decide)
    (fun _ => rfl) ih.descriptor_eq (descriptors_eq each)

theorem param (name : String) : IsRead (.param name) :=
  of_one .param _ .param rfl (by decide) (fun _ => rfl) (read_text 0 "name" _)

theorem list {element : Descriptor} (ih : IsRead element) : IsRead (.list element) :=
  of_one .list _ .list rfl (by decide) (fun _ => rfl) ih.descriptor_eq

theorem tuple {items : List Descriptor} (each : ∀ d ∈ items, IsRead d) : IsRead (.tuple items) :=
  of_one .tuple (.array (Descriptor.listJson items)) .tuple rfl (by decide) (fun _ => rfl)
    (descriptors_eq each)

theorem variadic {items : List Descriptor} (each : ∀ d ∈ items, IsRead d) :
    IsRead (.variadic items) :=
  of_one .variadic (.array (Descriptor.listJson items)) .variadic rfl (by decide) (fun _ => rfl)
    (descriptors_eq each)

theorem mapping {key value : Descriptor} (ihk : IsRead key) (ihv : IsRead value) :
    IsRead (.mapping key value) :=
  of_two .mapping _ _ .mapping rfl (by decide) (fun _ => rfl)
    ihk.descriptor_eq ihv.descriptor_eq

theorem optional {inner : Descriptor} (ih : IsRead inner) : IsRead (.optional inner) :=
  of_one .optional _ .optional rfl (by decide) (fun _ => rfl) ih.descriptor_eq

theorem union {members : List Descriptor} (each : ∀ d ∈ members, IsRead d) :
    IsRead (.union members) :=
  of_one .union (.array (Descriptor.listJson members)) .union rfl (by decide) (fun _ => rfl)
    (descriptors_eq each)

/-- An enum reads back when its literals do. -/
theorem enum {e : EnumDef} (back : ∀ m ∈ e.members, m.value.ReadsBack) : IsRead (.enum e) :=
  of_two .enum _ (.array (e.members.map (·.toJson))) (fun name ms => .enum ⟨name, ms⟩)
    rfl (by decide) (fun _ => rfl) (read_text 0 "name" e.name)
    ((read_reading (readList EnumMember.ofJson) 1 "members" _).trans
      (mapM_map_eq_ok fun m hm => EnumMember.ofJson_toJson (back m hm)))

theorem foreign (name : String) : IsRead (.foreign name) :=
  of_one .foreign _ .foreign rfl (by decide) (fun _ => rfl) (read_text 0 "name" _)

end IsRead

/-- **Every descriptor is read wherever it stands**, if its literals are. -/
theorem isRead {d : Descriptor} (back : d.ReadsBack) : IsRead d := by
  induction d with
  | scalar kind => exact .scalar kind
  | temporal kind => exact .temporal kind
  | record name fields transparent ih =>
    exact .record fun f hf => ih f hf fun e part => back e (.record hf part)
  | template name params fields ih =>
    exact .template fun f hf => ih f hf fun e part => back e (.template hf part)
  | application origin args ih each =>
    exact .application (ih fun e part => back e (.origin part))
      fun d hd => each d hd fun e part => back e (.argument hd part)
  | param name => exact .param name
  | list element ih => exact .list (ih fun e part => back e (.list part))
  | tuple items each => exact .tuple fun d hd => each d hd fun e part => back e (.tuple hd part)
  | variadic items each =>
    exact .variadic fun d hd => each d hd fun e part => back e (.variadic hd part)
  | mapping key value ihk ihv =>
    exact .mapping (ihk fun e part => back e (.key part)) (ihv fun e part => back e (.value part))
  | optional inner ih => exact .optional (ih fun e part => back e (.optional part))
  | union members each => exact .union fun d hd => each d hd fun e part => back e (.union hd part)
  | enum e => exact .enum (back e .here)
  | foreign name => exact .foreign name

namespace Descriptor

variable {d : Descriptor}

/-- **Reading a descriptor undoes writing it.** -/
theorem ofJson_toJson (back : d.ReadsBack) : ofJson d.toJson = .ok d := by
  rw [ofJson_eq_readNode]
  exact (isRead back).readNode_eq NodeKind.ofOuterJson_name

/-! ## Numbers -/

/-- A node is written with numbers that read back when its parts are. -/
theorem readsBack_kindObject {kind : String} {members : Members}
    (each : ∀ m ∈ members, m.2.ReadsBack) : (kindObject kind members).ReadsBack :=
  .object (List.forall_mem_cons.2 ⟨.string kind, each⟩)

/-- A list of descriptors is written with numbers that read back when each descriptor is. -/
theorem readsBack_listJson {ds : List Descriptor} (each : ∀ d ∈ ds, d.toJson.ReadsBack) :
    (Json.array (listJson ds)).ReadsBack := by
  rw [listJson_eq_map]
  exact .array (List.forall_mem_map.2 each)

/-- A list of fields is written with numbers that read back when each descriptor is. -/
theorem readsBack_fieldsJson {fields : List Field} (each : ∀ f ∈ fields, f.2.toJson.ReadsBack) :
    (Json.array (fieldsJson fields)).ReadsBack := by
  rw [fieldsJson_eq_map]
  exact .array (List.forall_mem_map.2 fun f hf =>
    .object (List.forall_mem_cons.2 ⟨.string f.1, List.forall_mem_singleton.2 (each f hf)⟩))

/-- The numbers in what is written are those of the literals. -/
theorem readsBack_toJson (back : d.ReadsBack) : d.toJson.ReadsBack := by
  have one {name : String} {j : Json} (h : j.ReadsBack) : ∀ m ∈ [(name, j)], m.2.ReadsBack :=
    List.forall_mem_singleton.2 h
  induction d with
  | scalar kind | temporal kind | param name | foreign name =>
    rw [toJson]
    exact readsBack_kindObject (one (.string _))
  | record name fields transparent ih =>
    have listed := readsBack_fieldsJson fun f hf => ih f hf fun e part => back e (.record hf part)
    rw [toJson]
    refine readsBack_kindObject (List.forall_mem_cons.2 ⟨.string name, List.forall_mem_cons.2
      ⟨listed, ?_⟩⟩)
    cases transparent with
    | false => exact List.forall_mem_nil _
    | true => exact one (.bool true)
  | template name params fields ih =>
    have listed := readsBack_fieldsJson fun f hf => ih f hf fun e part => back e (.template hf part)
    rw [toJson]
    exact readsBack_kindObject (List.forall_mem_cons.2 ⟨.string name, List.forall_mem_cons.2
      ⟨.array (List.forall_mem_map.2 fun p _ => .string p), one listed⟩⟩)
  | application origin args ih each =>
    rw [toJson]
    exact readsBack_kindObject (List.forall_mem_cons.2 ⟨ih fun e part => back e (.origin part),
      one (readsBack_listJson fun d hd => each d hd fun e part => back e (.argument hd part))⟩)
  | list inner ih | optional inner ih =>
    rw [toJson]
    exact readsBack_kindObject (one (ih fun e part => back e (by constructor; exact part)))
  | tuple ds each | variadic ds each | union ds each =>
    rw [toJson]
    exact readsBack_kindObject (one (readsBack_listJson fun d hd => each d hd fun e part =>
      back e (by constructor <;> assumption)))
  | mapping key value ihk ihv =>
    rw [toJson]
    exact readsBack_kindObject (List.forall_mem_cons.2 ⟨ihk fun e part => back e (.key part),
      one (ihv fun e part => back e (.value part))⟩)
  | enum e =>
    rw [toJson]
    exact readsBack_kindObject (List.forall_mem_cons.2 ⟨.string e.name, one (.array (
      List.forall_mem_map.2 fun m hm => .object (List.forall_mem_cons.2 ⟨.string m.name,
        one (EnumLiteral.readsBack_toJson (back e .here m hm))⟩)))⟩)

/-! ## Out of a draft -/

/-- Every kind's name passes the check of the `kind` member. -/
theorem checkKind_name (kind : NodeKind) : checkKind (.string (.ok kind.name)) = .ok () := by
  cases kind <;> rfl

/-- Members of which none is named `kind` pass the checks once each of them can be read. -/
theorem checkMembers_eq_ok {levels : Nat} {ds : List (Except Json.Fault String × Draft)}
    {ms : Members}
    (each : List.Forall₂ (fun d m => d.1 = .ok m.1 ∧ d.2.read levels = .ok m.2) ds ms)
    (without : "kind" ∉ ms.map (·.1)) (seen : Bool) : checkMembers levels seen ds = .ok () := by
  induction each with
  | nil => rw [checkMembers]
  | @cons d m ds ms head _ ih =>
    obtain ⟨key, d⟩ := d
    obtain ⟨name, read⟩ := head
    rw [List.map_cons, List.mem_cons, not_or] at without
    rw [checkMembers, Json.wellFormed_eq_ok.2 name, ok_bind, if_neg (Ne.symm without.1),
      Json.wellFormed_eq_ok.2 read, ok_bind]
    exact ih without.2

/-- **What a draft holds of a descriptor is the descriptor**: nothing is wrong with its kind or its
other members when they are looked at. -/
theorem ofDraft_of_read (back : d.ReadsBack) {levels : Nat} {draft : Draft}
    (read : draft.read levels = .ok d.toJson) : ofDraft levels draft = .ok d := by
  have whole : (do
      let j ← Json.wellFormed (draft.read levels)
      Json.fitting (ofJson j)) = .ok d := by
    rw [Json.wellFormed_eq_ok.2 read, ok_bind, ofJson_toJson back]
    rfl
  obtain ⟨kind, members, written, without, -⟩ := isRead back
  rw [written] at read
  obtain ⟨inner, opening, _, rfl, rfl, each⟩ := Json.exists_of_read_object read
  cases each with
  | @cons first _ rest _ head tail =>
    obtain ⟨key, first⟩ := first
    obtain ⟨name, named⟩ := head
    obtain rfl := Json.eq_of_read_string named
    have fine : checkMembers inner false ((key, .string (.ok kind.name)) :: rest) = .ok () := by
      rw [checkMembers, Json.wellFormed_eq_ok.2 name, ok_bind, if_pos rfl,
        if_neg Bool.false_ne_true, checkKind_name]
      exact checkMembers_eq_ok tail without true
    exact bind_eq_ok.2 ⟨(), fine, whole⟩

end Descriptor

end RpcBridge
