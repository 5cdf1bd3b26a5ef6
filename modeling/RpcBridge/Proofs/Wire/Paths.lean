import RpcBridge.Proofs.Descriptor.Shape
import RpcBridge.Proofs.Wire.Outcome
import RpcBridge.Wire.Decode

/-!
# Proofs/Wire/Paths — paths that are built on the way down

An error keeps the steps to the part that failed, and is given its path when it is shown.  The other
way to come to a path is to carry it along, from a name for the whole value on, and to lengthen it
with every step into a part; `decodeUnder` and `encodeUnder` do that.  Both ways come to the same
reports, so what carries its path along does not depend on the name that it starts with.

* `decodeUnder_eq`, `encodeUnder_eq` — both ways come to the same reports;
* `Reported.Alike` — outcomes that differ in the name of the whole value only.
-/

namespace RpcBridge

/-! ## Reports -/

namespace Step

/-- The text of steps one after the other. -/
def render (steps : List Step) : String := "".intercalate (steps.map toText)

@[simp] theorem render_nil : render [] = "" := rfl

@[simp] theorem render_cons (step : Step) (rest : List Step) :
    render (step :: rest) = step.toText ++ render rest := by
  unfold render
  cases rest with
  | nil => rw [List.map_nil, List.map_singleton, String.intercalate_singleton,
      String.intercalate_nil, String.append_empty]
  | cons next rest =>
    rw [List.map_cons, List.map_cons, String.intercalate_cons_cons, String.append_empty]

end Step

/-- A failure as it is reported: the path to the part that failed, and what went wrong there. -/
structure Failure where
  path : String
  cause : WireCause

/-- The outcome of carrying a value across the wire, as it is reported. -/
abbrev Reported (α : Type) := Except Failure α

/-- An error under a name for the whole value. -/
def WireError.under (path : String) (e : WireError) : Failure := ⟨e.path path, e.cause⟩

/-- A step into a part lengthens the path. -/
theorem WireError.under_within (path : String) (step : Step) (e : WireError) :
    (e.within step).under path = e.under (path ++ step.toText) := by
  have steps : Step.render (step :: e.steps) = step.toText ++ Step.render e.steps :=
    Step.render_cons step e.steps
  rw [under, under, WireError.path, WireError.path, String.append_assoc]
  exact congrArg (fun text => Failure.mk (path ++ text) e.cause) steps

namespace Wired

variable {α β : Type}

/-- An outcome under a name for the whole value. -/
def under (path : String) (w : Wired α) : Reported α := w.mapError (WireError.under path)

@[simp] theorem under_ok (path : String) (a : α) : under path (.ok a) = .ok a := rfl

theorem under_bind (path : String) (w : Wired α) (f : α → Wired β) :
    (w >>= f).under path = w.under path >>= fun a => (f a).under path := by
  cases w <;> rfl

theorem under_within (path : String) (step : Step) (w : Wired α) :
    (w.within step).under path = w.under (path ++ step.toText) := by
  cases w with
  | ok a => rfl
  | error e => exact congrArg Except.error (e.under_within path step)

end Wired

/-! ## Reading -/

namespace Wire

section Walks

variable {α β : Type}

/-- Carries the items of a list over one by one, each under its own path. -/
def itemsUnder (item : String → α → Reported β) (path : String) (start : Nat) :
    List α → Reported (List β)
  | [] => .ok []
  | a :: rest => do
    let b ← item (path ++ (Step.index start).toText) a
    return b :: (← itemsUnder item path (start + 1) rest)

theorem itemsUnder_eq {item : String → α → Reported β} {item' : α → Wired β}
    (each : ∀ path a, item path a = (item' a).under path) (path : String) (start : Nat)
    (as : List α) : itemsUnder item path start as = (Wired.items item' start as).under path := by
  induction as generalizing start with
  | nil => rfl
  | cons a rest ih =>
    simp only [itemsUnder, Wired.items, Wired.under_bind, Wired.under_within, each, ih]
    rfl

end Walks

/-- Carries the members of an object over one by one, key and value under the path of the key. -/
def membersUnder (keyShape : Shape) (key value : String → Json → Reported Value) (path : String) :
    Members → Reported (List (Value × Value))
  | [] => .ok []
  | (name, j) :: rest => do
    let here := path ++ (Step.key name).toText
    let k ← key here (← (keyJson keyShape name).under here)
    let v ← value here j
    return (k, v) :: (← membersUnder keyShape key value path rest)

theorem membersUnder_eq {keyShape : Shape} {key value : String → Json → Reported Value}
    {key' value' : Json → Wired Value} (keys : ∀ path j, key path j = (key' j).under path)
    (values : ∀ path j, value path j = (value' j).under path) (path : String) (ms : Members) :
    membersUnder keyShape key value path ms =
      (decodeMembers keyShape key' value' ms).under path := by
  induction ms with
  | nil => rfl
  | cons m rest ih =>
    simp only [membersUnder, decodeMembers, Wired.under_bind, Wired.under_within, keys, values, ih]
    simp

mutual

/-- The value of a shape that a JSON value holds, with the path to that value. -/
def decodeUnder : Shape → String → Json → Reported Value
  | .scalar kind, path, j => (decodeScalar kind j).under path
  | .temporal kind, path, j => (decodeTemporal kind j).under path
  | .list element, path, .array js => do return .list (← itemsUnder (decodeUnder element) path 0 js)
  | .list _, path, j => (Wired.mismatch "array" j.kind).under path
  | .tuple items, path, .array js =>
    if js.length = items.length then do return .list (← decodeItemsUnder items path 0 js)
    else (Wired.mismatch s!"tuple of {items.length}" s!"array of {js.length}").under path
  | .tuple _, path, j => (Wired.mismatch "tuple" j.kind).under path
  | .mapping key value, path, .object members => do
    return .map (← membersUnder key (decodeUnder key) (decodeUnder value) path members)
  | .mapping _ _, path, j => (Wired.mismatch "object" j.kind).under path
  | .optional _, _, .null => .ok .null
  | .optional inner, path, j => decodeUnder inner path j
  | .enum e, path, j => (decodeEnum e j).under path
  | .record name fields, path, .object members
  | .bareTemplate _ name fields, path, .object members
  | .opened _ name fields, path, .object members => do
    return .ofFields name (← decodeFieldsUnder fields path members)
  | .record name _, path, j
  | .bareTemplate _ name _, path, j
  | .opened _ name _, path, j => (Wired.mismatch s!"record {name}" j.kind).under path
  | .wrapper _ _ inner, path, j => decodeUnder inner path j
  | .blocked d obstacle, path, _ => (Wired.fail (.unsupported d obstacle)).under path

/-- The values of the items of a tuple, each under its own path. -/
def decodeItemsUnder : List Shape → String → Nat → List Json → Reported (List Value)
  | s :: shapes, path, start, j :: js => do
    let v ← decodeUnder s (path ++ (Step.index start).toText) j
    return v :: (← decodeItemsUnder shapes path (start + 1) js)
  | _, _, _, _ => .ok []

/-- The fields of a record, each under its own path. -/
def decodeFieldsUnder : List (String × Shape) → String → Members → Reported (List (String × Value))
  | [], _, _ => .ok []
  | (name, s) :: rest, path, members => do
    let here := path ++ (Step.member name).toText
    let v ← match members.lookup name with
      | some j => decodeUnder s here j
      | none => if s.allowsAbsence then .ok .null else (Wired.fail .missing).under here
    return (name, v) :: (← decodeFieldsUnder rest path members)

end

theorem decodeItemsUnder_eq {items : List Shape}
    (each : ∀ s ∈ items, ∀ path j, decodeUnder s path j = (decode s j).under path) (path : String)
    (start : Nat) (js : List Json) :
    decodeItemsUnder items path start js = (decodeItems items start js).under path := by
  induction items generalizing start js with
  | nil => simp only [decodeItemsUnder, decodeItems, Wired.under_ok]
  | cons s rest ih =>
    rw [List.forall_mem_cons] at each
    cases js with
    | nil => simp only [decodeItemsUnder, decodeItems, Wired.under_ok]
    | cons j js =>
      simp only [decodeItemsUnder, decodeItems, Wired.under_bind, Wired.under_within, each.1,
        ih each.2]
      rfl

theorem decodeFieldsUnder_eq {fields : List (String × Shape)}
    (each : ∀ f ∈ fields, ∀ path j, decodeUnder f.2 path j = (decode f.2 j).under path)
    (path : String) (ms : Members) :
    decodeFieldsUnder fields path ms = (decodeFields fields ms).under path := by
  induction fields with
  | nil => simp only [decodeFieldsUnder, decodeFields, Wired.under_ok]
  | cons f rest ih =>
    rw [List.forall_mem_cons] at each
    rw [decodeFieldsUnder, decodeFields]
    cases ms.lookup f.1 with
    | some j =>
      simp only [Wired.under_bind, Wired.under_within, each.1, ih each.2]
      rfl
    | none =>
      cases allowed : f.2.allowsAbsence with
      | true =>
        simp only [ih each.2, if_true, ok_bind, Wired.under_bind]
        rfl
      | false =>
        simp only [Bool.false_eq_true, if_false, Wired.under_bind, Wired.under_within]
        rfl

/-- **Reading with the path carried along** comes to the same as giving the path to the error. -/
theorem decodeUnder_eq (s : Shape) (path : String) (j : Json) :
    decodeUnder s path j = (decode s j).under path := by
  induction s generalizing path j with
  | scalar | temporal | enum | blocked => rw [decodeUnder, decode]
  | list element ih =>
    cases j with
    | array js =>
      rw [decodeUnder, decode, itemsUnder_eq ih, Wired.under_bind]
      rfl
    | _ => rfl
  | tuple items ih =>
    cases j with
    | array js =>
      rw [decodeUnder, decode]
      split
      · rw [decodeItemsUnder_eq ih, Wired.under_bind]
        rfl
      · rfl
    | _ => rfl
  | mapping key value ihKey ihValue =>
    cases j with
    | object members =>
      rw [decodeUnder, decode, membersUnder_eq ihKey ihValue, Wired.under_bind]
      rfl
    | _ => rfl
  | optional inner ih =>
    cases j with
    | null => rfl
    | _ => exact ih path _
  | wrapper name field inner ih =>
    rw [decodeUnder, decode]
    exact ih path j
  | record name fields ih | bareTemplate _ name fields ih | opened _ name fields ih =>
    cases j with
    | object members =>
      rw [decodeUnder, decode, decodeFieldsUnder_eq ih, Wired.under_bind]
      rfl
    | _ => rfl

/-! ## Writing -/

/-- Carries the entries of a map over one by one, key and value under the path of the key. -/
def entriesUnder (key value : String → Value → Reported Json) (path : String) (done : Members) :
    List (Value × Value) → Reported Members
  | [] => .ok done
  | (k, v) :: rest => do
    let here := path ++ (Step.key k.toText).toText
    let name ← (memberName (← key here k)).under here
    let j ← value here v
    entriesUnder key value path (putEntry done name j) rest

theorem entriesUnder_eq {key value : String → Value → Reported Json}
    {key' value' : Value → Wired Json} (keys : ∀ path v, key path v = (key' v).under path)
    (values : ∀ path v, value path v = (value' v).under path) (path : String) (done : Members)
    (es : List (Value × Value)) :
    entriesUnder key value path done es = (encodeEntries key' value' done es).under path := by
  induction es generalizing done with
  | nil => rfl
  | cons e rest ih =>
    simp only [entriesUnder, encodeEntries, Wired.under_bind, Wired.under_within, keys, values, ih]
    simp

mutual

/-- The JSON value of a value of a shape, with the path to that value. -/
def encodeUnder : Shape → String → Value → Reported Json
  | .scalar kind, path, v => (encodeScalar kind v).under path
  | .temporal kind, path, v => (encodeTemporal kind v).under path
  | .list element, path, .list vs => do return .array (← itemsUnder (encodeUnder element) path 0 vs)
  | .list _, path, v => (Wired.mismatch "list" v.kind).under path
  | .tuple items, path, .list vs =>
    if vs.length = items.length then do return .array (← encodeItemsUnder items path 0 vs)
    else (Wired.mismatch s!"tuple of {items.length}" s!"tuple of {vs.length}").under path
  | .tuple _, path, v => (Wired.mismatch "tuple" v.kind).under path
  | .mapping key value, path, .map entries => do
    return .object (← entriesUnder (encodeUnder key) (encodeUnder value) path [] entries)
  | .mapping _ _, path, v => (Wired.mismatch "map" v.kind).under path
  | .optional _, _, .null => .ok .null
  | .optional inner, path, v => encodeUnder inner path v
  | .enum e, path, v => (encodeEnum e v).under path
  | .record _ fields, path, .record _ vs
  | .bareTemplate _ _ fields, path, .record _ vs
  | .opened _ _ fields, path, .record _ vs => do
    return .object (← encodeFieldsUnder fields path vs [])
  | .record _ _, path, v
  | .bareTemplate _ _ _, path, v
  | .opened _ _ _, path, v => (Wired.mismatch "record" v.kind).under path
  | .wrapper _ _ inner, path, v => encodeUnder inner path v
  | .blocked d obstacle, path, _ => (Wired.fail (.unsupported d obstacle)).under path

/-- The JSON values of the items of a tuple, each under its own path. -/
def encodeItemsUnder : List Shape → String → Nat → List Value → Reported (List Json)
  | s :: shapes, path, start, v :: vs => do
    let j ← encodeUnder s (path ++ (Step.index start).toText) v
    return j :: (← encodeItemsUnder shapes path (start + 1) vs)
  | _, _, _, _ => .ok []

/-- The members of a record, each under its own path. -/
def encodeFieldsUnder : List (String × Shape) → String → List (String × Value) → Members →
    Reported Members
  | [], _, _, done => .ok done
  | (name, s) :: rest, path, vs, done =>
    let here := path ++ (Step.member name).toText
    let present (v : Value) : Reported Members := do
      let j ← encodeUnder s here v
      encodeFieldsUnder rest path vs (putEntry done name j)
    match vs.lookup name with
    | none =>
      if s.allowsAbsence then encodeFieldsUnder rest path vs done
      else (Wired.fail .missing).under here
    | some .null =>
      if s.allowsAbsence then encodeFieldsUnder rest path vs done else present .null
    | some v => present v

end

theorem encodeItemsUnder_eq {items : List Shape}
    (each : ∀ s ∈ items, ∀ path v, encodeUnder s path v = (encode s v).under path) (path : String)
    (start : Nat) (vs : List Value) :
    encodeItemsUnder items path start vs = (encodeItems items start vs).under path := by
  induction items generalizing start vs with
  | nil => simp only [encodeItemsUnder, encodeItems, Wired.under_ok]
  | cons s rest ih =>
    rw [List.forall_mem_cons] at each
    cases vs with
    | nil => simp only [encodeItemsUnder, encodeItems, Wired.under_ok]
    | cons v vs =>
      simp only [encodeItemsUnder, encodeItems, Wired.under_bind, Wired.under_within, each.1,
        ih each.2]
      rfl

theorem encodeFieldsUnder_eq {fields : List (String × Shape)}
    (each : ∀ f ∈ fields, ∀ path v, encodeUnder f.2 path v = (encode f.2 v).under path)
    (path : String) (vs : List (String × Value)) (done : Members) :
    encodeFieldsUnder fields path vs done = (encodeFields fields vs done).under path := by
  induction fields generalizing done with
  | nil => simp only [encodeFieldsUnder, encodeFields, Wired.under_ok]
  | cons f rest ih =>
    rw [List.forall_mem_cons] at each
    have present (v : Value) :
        (encodeUnder f.2 (path ++ (Step.member f.1).toText) v >>= fun j =>
          encodeFieldsUnder rest path vs (putEntry done f.1 j)) =
        ((encode f.2 v).within (.member f.1) >>= fun j =>
          encodeFields rest vs (putEntry done f.1 j)).under path := by
      simp only [Wired.under_bind, Wired.under_within, each.1, ih each.2]
    rw [encodeFieldsUnder, encodeFields]
    cases vs.lookup f.1 with
    | none =>
      cases f.2.allowsAbsence with
      | true => exact ih each.2 done
      | false => exact (Wired.under_within path _ _).symm
    | some v =>
      cases v with
      | null =>
        cases f.2.allowsAbsence with
        | true => exact ih each.2 done
        | false => exact present .null
      | _ => exact present _

/-- **Writing with the path carried along** comes to the same as giving the path to the error. -/
theorem encodeUnder_eq (s : Shape) (path : String) (v : Value) :
    encodeUnder s path v = (encode s v).under path := by
  induction s generalizing path v with
  | scalar | temporal | enum | blocked => rw [encodeUnder, encode]
  | list element ih =>
    cases v with
    | list vs =>
      rw [encodeUnder, encode, itemsUnder_eq ih, Wired.under_bind]
      rfl
    | _ => rfl
  | tuple items ih =>
    cases v with
    | list vs =>
      rw [encodeUnder, encode]
      split
      · rw [encodeItemsUnder_eq ih, Wired.under_bind]
        rfl
      · rfl
    | _ => rfl
  | mapping key value ihKey ihValue =>
    cases v with
    | map entries =>
      rw [encodeUnder, encode, entriesUnder_eq ihKey ihValue, Wired.under_bind]
      rfl
    | _ => rfl
  | optional inner ih =>
    cases v with
    | null => rfl
    | _ => exact ih path _
  | wrapper name field inner ih =>
    rw [encodeUnder, encode]
    exact ih path v
  | record name fields ih | bareTemplate _ name fields ih | opened _ name fields ih =>
    cases v with
    | record n vs =>
      rw [encodeUnder, encode, encodeFieldsUnder_eq ih, Wired.under_bind]
      rfl
    | _ => rfl

end Wire

/-! ## The name of the whole value -/

/-- Two outcomes under two names for the whole value: the same value, or failures that differ only
in the name with which their paths begin. -/
inductive Reported.Alike {α : Type} (root root' : String) : Reported α → Reported α → Prop where
  | ok (a : α) : Alike root root' (.ok a) (.ok a)
  | error (rest : String) (cause : WireCause) :
    Alike root root' (.error ⟨root ++ rest, cause⟩) (.error ⟨root' ++ rest, cause⟩)

theorem Wired.alike_under {α : Type} (root root' : String) (w : Wired α) :
    Reported.Alike root root' (w.under root) (w.under root') := by
  cases w with
  | ok a => exact .ok a
  | error e => exact .error (Step.render e.steps) e.cause

namespace Descriptor

/-- The value of the descriptor's type that a JSON value holds, with a name for the JSON value. -/
def decodeUnder (d : Descriptor) (root : String) (j : Json) : Reported Value :=
  Wire.decodeUnder d.shape root j

/-- The JSON value of a value of the descriptor's type, with a name for that value. -/
def encodeUnder (d : Descriptor) (root : String) (v : Value) : Reported Json :=
  Wire.encodeUnder d.shape root v

theorem decodeUnder_eq (d : Descriptor) (root : String) (j : Json) :
    d.decodeUnder root j = (d.decode j).under root := Wire.decodeUnder_eq d.shape root j

theorem encodeUnder_eq (d : Descriptor) (root : String) (v : Value) :
    d.encodeUnder root v = (d.encode v).under root := Wire.encodeUnder_eq d.shape root v

end Descriptor

end RpcBridge
