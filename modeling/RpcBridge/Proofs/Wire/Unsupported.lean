import RpcBridge.Proofs.Wire.Read

/-!
# Proofs/Wire/Unsupported — which part of a type a service has no use for

A service notices an obstacle only when a value leads there, and it says which one it has met: an
unsupported cause names an obstacle that stands somewhere in the shape.

* `Wired.Plain` — outcomes of steps that meet neither an obstacle nor anything that is missing;
* `blames_decode`, `blames_encode` — the obstacle that an error names occurs in the shape.
-/

namespace RpcBridge

namespace Wired

variable {α β : Type} {s part : Shape}

/-- A step that fails, if it does, at the whole of what it is given, for a reason that stands
there. -/
def Plain (w : Wired α) : Prop :=
  ∀ e, w = .error e →
    e.steps = [] ∧ e.cause ≠ .missing ∧ ∀ d obstacle, e.cause ≠ .unsupported d obstacle

@[simp] theorem plain_ok (a : α) : Plain (.ok a : Wired α) := fun _ h => nomatch h

/-- A failure is plain when its cause is neither a missing member nor an unsupported part. -/
@[simp] theorem plain_fail {cause : WireCause} : Plain (fail cause : Wired α) ↔
    cause ≠ .missing ∧ ∀ d obstacle, cause ≠ .unsupported d obstacle := by
  refine ⟨fun h => (h _ rfl).2, fun h e he => ?_⟩
  cases he
  exact ⟨rfl, h⟩

@[simp] theorem plain_mismatch (expected found : String) :
    Plain (mismatch expected found : Wired α) := by
  simp [mismatch]

/-- A step that has no use only for what occurs in a shape as an obstacle. -/
def Blames (s : Shape) (w : Wired α) : Prop :=
  ∀ e, w = .error e → ∀ d obstacle, e.cause = .unsupported d obstacle →
    (Shape.blocked d obstacle).OccursIn s

@[simp] theorem blames_ok (s : Shape) (a : α) : Blames s (.ok a : Wired α) := fun _ h => nomatch h

/-- A failure blames a part of the shape when an unsupported part is its cause. -/
@[simp] theorem blames_fail {cause : WireCause} : Blames s (fail cause : Wired α) ↔
    ∀ d obstacle, cause = .unsupported d obstacle → (Shape.blocked d obstacle).OccursIn s := by
  refine ⟨fun h => h _ rfl, fun h e he => ?_⟩
  cases he
  exact h

/-- A plain outcome blames nothing. -/
theorem Plain.blames {w : Wired α} (h : w.Plain) (s : Shape) : w.Blames s :=
  fun e he d obstacle cause => absurd cause ((h e he).2.2 d obstacle)

@[simp] theorem blames_mismatch (s : Shape) (expected found : String) :
    Blames s (mismatch expected found : Wired α) := (plain_mismatch expected found).blames s

/-- What is blamed on a part is blamed on the whole. -/
theorem Blames.whole {w : Wired α} (h : w.Blames part)
    (up : ∀ q : Shape, q.OccursIn part → q.OccursIn s) : w.Blames s :=
  fun e he d obstacle cause => up _ (h e he d obstacle cause)

/-- Two outcomes in a row blame what either of them blames. -/
theorem Blames.bind {x : Wired α} {f : α → Wired β} (first : x.Blames s)
    (second : ∀ a, (f a).Blames s) : (x >>= f).Blames s := by
  intro e he
  rcases bind_eq_error.1 he with failed | ⟨a, -, failed⟩
  · exact first e failed
  · exact second a e failed

/-- Going a step inside blames the same part. -/
theorem Blames.within {x : Wired α} {step : Step} (h : x.Blames s) : (x.within step).Blames s := by
  intro e he
  obtain ⟨inner, failed, rfl⟩ := within_eq_error.1 he
  exact h inner failed

/-- A sequence blames what its items blame. -/
theorem Blames.items {item : α → Wired β} (each : ∀ a, (item a).Blames s) (start : Nat)
    (as : List α) : (Wired.items item start as).Blames s := by
  induction as generalizing start with
  | nil => exact blames_ok s _
  | cons a rest ih =>
    rw [items_cons]
    exact (each a).within.bind fun b => (ih (start + 1)).bind fun bs => blames_ok s _

end Wired

namespace Wire

open Wired

variable {s : Shape}

/-! ## Reading -/

/-- Reading a scalar blames nothing. -/
theorem plain_decodeScalar (kind : ScalarKind) (j : Json) : (decodeScalar kind j).Plain := by
  unfold decodeScalar
  split <;> try split
  all_goals simp

/-- Reading a temporal value blames nothing. -/
theorem plain_decodeTemporal (kind : TemporalKind) (j : Json) : (decodeTemporal kind j).Plain := by
  unfold decodeTemporal
  split <;> try split
  all_goals simp

/-- Reading an enum member blames nothing. -/
theorem plain_decodeEnum (e : EnumDef) (j : Json) : (decodeEnum e j).Plain := by
  unfold decodeEnum
  split <;> simp

/-- Restoring a key's JSON blames nothing. -/
theorem plain_keyJson (key : Shape) (name : String) : (keyJson key name).Plain := by
  unfold keyJson
  split <;> simp only []
  all_goals repeat' split
  all_goals simp

/-- Reading members blames what reading their keys and values does. -/
theorem blames_decodeMembers {keyShape : Shape} {key value : Json → Wired Value}
    (keys : ∀ j, (key j).Blames s) (values : ∀ j, (value j).Blames s) (members : Members) :
    (decodeMembers keyShape key value members).Blames s := by
  induction members with
  | nil =>
    rw [decodeMembers]
    exact blames_ok s _
  | cons m rest ih =>
    rw [decodeMembers]
    refine Blames.bind (Blames.within ?_) fun entry => ih.bind fun _ => blames_ok s _
    exact ((plain_keyJson keyShape m.1).blames s).bind fun written => (keys written).bind fun _ =>
      (values m.2).bind fun _ => blames_ok s _

/-- Reading items blames what reading each of them does. -/
theorem blames_decodeItems {items : List Shape}
    (each : ∀ item ∈ items, ∀ j, (decode item j).Blames s) (start : Nat) (js : List Json) :
    (decodeItems items start js).Blames s := by
  induction items generalizing start js with
  | nil =>
    simp only [decodeItems]
    exact blames_ok s _
  | cons item rest ih =>
    rw [List.forall_mem_cons] at each
    cases js with
    | nil =>
      simp only [decodeItems]
      exact blames_ok s _
    | cons j js =>
      rw [decodeItems]
      exact (each.1 j).within.bind fun _ => (ih each.2 _ js).bind fun _ => blames_ok s _

/-- Reading fields blames what reading each of them does. -/
theorem blames_decodeFields {fields : List (String × Shape)}
    (each : ∀ f ∈ fields, ∀ j, (decode f.2 j).Blames s) (members : Members) :
    (decodeFields fields members).Blames s := by
  induction fields with
  | nil =>
    rw [decodeFields]
    exact blames_ok s _
  | cons f rest ih =>
    rw [List.forall_mem_cons] at each
    rw [decodeFields]
    split
    · exact (each.1 _).within.bind fun _ => (ih each.2).bind fun _ => blames_ok s _
    · split
      · exact (blames_ok s _).bind fun _ => (ih each.2).bind fun _ => blames_ok s _
      · exact Blames.bind (Blames.within (by simp)) fun _ =>
          (ih each.2).bind fun _ => blames_ok s _

/-- Reading a record blames a part of one of its fields. -/
theorem blames_decode_record {name : String} {fields : List (String × Shape)}
    (reads : ReadsFields s name fields) (each : ∀ f ∈ fields, ∀ j, (decode f.2 j).Blames f.2)
    (j : Json) : (decode s j).Blames s := by
  have inside (f : String × Shape) (hf : f ∈ fields) (j : Json) : (decode f.2 j).Blames s :=
    (each f hf j).whole fun _ => reads.occursIn hf
  cases j with
  | object members =>
    rw [decode_record reads]
    exact (blames_decodeFields inside members).bind fun _ => blames_ok _ _
  | _ => cases reads <;> simp [decode]

/-- **What a service has no use for in a JSON value** is an obstacle of the shape. -/
theorem blames_decode (s : Shape) (j : Json) : (decode s j).Blames s := by
  induction s generalizing j with
  | scalar kind =>
    rw [decode]
    exact (plain_decodeScalar kind j).blames _
  | temporal kind =>
    rw [decode]
    exact (plain_decodeTemporal kind j).blames _
  | enum e =>
    rw [decode]
    exact (plain_decodeEnum e j).blames _
  | list element ih =>
    cases j <;> rw [decode]
    case array js =>
      have each (j : Json) : (decode element j).Blames (.list element) :=
        (ih j).whole fun _ => .list
      exact (Blames.items each 0 js).bind fun _ => blames_ok _ _
    all_goals simp
  | tuple items ih =>
    cases j <;> rw [decode]
    case array js =>
      split
      · have each (s : Shape) (hs : s ∈ items) (j : Json) :
            (decode s j).Blames (.tuple items) := (ih s hs j).whole fun _ => .tuple hs
        exact (blames_decodeItems each 0 js).bind fun _ => blames_ok _ _
      · exact blames_mismatch _ _ _
    all_goals simp
  | mapping key value ihKey ihValue =>
    cases j <;> rw [decode]
    case object members =>
      have keys (j : Json) : (decode key j).Blames (.mapping key value) :=
        (ihKey j).whole fun _ => .key
      have values (j : Json) : (decode value j).Blames (.mapping key value) :=
        (ihValue j).whole fun _ => .value
      exact (blames_decodeMembers keys values members).bind fun _ => blames_ok _ _
    all_goals simp
  | optional inner ih =>
    cases j <;> first
      | exact (ih _).whole fun _ => .optional
      | exact blames_ok _ _
  | record name fields ih | bareTemplate _ name fields ih | opened _ name fields ih =>
    exact blames_decode_record (by constructor) ih j
  | wrapper name field inner ih =>
    rw [decode]
    exact (ih j).whole fun _ => .wrapper
  | blocked d obstacle =>
    rw [decode, blames_fail]
    rintro _ _ ⟨⟩
    exact .here

/-! ## Writing -/

/-- Writing a scalar blames nothing. -/
theorem plain_encodeScalar (kind : ScalarKind) (v : Value) : (encodeScalar kind v).Plain := by
  unfold encodeScalar
  split <;> try split
  all_goals simp

/-- Writing a temporal value blames nothing. -/
theorem plain_encodeTemporal (kind : TemporalKind) (v : Value) : (encodeTemporal kind v).Plain := by
  unfold encodeTemporal
  split <;> simp

/-- Writing an enum member blames nothing. -/
theorem plain_encodeEnum (e : EnumDef) (v : Value) : (encodeEnum e v).Plain := by
  unfold encodeEnum
  split
  · split
    · split <;> simp
    · simp
  · simp

/-- Writing a member name blames nothing. -/
theorem plain_memberName (j : Json) : (memberName j).Plain := by
  unfold memberName
  split <;> simp

/-- Writing entries blames what writing their keys and values does. -/
theorem blames_encodeEntries {key value : Value → Wired Json} (keys : ∀ v, (key v).Blames s)
    (values : ∀ v, (value v).Blames s) (done : Members) (entries : List (Value × Value)) :
    (encodeEntries key value done entries).Blames s := by
  induction entries generalizing done with
  | nil =>
    rw [encodeEntries]
    exact blames_ok s _
  | cons e rest ih =>
    rw [encodeEntries]
    refine Blames.bind (Blames.within ?_) fun entry => ih _
    exact (keys e.1).bind fun written => ((plain_memberName written).blames s).bind fun _ =>
      (values e.2).bind fun _ => blames_ok s _

/-- Writing items blames what writing each of them does. -/
theorem blames_encodeItems {items : List Shape}
    (each : ∀ item ∈ items, ∀ v, (encode item v).Blames s) (start : Nat) (vs : List Value) :
    (encodeItems items start vs).Blames s := by
  induction items generalizing start vs with
  | nil =>
    simp only [encodeItems]
    exact blames_ok s _
  | cons item rest ih =>
    rw [List.forall_mem_cons] at each
    cases vs with
    | nil =>
      simp only [encodeItems]
      exact blames_ok s _
    | cons v vs =>
      rw [encodeItems]
      exact (each.1 v).within.bind fun _ => (ih each.2 _ vs).bind fun _ => blames_ok s _

/-- Writing fields blames what writing each of them does. -/
theorem blames_encodeFields {fields : List (String × Shape)}
    (each : ∀ f ∈ fields, ∀ v, (encode f.2 v).Blames s) (vs : List (String × Value))
    (done : Members) : (encodeFields fields vs done).Blames s := by
  induction fields generalizing done with
  | nil =>
    rw [encodeFields]
    exact blames_ok s _
  | cons f rest ih =>
    rw [List.forall_mem_cons] at each
    have present (v : Value) : ((encode f.2 v).within (.member f.1) >>= fun j =>
        encodeFields rest vs (putEntry done f.1 j)).Blames s :=
      (each.1 v).within.bind fun _ => ih each.2 _
    rw [encodeFields]
    split
    · split
      · exact ih each.2 done
      · exact Blames.within (by simp)
    · split
      · exact ih each.2 done
      · exact present _
    · exact present _

/-- Writing a record blames a part of one of its fields. -/
theorem blames_encode_record {name : String} {fields : List (String × Shape)}
    (reads : ReadsFields s name fields) (each : ∀ f ∈ fields, ∀ v, (encode f.2 v).Blames f.2)
    (v : Value) : (encode s v).Blames s := by
  have inside (f : String × Shape) (hf : f ∈ fields) (v : Value) : (encode f.2 v).Blames s :=
    (each f hf v).whole fun _ => reads.occursIn hf
  cases v with
  | record n vs =>
    rw [encode_record reads]
    exact (blames_encodeFields inside vs []).bind fun _ => blames_ok _ _
  | _ => cases reads <;> simp [encode]

/-- **What a service has no use for in a value** is an obstacle of the shape. -/
theorem blames_encode (s : Shape) (v : Value) : (encode s v).Blames s := by
  induction s generalizing v with
  | scalar kind =>
    rw [encode]
    exact (plain_encodeScalar kind v).blames _
  | temporal kind =>
    rw [encode]
    exact (plain_encodeTemporal kind v).blames _
  | enum e =>
    rw [encode]
    exact (plain_encodeEnum e v).blames _
  | list element ih =>
    cases v <;> rw [encode]
    case list vs =>
      have each (v : Value) : (encode element v).Blames (.list element) :=
        (ih v).whole fun _ => .list
      exact (Blames.items each 0 vs).bind fun _ => blames_ok _ _
    all_goals simp
  | tuple items ih =>
    cases v <;> rw [encode]
    case list vs =>
      split
      · have each (s : Shape) (hs : s ∈ items) (v : Value) :
            (encode s v).Blames (.tuple items) := (ih s hs v).whole fun _ => .tuple hs
        exact (blames_encodeItems each 0 vs).bind fun _ => blames_ok _ _
      · exact blames_mismatch _ _ _
    all_goals simp
  | mapping key value ihKey ihValue =>
    cases v <;> rw [encode]
    case map entries =>
      have keys (v : Value) : (encode key v).Blames (.mapping key value) :=
        (ihKey v).whole fun _ => .key
      have values (v : Value) : (encode value v).Blames (.mapping key value) :=
        (ihValue v).whole fun _ => .value
      exact (blames_encodeEntries keys values [] entries).bind fun _ => blames_ok _ _
    all_goals simp
  | optional inner ih =>
    cases v <;> first
      | exact (ih _).whole fun _ => .optional
      | exact blames_ok _ _
  | record name fields ih | bareTemplate _ name fields ih | opened _ name fields ih =>
    exact blames_encode_record (by constructor) ih v
  | wrapper name field inner ih =>
    rw [encode]
    exact (ih v).whole fun _ => .wrapper
  | blocked d obstacle =>
    rw [encode, blames_fail]
    rintro _ _ ⟨⟩
    exact .here

end Wire

end RpcBridge
