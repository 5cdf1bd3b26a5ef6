import Mathlib.Logic.Function.Iterate
import RpcBridge.Client.Export
import RpcBridge.Proofs.Descriptor.Parts
import RpcBridge.Proofs.Wire.Missing
import RpcBridge.Proofs.Wire.RoundTrip

/-!
# Proofs/Client/Opened — a record applied to nothing

A record applied to no arguments is the record itself for a client: its type is the record's, and so
is the code that converts it.  A service takes it for the record without its transparency: an
ordinary record applied to nothing stays what it is, a transparent one becomes ordinary
(`Descriptor.application_record`).

That a transparent record and the ordinary one with the same field never agree on all values needs
an argument, since the wrapped type may be a record itself.  Were they to agree, wrapping a value
once more into the field would change nothing; but no type looks deeper than it is itself
(`exists_blind_decode`, `exists_blind_encode`), so it could not tell an object without the field
from something that is no object.
-/

namespace RpcBridge

/-! ## Classes of failures -/

namespace Wired

variable {α β : Type} {step : Step}

/-- The value, or the class of the error. -/
def outcome (w : Wired α) : Except String α := w.mapError fun e => e.cause.className

/-- The class of the error, if there is one. -/
def failure? : Wired α → Option String
  | .ok _ => none
  | .error e => some e.cause.className

@[simp] theorem failure?_ok (a : α) : failure? (Except.ok a) = none := rfl

@[simp] theorem failure?_fail (cause : WireCause) :
    failure? (fail cause : Wired α) = some cause.className := rfl

@[simp] theorem failure?_mismatch (expected found : String) :
    failure? (mismatch expected found : Wired α) = some "type_mismatch" := rfl

@[simp] theorem failure?_within (w : Wired α) : (w.within step).failure? = w.failure? := by
  cases w <;> rfl

theorem failure?_eq_of_outcome_eq {v w : Wired α} (h : v.outcome = w.outcome) :
    v.failure? = w.failure? := by
  cases v with
  | ok a =>
    cases w with
    | ok b => rfl
    | error f => cases h
  | error e =>
    cases w with
    | ok b => cases h
    | error f => exact congrArg some (Except.error.inj h)

/-- Chains fail alike if their steps do. -/
theorem failure?_bind_congr {v w : Wired α} {f g : α → Wired β} (first : v.failure? = w.failure?)
    (second : ∀ a b, (f a).failure? = (g b).failure?) :
    (v >>= f).failure? = (w >>= g).failure? := by
  cases v <;> cases w
  · exact first
  · cases first
  · cases first
  · exact second _ _

theorem failure?_bind_right {w : Wired α} {f g : α → Wired β}
    (second : ∀ a, (f a).failure? = (g a).failure?) : (w >>= f).failure? = (w >>= g).failure? := by
  cases w
  · rfl
  · exact second _

/-- A chain whose second step succeeds fails as its first step does. -/
theorem failure?_bind_of_ok {w : Wired α} {f : α → Wired β} (second : ∀ a, (f a).failure? = none) :
    (w >>= f).failure? = w.failure? := by
  cases w
  · rfl
  · exact second _

end Wired

/-! ## How deep a type looks -/

/-- A test that does not tell apart what lies deep inside. -/
def Blind {α : Type} (wrap : α → α) (test : α → Option String) : Prop :=
  ∃ bound, ∀ k, bound ≤ k → ∀ a b, test (wrap^[k] a) = test (wrap^[k] b)

namespace Blind

variable {α ι : Type} {wrap : α → α} {test : α → Option String}

/-- What does not look into a wrapped value at all. -/
theorem of_wrapped (h : ∀ a b, test (wrap a) = test (wrap b)) : Blind wrap test := by
  refine ⟨1, fun k hk a b => ?_⟩
  obtain ⟨k, rfl⟩ := Nat.exists_eq_add_of_le' hk
  rw [Function.iterate_succ_apply', Function.iterate_succ_apply']
  exact h _ _

/-- Finitely many blind tests do not look beyond a common depth. -/
theorem common {tests : ι → α → Option String} {is : List ι}
    (each : ∀ i ∈ is, Blind wrap (tests i)) :
    ∃ bound, ∀ k, bound ≤ k → ∀ i ∈ is, ∀ a b, tests i (wrap^[k] a) = tests i (wrap^[k] b) := by
  induction is with
  | nil => exact ⟨0, fun _ _ => List.forall_mem_nil _⟩
  | cons i rest ih =>
    rw [List.forall_mem_cons] at each
    obtain ⟨m, first⟩ := each.1
    obtain ⟨n, others⟩ := ih each.2
    refine ⟨max m n, fun k hk => List.forall_mem_cons.2 ⟨first k ?_, others k ?_⟩⟩
    · exact Nat.le_trans (Nat.le_max_left m n) hk
    · exact Nat.le_trans (Nat.le_max_right m n) hk

/-- What looks one layer deeper than finitely many blind tests. -/
theorem of_inner {tests : ι → α → Option String} {is : List ι}
    (each : ∀ i ∈ is, Blind wrap (tests i))
    (h : ∀ a b, (∀ i ∈ is, tests i (wrap a) = tests i (wrap b)) →
      test (wrap (wrap a)) = test (wrap (wrap b))) : Blind wrap test := by
  obtain ⟨bound, all⟩ := common each
  refine ⟨bound + 2, fun k hk a b => ?_⟩
  obtain ⟨k, rfl⟩ := Nat.exists_eq_add_of_le' (Nat.le_of_add_left_le hk)
  have inner (c : α) : wrap^[k + 2] c = wrap (wrap (wrap^[k] c)) := by
    rw [Function.iterate_succ_apply', Function.iterate_succ_apply']
  rw [inner, inner]
  refine h _ _ fun i hi => ?_
  have deep := all (k + 1) (by omega) i hi a b
  rwa [Function.iterate_succ_apply', Function.iterate_succ_apply'] at deep

/-- What treats a wrapped value as a blind test does. -/
theorem of_eq {inner : α → Option String} (blind : Blind wrap inner)
    (h : ∀ a, test (wrap a) = inner (wrap a)) : Blind wrap test := by
  obtain ⟨bound, all⟩ := blind
  refine ⟨bound + 1, fun k hk a b => ?_⟩
  obtain ⟨k, rfl⟩ := Nat.exists_eq_add_of_le' (Nat.le_of_add_left_le hk)
  have deep := all (k + 1) (by omega) a b
  rw [Function.iterate_succ_apply', Function.iterate_succ_apply'] at deep ⊢
  rw [h, h, deep]

/-- **A blind test that wrapping does not change tests nothing.** -/
theorem const (blind : Blind wrap test) (same : ∀ a, test (wrap a) = test a) (a b : α) :
    test a = test b := by
  have deep (k : Nat) (c : α) : test (wrap^[k] c) = test c := by
    induction k with
    | zero => rfl
    | succ k ih => rw [Function.iterate_succ_apply', same, ih]
  obtain ⟨bound, all⟩ := blind
  rw [← deep bound a, ← deep bound b]
  exact all bound (Nat.le_refl _) a b

end Blind

/-- An object with one member. -/
def Json.wrap (field : String) (j : Json) : Json := .object [(field, j)]

/-- A record value with one field. -/
def Value.wrap (field : String) (v : Value) : Value := .record "" [(field, v)]

namespace Wire

open Wired

variable {field : String}

theorem failure?_decodeFields {fields : List (String × Shape)} {i j : Json}
    (each : ∀ f ∈ fields, (decode f.2 i).failure? = (decode f.2 j).failure?) :
    (decodeFields fields [(field, i)]).failure? = (decodeFields fields [(field, j)]).failure? := by
  induction fields with
  | nil => rfl
  | cons f rest ih =>
    rw [List.forall_mem_cons] at each
    rw [decodeFields_cons, decodeFields_cons]
    refine failure?_bind_congr ?_ fun v w => failure?_bind_congr (ih each.2) fun _ _ => rfl
    rw [readField, readField, lookup_cons_eq, lookup_cons_eq]
    by_cases named : f.1 = field
    · simp only [if_pos named, failure?_within]
      exact each.1
    · simp only [if_neg named, List.lookup_nil]

/-- **No type looks arbitrarily deep into an object.** -/
theorem exists_blind_decode (s : Shape) :
    Blind (Json.wrap field) fun j => (decode s j).failure? := by
  induction s with
  | scalar kind => exact .of_wrapped fun a b => by cases kind <;> rfl
  | temporal kind => exact .of_wrapped fun a b => rfl
  | list element _ => exact .of_wrapped fun a b => rfl
  | tuple items _ => exact .of_wrapped fun a b => rfl
  | blocked d obstacle => exact .of_wrapped fun a b => rfl
  | enum e =>
    refine .of_wrapped fun a b => ?_
    have none (j : Json) : e.memberFor? (Json.wrap field j) = none :=
      List.find?_eq_none.2 fun m _ => by
        rcases m with ⟨_, _ | _ | _⟩ <;> simp [EnumLiteral.accepts, Json.wrap]
    simp only [decode, decodeEnum, none]
    rfl
  | wrapper name inner s ih => exact ih
  | optional inner ih => exact .of_eq ih fun a => rfl
  | mapping key value _ ih =>
    have each : ∀ s ∈ [value], Blind (Json.wrap field) fun j => (decode s j).failure? :=
      List.forall_mem_singleton.2 ih
    refine .of_inner each fun a b same => ?_
    have valued := List.forall_mem_singleton.1 same
    simp only [Json.wrap, decode, decodeMembers] at valued ⊢
    refine failure?_bind_congr (failure?_bind_congr ?_ fun _ _ => rfl) fun _ _ => rfl
    simp only [failure?_within]
    refine failure?_bind_right fun named => failure?_bind_right fun k => ?_
    exact failure?_bind_congr valued fun _ _ => rfl
  | record name fields ih | bareTemplate _ name fields ih | opened _ name fields ih =>
    refine .of_inner ih fun a b same => ?_
    exact failure?_bind_congr (failure?_decodeFields same) fun _ _ => rfl

theorem failure?_encodeFields {fields : List (String × Shape)} {v w : Value}
    (each : ∀ f ∈ fields,
      (encode f.2 (v.wrap field)).failure? = (encode f.2 (w.wrap field)).failure?)
    (done done' : Members) : (encodeFields fields [(field, v.wrap field)] done).failure? =
      (encodeFields fields [(field, w.wrap field)] done').failure? := by
  induction fields generalizing done done' with
  | nil => rfl
  | cons f rest ih =>
    rw [List.forall_mem_cons] at each
    rw [encodeFields, encodeFields, lookup_cons_eq, lookup_cons_eq]
    by_cases named : f.1 = field
    · simp only [if_pos named, Value.wrap]
      refine failure?_bind_congr ?_ fun _ _ => ih each.2 _ _
      rw [failure?_within, failure?_within]
      exact each.1
    · simp only [if_neg named, List.lookup_nil]
      split
      · exact ih each.2 _ _
      · rfl

/-- **No type looks arbitrarily deep into a record value.** -/
theorem exists_blind_encode (s : Shape) :
    Blind (Value.wrap field) fun v => (encode s v).failure? := by
  induction s with
  | scalar kind => exact .of_wrapped fun a b => by cases kind <;> rfl
  | temporal kind => exact .of_wrapped fun a b => by cases kind <;> rfl
  | list element _ => exact .of_wrapped fun a b => rfl
  | tuple items _ => exact .of_wrapped fun a b => rfl
  | mapping key value _ _ => exact .of_wrapped fun a b => rfl
  | enum e => exact .of_wrapped fun a b => rfl
  | blocked d obstacle => exact .of_wrapped fun a b => rfl
  | wrapper name inner s ih => exact ih
  | optional inner ih => exact .of_eq ih fun a => rfl
  | record name fields ih | bareTemplate _ name fields ih | opened _ name fields ih =>
    refine .of_inner ih fun a b same => ?_
    exact failure?_bind_congr (failure?_encodeFields same _ _) fun _ _ => rfl

/-! ## A record and what it wraps -/

/-- A type and the record that has it in its one field do not take the same JSON values. -/
theorem exists_decode_ne (name field : String) (s : Shape) :
    ∃ j, (decode (.record name [(field, s)]) j).outcome ≠ (decode s j).outcome := by
  by_contra agree
  rw [not_exists] at agree
  have fails (j : Json) :
      (decode (.record name [(field, s)]) j).failure? = (decode s j).failure? :=
    failure?_eq_of_outcome_eq (not_not.1 (agree j))
  have needed : s.allowsAbsence = false := by
    refine Bool.eq_false_iff.2 fun allowed => ?_
    have null := fails .null
    rw [((Shape.allowsAbsence_iff_decode s).1 allowed).1] at null
    cases null
  have same (j : Json) : (decode s (j.wrap field)).failure? = (decode s j).failure? := by
    rw [← fails, Json.wrap, decode, decodeFields_cons, readField, lookup_cons_eq, if_pos rfl]
    refine (failure?_bind_of_ok fun _ => rfl).trans ((failure?_bind_of_ok fun _ => rfl).trans ?_)
    exact failure?_within _
  have missing : (decode (.record name [(field, s)]) (.object [])).failure? = some "missing" := by
    rw [decode, decodeFields_cons, readField]
    simp only [List.lookup_nil, needed]
    rfl
  have equal : (decode s (.bool true)).failure? = (decode s (.object [])).failure? :=
    (exists_blind_decode s).const same _ _
  rw [← fails, ← fails, missing] at equal
  exact absurd (Option.some.inj equal) (show "type_mismatch" ≠ "missing" by decide)

/-- A type and the record that has it in its one field do not take the same values. -/
theorem exists_encode_ne (name field : String) (s : Shape) :
    ∃ v, (encode (.record name [(field, s)]) v).outcome ≠ (encode s v).outcome := by
  by_contra agree
  rw [not_exists] at agree
  have fails (v : Value) :
      (encode (.record name [(field, s)]) v).failure? = (encode s v).failure? :=
    failure?_eq_of_outcome_eq (not_not.1 (agree v))
  have needed : s.allowsAbsence = false := by
    refine Bool.eq_false_iff.2 fun allowed => ?_
    have null := fails .null
    rw [((Shape.allowsAbsence_iff_encode s).1 allowed).1] at null
    cases null
  have same (v : Value) : (encode s (v.wrap field)).failure? = (encode s v).failure? := by
    have there : [(field, v)].lookup field = some v := by rw [lookup_cons_eq, if_pos rfl]
    rw [← fails, Value.wrap, encode, encodeFields_present there fun _ => needed]
    refine (failure?_bind_of_ok fun _ => rfl).trans ((failure?_bind_of_ok fun _ => rfl).trans ?_)
    exact failure?_within _
  have missing : (encode (.record name [(field, s)]) (.record "" [])).failure? =
      some "missing" := by
    rw [encode, encodeFields]
    simp only [List.lookup_nil, needed]
    rfl
  have equal : (encode s (.bool true)).failure? = (encode s (.record "" [])).failure? :=
    (exists_blind_encode s).const same _ _
  rw [← fails, ← fails, missing] at equal
  exact absurd (Option.some.inj equal) (show "type_mismatch" ≠ "missing" by decide)

end Wire

/-! ## Records applied to nothing -/

namespace Descriptor

open Client

variable (name : String) (fields : List Field) (transparent : Bool)

/-- A service takes a record applied to nothing for the ordinary record. -/
theorem encode_application_nil (v : Value) :
    (application (record name fields transparent) []).encode v =
      (record name fields false).encode v := by
  cases transparent with
  | false => rfl
  | true => cases v <;> rfl

theorem decode_application_nil (j : Json) :
    (application (record name fields transparent) []).decode j =
      (record name fields false).decode j := by
  cases transparent with
  | false => rfl
  | true => cases j <;> rfl

/-- A client renders a record applied to nothing as the record. -/
theorem resolveType_application_nil :
    resolveType (application (record name fields transparent) []) =
      resolveType (record name fields transparent) := by
  rw [resolveType]
  simp [instantiate, templateName?]

/-- A client converts a record applied to nothing as the record. -/
theorem convert_application_nil (direction : Direction) (source target : Client.Place) :
    convert direction (application (record name fields transparent) []).shape source target =
      convert direction (record name fields transparent).shape source target := by
  cases transparent with
  | false => rfl
  | true =>
    -- one field is opened; any other number of fields is refused, with the same words
    rcases fields with _ | ⟨f, _ | ⟨g, rest⟩⟩
    · rfl
    · rfl
    · have count : (fieldShapes [] (f :: g :: rest)).length = (f :: g :: rest).length := by
        rw [← List.length_map Prod.fst, map_fst_fieldShapes, List.length_map]
      change Generating.fail (.unsupported _ (.obstacle (.malformed (.wrappedFields name
        (fieldShapes [] (f :: g :: rest)).length)))) = _
      rw [count]
      rfl

/-- A transparent record applied to nothing writes some value differently. -/
theorem exists_encode_application_ne :
    ∃ v, ((application (record name fields true) []).encode v).outcome ≠
      ((record name fields true).encode v).outcome := by
  have apart : "type_mismatch" ≠ "unsupported" := by decide
  simp only [encode_application_nil]
  rcases fields with _ | ⟨f, _ | ⟨g, rest⟩⟩
  · exact ⟨.null, fun same => absurd (Except.error.inj same) apart⟩
  · exact Wire.exists_encode_ne name f.1 f.2.shape
  · exact ⟨.null, fun same => absurd (Except.error.inj same) apart⟩

/-- A transparent record applied to nothing reads some JSON value differently. -/
theorem exists_decode_application_ne :
    ∃ j, ((application (record name fields true) []).decode j).outcome ≠
      ((record name fields true).decode j).outcome := by
  have apart : "type_mismatch" ≠ "unsupported" := by decide
  simp only [decode_application_nil]
  rcases fields with _ | ⟨f, _ | ⟨g, rest⟩⟩
  · exact ⟨.null, fun same => absurd (Except.error.inj same) apart⟩
  · exact Wire.exists_decode_ne name f.1 f.2.shape
  · exact ⟨.null, fun same => absurd (Except.error.inj same) apart⟩

/-- **A record applied to nothing** is, for a service, the record without its transparency, and for
a client the record itself, in its type and in its code.  So a service takes it as it takes the
record exactly when the record is an ordinary one, for writing as well as for reading. -/
theorem application_record :
    ((∀ v, (application (record name fields transparent) []).encode v =
        (record name fields false).encode v) ∧
      ∀ j, (application (record name fields transparent) []).decode j =
        (record name fields false).decode j) ∧
    (resolveType (application (record name fields transparent) []) =
        resolveType (record name fields transparent) ∧
      ∀ direction source target,
        convert direction (application (record name fields transparent) []).shape source target =
          convert direction (record name fields transparent).shape source target) ∧
    ((∀ v, ((application (record name fields transparent) []).encode v).outcome =
        ((record name fields transparent).encode v).outcome) ↔ transparent = false) ∧
    ((∀ j, ((application (record name fields transparent) []).decode j).outcome =
        ((record name fields transparent).decode j).outcome) ↔ transparent = false) := by
  refine ⟨⟨encode_application_nil _ _ _, decode_application_nil _ _ _⟩,
    ⟨resolveType_application_nil _ _ _, convert_application_nil _ _ _⟩, ?_, ?_⟩
  · cases transparent with
    | false => exact ⟨fun _ => rfl, fun _ v => congrArg _ (encode_application_nil ..)⟩
    | true =>
      obtain ⟨v, differs⟩ := exists_encode_application_ne name fields
      exact ⟨fun same => absurd (same v) differs, fun ordinary => by cases ordinary⟩
  · cases transparent with
    | false => exact ⟨fun _ => rfl, fun _ j => congrArg _ (decode_application_nil ..)⟩
    | true =>
      obtain ⟨j, differs⟩ := exists_decode_application_ne name fields
      exact ⟨fun same => absurd (same j) differs, fun ordinary => by cases ordinary⟩

end Descriptor

end RpcBridge
