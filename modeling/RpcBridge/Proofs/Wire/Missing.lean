import RpcBridge.Proofs.Wire.Read
import RpcBridge.Proofs.Wire.Written

/-!
# Proofs/Wire/Missing — missing fields and null ones

A record value that lacks a field is the same as one that holds null there, and one expects them to
travel alike.  They do as long as the field's type is optional on its face.  A transparent record
that wraps an optional type takes null as that type does, but the field must not be missing: whether
it may be is asked of the outermost node only.

Writing and reading a record are walks along its fields.  Two walks that differ in one field, where
the one stops and the other does not stop for that reason, come to the same result exactly when
neither gets there (`foldlM_eq_iff`).

* `Descriptor.allowsAbsence_iff_encode`, `Descriptor.allowsAbsence_iff_decode` — which types may be
  missing, among those that take null;
* `Descriptor.missing_iff_null` — when a missing field and a null one come to the same result.
-/

namespace RpcBridge

/-! ## Walks that differ -/

section Walks

variable {α σ β ε : Type} {a b : σ → α → Except ε σ} {bad : α → Prop} {fault : ε}

theorem foldlM_ne_error (never : ∀ x s, b s x ≠ .error fault) (xs : List α) (s : σ) :
    xs.foldlM b s ≠ .error fault := by
  induction xs generalizing s with
  | nil => exact nofun
  | cons x rest ih =>
    rw [List.foldlM_cons]
    intro h
    rcases bind_eq_error.1 h with here | ⟨t, -, later⟩
    · exact never x s here
    · exact ih t later

/-- **Two walks that differ in their bad steps only**, where one of them stops with a fault that the
other never has, come to the same result exactly when they stop in front of every bad step. -/
theorem foldlM_eq_iff (good : ∀ x, ¬bad x → ∀ s, a s x = b s x)
    (stops : ∀ x, bad x → ∀ s, a s x = .error fault) (never : ∀ x s, b s x ≠ .error fault)
    (k : σ → β) (xs : List α) (s : σ) :
    (xs.foldlM a s >>= fun t => Except.ok (k t)) = (xs.foldlM b s >>= fun t => Except.ok (k t)) ↔
      ∀ before x after, xs = before ++ x :: after → bad x → ∃ e, before.foldlM a s = .error e := by
  constructor
  · rintro same before x after rfl hx
    cases front : before.foldlM a s with
    | error e => exact ⟨e, rfl⟩
    | ok t =>
      rw [List.foldlM_append, front, ok_bind, List.foldlM_cons, stops x hx, error_bind,
        error_bind] at same
      rcases bind_eq_error.1 same.symm with there | ⟨_, -, ⟨⟩⟩
      exact absurd there (foldlM_ne_error never _ s)
  · intro stopped
    induction xs generalizing s with
    | nil => rfl
    | cons x rest ih =>
      by_cases hx : bad x
      · obtain ⟨e, ⟨⟩⟩ := stopped [] x rest rfl hx
      · rw [List.foldlM_cons, List.foldlM_cons, good x hx]
        cases here : b s x with
        | error e => rfl
        | ok t =>
          refine ih t fun before y after parts hy => ?_
          have := stopped (x :: before) y after (by rw [parts, List.cons_append]) hy
          rwa [List.foldlM_cons, good x hx, here, ok_bind] at this

end Walks

/-! ## Types that take null -/

namespace Descriptor

/-- Whether the descriptor is a transparent record. -/
def isTransparent : Descriptor → Bool
  | .record _ _ transparent => transparent
  | _ => false

/-- The record that a descriptor is written as, by the list of its fields. -/
inductive HasFields : Descriptor → List Field → Prop where
  | record {name : String} {fields : List Field} {transparent : Bool}
      (ordinary : wrappedField name fields transparent = .ok none) :
    HasFields (.record name fields transparent) fields
  | template (name : String) (params : List String) (fields : List Field) :
    HasFields (.template name params fields) fields
  /-- The fields of an application are those of the template after the arguments have been put
  in. -/
  | application {origin : Descriptor} {args : List Descriptor} {i : Instance}
      (instance_eq : instantiate origin args = .ok i) : HasFields (.application origin args) i.fields

theorem HasFields.readsFields {d : Descriptor} {fields : List Field} (h : d.HasFields fields) :
    ∃ name, Wire.ReadsFields d.shape name (fieldShapes [] fields) := by
  cases h with
  | @record name fields transparent ordinary =>
    rw [shape_record ordinary]
    exact ⟨name, .record name _⟩
  | template name params fields => exact ⟨name, .bareTemplate _ name _⟩
  | @application origin args i instance_eq =>
    rcases shape_application instance_eq with record | opened
    · rw [record]
      exact ⟨i.name, .record i.name _⟩
    · rw [opened]
      exact ⟨i.name, .opened origin i.name _⟩

/-- A transparent record comes to a wrapper, or to nothing. -/
theorem shape_of_isTransparent {d : Descriptor} (h : d.isTransparent = true) :
    (∃ name field inner, d.shape = .wrapper name field inner) ∨ ∃ o, d.shape = .blocked d o := by
  cases d with
  | record name fields transparent =>
    cases wraps : wrappedField name fields transparent with
    | error e => exact Or.inr ⟨_, shape_record_error wraps⟩
    | ok field =>
      cases field with
      | some field => exact Or.inl ⟨_, _, _, shape_wrapper wraps⟩
      | none =>
        cases h
        unfold wrappedField at wraps
        split at wraps
        · next ordinary => cases ordinary
        · split at wraps <;> cases wraps
  | _ => cases h

/-- Nothing else comes to a wrapper. -/
theorem isTransparent_of_shape {d : Descriptor} {name field : String} {inner : Shape}
    (h : d.shape = .wrapper name field inner) : d.isTransparent = true := by
  cases d with
  | record name fields transparent =>
    cases transparent with
    | true => rfl
    | false => cases h
  | variadic items =>
    cases single : variadicItem items with
    | error e => cases (shape_variadic_error single).symm.trans h
    | ok item => cases (shape_variadic single).symm.trans h
  | union members =>
    cases member : optionalMember members with
    | error e => cases (shape_union_error member).symm.trans h
    | ok inner => cases (shape_union member).symm.trans h
  | application origin args =>
    cases instance_eq : instantiate origin args with
    | error e => cases (shape_application_error instance_eq).symm.trans h
    | ok i =>
      rcases shape_application instance_eq with record | opened
      · cases record.symm.trans h
      · cases opened.symm.trans h
  | _ => cases h

/-- What comes to something is no transparent record exactly if it does not come to a wrapper. -/
theorem isTransparent_eq_false_iff {d : Descriptor} (opens : ∀ o, d.shape ≠ .blocked d o) :
    (∀ name field inner, d.shape ≠ .wrapper name field inner) ↔ d.isTransparent = false := by
  constructor
  · refine fun noWrapper => Bool.eq_false_iff.2 fun transparent => ?_
    rcases shape_of_isTransparent transparent with ⟨name, field, inner, h⟩ | ⟨o, h⟩
    · exact noWrapper name field inner h
    · exact opens o h
  · intro ordinary name field inner h
    cases ordinary.symm.trans (isTransparent_of_shape h)

end Descriptor

namespace Shape

theorem allowsAbsence_iff_encode (s : Shape) : s.allowsAbsence = true ↔
    Wire.encode s .null = .ok .null ∧ ∀ name field inner, s ≠ .wrapper name field inner := by
  cases s with
  | scalar kind =>
    cases kind <;>
      simp [allowsAbsence, Wire.encode, Wire.encodeScalar, Wired.mismatch, Wired.fail]
  | temporal kind =>
    cases kind <;>
      simp [allowsAbsence, Wire.encode, Wire.encodeTemporal, Wired.mismatch, Wired.fail]
  | _ => simp [allowsAbsence, Wire.encode, Wire.encodeEnum, Wired.mismatch, Wired.fail]

theorem allowsAbsence_iff_decode (s : Shape) : s.allowsAbsence = true ↔
    Wire.decode s .null = .ok .null ∧ ∀ name field inner, s ≠ .wrapper name field inner := by
  cases s with
  | scalar kind =>
    cases kind <;>
      simp [allowsAbsence, Wire.decode, Wire.decodeScalar, Wired.mismatch, Wired.fail]
  | temporal kind =>
    cases kind <;>
      simp [allowsAbsence, Wire.decode, Wire.decodeTemporal, Wired.mismatch, Wired.fail]
  | enum e =>
    simp [allowsAbsence, Wire.decode, Wire.decodeEnum, EnumDef.memberFor?_null, Wired.mismatch,
      Wired.fail]
  | _ => simp [allowsAbsence, Wire.decode, Wired.mismatch, Wired.fail]

end Shape

namespace Descriptor

/-- **A type whose null travels as null may be missing, unless it is a transparent record.** -/
theorem allowsAbsence_iff_encode (d : Descriptor) :
    d.shape.allowsAbsence = true ↔ d.encode .null = .ok .null ∧ d.isTransparent = false := by
  rw [Shape.allowsAbsence_iff_encode, encode]
  refine and_congr_right fun written => isTransparent_eq_false_iff fun o h => ?_
  rw [h, Wire.encode] at written
  cases written

/-- **A type that reads null as null may be missing, unless it is a transparent record.** -/
theorem allowsAbsence_iff_decode (d : Descriptor) :
    d.shape.allowsAbsence = true ↔ d.decode .null = .ok .null ∧ d.isTransparent = false := by
  rw [Shape.allowsAbsence_iff_decode, decode]
  refine and_congr_right fun read => isTransparent_eq_false_iff fun o h => ?_
  rw [h, Wire.decode] at read
  cases read

end Descriptor

namespace Wire

/-! ## Writing and reading as walks -/

/-- Writes one field of a record, behind what has been written. -/
def writeStep (vs : List (String × Value)) (done : Members) (f : Field) : Wired Members :=
  match vs.lookup f.1 with
  | none =>
    if f.2.shape.allowsAbsence then .ok done else (Wired.fail .missing).within (.member f.1)
  | some v =>
    if v.isNull && f.2.shape.allowsAbsence then .ok done
    else (f.2.encode v).within (.member f.1) >>= fun j => .ok (putEntry done f.1 j)

/-- Reads one field of a record, behind what has been read. -/
def readStep (members : Members) (done : List (String × Value)) (f : Field) :
    Wired (List (String × Value)) :=
  readField members (f.1, f.2.shape) >>= fun v => .ok (done ++ [(f.1, v)])

theorem encodeFields_eq_foldlM (fields : List Field) (vs : List (String × Value))
    (done : Members) : encodeFields (Descriptor.fieldShapes [] fields) vs done =
      fields.foldlM (writeStep vs) done := by
  induction fields generalizing done with
  | nil => rw [Descriptor.fieldShapes, encodeFields]; rfl
  | cons f rest ih =>
    rw [Descriptor.fieldShapes_cons, List.foldlM_cons, writeStep]
    cases there : vs.lookup f.1 with
    | none =>
      rw [encodeFields]
      cases allowed : f.2.shape.allowsAbsence with
      | true => simp only [there, if_true, ok_bind, ih]
      | false => simp [there, Wired.fail, Wired.within]
    | some v =>
      by_cases left : v = .null ∧ f.2.shape.allowsAbsence = true
      · obtain ⟨rfl, allowed⟩ := left
        have absent : Value.fieldOf vs f.1 = .null := by rw [Value.fieldOf, there]; rfl
        rw [encodeFields_skip absent allowed, ih]
        simp [Value.isNull, allowed]
      · have needed : v = .null → f.2.shape.allowsAbsence = false := fun null =>
          Bool.eq_false_iff.2 fun allowed => left ⟨null, allowed⟩
        have present : (v.isNull && f.2.shape.allowsAbsence) = false := by
          cases v <;> first | rfl | simp [needed rfl]
        rw [encodeFields_present there needed]
        simp [present, Descriptor.encode, ih, bind_assoc]

theorem foldlM_readStep (fields : List Field) (members : Members) (done : List (String × Value)) :
    fields.foldlM (readStep members) done =
      (decodeFields (Descriptor.fieldShapes [] fields) members >>= fun vs => .ok (done ++ vs)) := by
  induction fields generalizing done with
  | nil => simp [Descriptor.fieldShapes, decodeFields]
  | cons f rest ih =>
    rw [Descriptor.fieldShapes_cons, List.foldlM_cons, decodeFields_cons, readStep]
    cases readField members (f.1, f.2.shape) with
    | error e => rfl
    | ok v => simp [ih, bind_assoc]

/-! ## A missing field and a null one -/

variable {f : String}

theorem cause_of_encode_null {s : Shape} {e : WireError} (h : encode s .null = .error e) :
    e.cause ≠ .missing := by
  induction s with
  | scalar kind =>
    cases kind <;> simp only [encode, encodeScalar, Wired.mismatch, Wired.fail] at h <;> cases h <;>
      rintro ⟨⟩
  | temporal kind =>
    cases kind <;> simp only [encode, encodeTemporal, Wired.mismatch, Wired.fail] at h <;>
      cases h <;> rintro ⟨⟩
  | wrapper name field inner ih =>
    rw [encode] at h
    exact ih h
  | _ =>
    simp only [encode, encodeEnum, Wired.mismatch, Wired.fail] at h
    cases h <;> rintro ⟨⟩

theorem cause_of_decode_null {s : Shape} {e : WireError} (h : decode s .null = .error e) :
    e.cause ≠ .missing := by
  induction s with
  | scalar kind =>
    cases kind <;> simp only [decode, decodeScalar, Wired.mismatch, Wired.fail] at h <;> cases h <;>
      rintro ⟨⟩
  | temporal kind =>
    cases kind <;> simp only [decode, decodeTemporal, Wired.mismatch, Wired.fail] at h <;>
      cases h <;> rintro ⟨⟩
  | wrapper name field inner ih =>
    rw [decode] at h
    exact ih h
  | _ =>
    simp only [decode, decodeEnum, EnumDef.memberFor?_null, Wired.mismatch, Wired.fail] at h
    cases h <;> rintro ⟨⟩

/-- The failure of a record that lacks a field. -/
def missing (f : String) : WireError := ⟨[.member f], .missing⟩

/-- Two lists of named entries that agree but for one name, which the first one lacks. -/
structure Lacks {α : Type} (f : String) (value : α) (xs ys : List (String × α)) : Prop where
  missing : xs.lookup f = none
  there : ys.lookup f = some value
  others : ∀ g, g ≠ f → ys.lookup g = xs.lookup g

/-- A field of a name that must not be missing. -/
def Needed (f : String) (g : Field) : Prop := g.1 = f ∧ g.2.shape.allowsAbsence = false

/-- The failure of a part is not that the part is missing, unless its own failure is. -/
theorem within_ne_missing {α β : Type} {name : String} {w : Wired α} (k : α → β)
    (h : name = f → ∀ e, w = .error e → e.cause ≠ .missing) :
    (w.within (.member name) >>= fun a => Except.ok (k a)) ≠ .error (missing f) := by
  intro failed
  rcases bind_eq_error.1 failed with failed | ⟨_, -, ⟨⟩⟩
  obtain ⟨e, inner, same⟩ := Wired.within_eq_error.1 failed
  have step : Step.member f = .member name := (List.cons.inj (congrArg WireError.steps same)).1
  have cause : WireCause.missing = e.cause := congrArg WireError.cause same
  exact h (Step.member.inj step).symm e inner cause.symm

section Write

variable {vs vs' : List (String × Value)}

theorem writeStep_of_needed (h : Lacks f .null vs vs') {g : Field} (needed : Needed f g)
    (done : Members) : writeStep vs done g = .error (missing f) := by
  obtain ⟨rfl, needed⟩ := needed
  simp only [writeStep, h.missing, needed, Bool.false_eq_true, if_false]
  rfl

theorem writeStep_eq (h : Lacks f .null vs vs') {g : Field} (free : ¬Needed f g) (done : Members) :
    writeStep vs done g = writeStep vs' done g := by
  by_cases same : g.1 = f
  · have allowed : g.2.shape.allowsAbsence = true := by
      cases allowed : g.2.shape.allowsAbsence with
      | true => rfl
      | false => exact absurd ⟨same, allowed⟩ free
    simp only [writeStep, same, h.missing, h.there, allowed, Value.isNull, Bool.and_self, if_true]
  · rw [writeStep, writeStep, h.others _ same]

theorem writeStep_ne_missing (h : Lacks f .null vs vs') (g : Field) (done : Members) :
    writeStep vs' done g ≠ .error (missing f) := by
  unfold writeStep
  split
  · next lacking =>
    split
    · exact nofun
    · have other : g.1 ≠ f := fun same => by
        rw [same, h.there] at lacking
        cases lacking
      rintro ⟨⟩
      exact other rfl
  · next v there =>
    split
    · exact nofun
    · refine within_ne_missing _ fun same e failed => ?_
      rw [same, h.there] at there
      cases there
      exact cause_of_encode_null failed

end Write

section Read

variable {members members' : Members}

theorem readStep_of_needed (h : Lacks f .null members members') {g : Field} (needed : Needed f g)
    (done : List (String × Value)) : readStep members done g = .error (missing f) := by
  obtain ⟨rfl, needed⟩ := needed
  simp only [readStep, readField, h.missing, needed, Bool.false_eq_true, if_false]
  rfl

theorem readStep_eq (h : Lacks f .null members members') {g : Field} (free : ¬Needed f g)
    (done : List (String × Value)) : readStep members done g = readStep members' done g := by
  by_cases same : g.1 = f
  · have allowed : g.2.shape.allowsAbsence = true := by
      cases allowed : g.2.shape.allowsAbsence with
      | true => rfl
      | false => exact absurd ⟨same, allowed⟩ free
    have null := ((Shape.allowsAbsence_iff_decode _).1 allowed).1
    simp only [readStep, readField, same, h.missing, h.there, allowed, if_true, null,
      Wired.within_ok]
  · rw [readStep, readStep, readField, readField, h.others _ same]

theorem readStep_ne_missing (h : Lacks f .null members members') (g : Field)
    (done : List (String × Value)) : readStep members' done g ≠ .error (missing f) := by
  unfold readStep readField
  split
  · next j there =>
    refine within_ne_missing _ fun same e failed => ?_
    rw [same, h.there] at there
    cases there
    exact cause_of_decode_null failed
  · next lacking =>
    have other : g.1 ≠ f := fun same => by
      rw [same, h.there] at lacking
      cases lacking
    split
    · exact nofun
    · rintro ⟨⟩
      exact other rfl

end Read

end Wire

namespace Descriptor

open Wire

theorem needed_iff_encode {f : String} {t : Descriptor} :
    Needed f (f, t) ↔ ¬(t.encode .null = .ok .null ∧ t.isTransparent = false) := by
  rw [← allowsAbsence_iff_encode, Bool.not_eq_true]
  exact ⟨And.right, fun h => ⟨rfl, h⟩⟩

theorem needed_iff_decode {f : String} {t : Descriptor} :
    Needed f (f, t) ↔ ¬(t.decode .null = .ok .null ∧ t.isTransparent = false) := by
  rw [← allowsAbsence_iff_decode, Bool.not_eq_true]
  exact ⟨And.right, fun h => ⟨rfl, h⟩⟩

theorem encode_front {before : List Field} {name : String} {vs : List (String × Value)} :
    (∃ e, (record "" before false).encode (.record name vs) = .error e) ↔
      ∃ e, before.foldlM (writeStep vs) [] = .error e := by
  rw [encode, shape_record rfl, encode_record (.record _ _), encodeFields_eq_foldlM]
  cases before.foldlM (writeStep vs) [] <;> simp

theorem decode_front {before : List Field} {members : Members} :
    (∃ e, (record "" before false).decode (.object members) = .error e) ↔
      ∃ e, before.foldlM (readStep members) [] = .error e := by
  rw [decode, shape_record rfl, decode_record (.record _ _), foldlM_readStep]
  cases decodeFields (fieldShapes [] before) members <;> simp

/-- **A missing field and a null one** come to the same result exactly if each field of the name
takes null and is no transparent record, or comes behind fields that fail already. -/
theorem missing_iff_null {d : Descriptor} {fields : List Field} (h : d.HasFields fields)
    (f : String) :
    (∀ name vs vs', Lacks f .null vs vs' →
      (d.encode (.record name vs) = d.encode (.record name vs') ↔
        ∀ before t after, fields = before ++ (f, t) :: after →
          (t.encode .null = .ok .null ∧ t.isTransparent = false) ∨
            ∃ e, (record "" before false).encode (.record name vs) = .error e)) ∧
    ∀ ms ms', Lacks f .null ms ms' →
      (d.decode (.object ms) = d.decode (.object ms') ↔
        ∀ before t after, fields = before ++ (f, t) :: after →
          (t.decode .null = .ok .null ∧ t.isTransparent = false) ∨
            ∃ e, (record "" before false).decode (.object ms) = .error e) := by
  obtain ⟨name, reads⟩ := h.readsFields
  constructor
  · intro n vs vs' lacks
    rw [encode, encode, encode_record reads, encode_record reads, encodeFields_eq_foldlM,
      encodeFields_eq_foldlM, foldlM_eq_iff (fun _ free => writeStep_eq lacks free)
        (fun _ needed => writeStep_of_needed lacks needed) (writeStep_ne_missing lacks)]
    constructor
    · intro stops before t after parts
      rw [encode_front]
      exact or_iff_not_imp_left.2 fun bad => stops before _ after parts (needed_iff_encode.2 bad)
    · rintro front before ⟨g, t⟩ after parts ⟨rfl, needed⟩
      refine encode_front.1 ((front before t after parts).resolve_left ?_)
      exact needed_iff_encode.1 ⟨rfl, needed⟩
  · intro ms ms' lacks
    have walk (members : Members) : decodeFields (fieldShapes [] fields) members =
        fields.foldlM (readStep members) [] := by
      rw [foldlM_readStep]
      cases decodeFields (fieldShapes [] fields) members <;> rfl
    rw [decode, decode, decode_record reads, decode_record reads, walk, walk,
      foldlM_eq_iff (fun _ free => readStep_eq lacks free)
        (fun _ needed => readStep_of_needed lacks needed) (readStep_ne_missing lacks)]
    constructor
    · intro stops before t after parts
      rw [decode_front]
      exact or_iff_not_imp_left.2 fun bad => stops before _ after parts (needed_iff_decode.2 bad)
    · rintro front before ⟨g, t⟩ after parts ⟨rfl, needed⟩
      refine decode_front.1 ((front before t after parts).resolve_left ?_)
      exact needed_iff_decode.1 ⟨rfl, needed⟩

/-- A visit whose stay is wrapped: it may be null, but neither writer nor reader lets it be
missing. -/
theorem missing_iff_null_visit :
    let stay := record "Stay" [("nights", .optional (.scalar .int))] true
    let fields := [("day", .scalar .string), ("stay", stay)]
    let visit := record "Visit" fields false
    let vs := [("day", Value.string "Monday")]
    let ms := [("day", Json.string "Monday")]
    visit.HasFields fields ∧ Lacks "stay" .null vs (vs ++ [("stay", .null)]) ∧
      Lacks "stay" .null ms (ms ++ [("stay", .null)]) ∧ stay.encode .null = .ok .null ∧
      stay.decode .null = .ok .null ∧
      visit.encode (.record "Visit" vs) ≠ visit.encode (.record "Visit" (vs ++ [("stay", .null)])) ∧
      visit.decode (.object ms) ≠ visit.decode (.object (ms ++ [("stay", .null)])) := by
  intro stay fields visit vs ms
  have hasFields : visit.HasFields fields := .record rfl
  have lacks {α : Type} (day null : α) :
      Lacks "stay" null [("day", day)] ([("day", day)] ++ [("stay", null)]) := by
    refine ⟨rfl, rfl, fun g other => ?_⟩
    rw [List.singleton_append, lookup_cons_eq, lookup_cons_eq, lookup_cons_eq, if_neg other]
  obtain ⟨writes, reads⟩ := missing_iff_null hasFields "stay"
  refine ⟨hasFields, lacks _ _, lacks _ _, by cbv, by cbv, fun same => ?_, fun same => ?_⟩
  · rcases (writes "Visit" vs _ (lacks _ _)).1 same [("day", .scalar .string)] stay [] rfl with
      ⟨-, ⟨⟩⟩ | ⟨e, ⟨⟩⟩
  · rcases (reads ms _ (lacks _ _)).1 same [("day", .scalar .string)] stay [] rfl with
      ⟨-, ⟨⟩⟩ | ⟨e, ⟨⟩⟩

end Descriptor

end RpcBridge
