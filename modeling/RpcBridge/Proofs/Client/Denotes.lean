import RpcBridge.Proofs.Client.Serialize
import RpcBridge.Proofs.Wire.Conforms
import RpcBridge.Proofs.Wire.Read

/-!
# Proofs/Client/Denotes — what the parameters of a client stand for

A client writes its parameters down as its interface types say: an optional that is absent is
undefined, a date is a date object, a wrapped value has no wrapper, and the member names of a
dictionary are its keys, in whatever spelling.  A field that a record lacks is undefined.

* `Shape.Denotes` — a value that a client holds, and the service value it stands for;
* `AsSent` — an untyped value stands for what is sent for it.
-/

namespace RpcBridge

open Wire

/-- How an untyped value is held when it is sent as JSON: what has no text stands for null. -/
def Client.AsSent (dateText : TemporalKind → String → String) (j : Json) (t : Client.Tree) : Prop :=
  (t.toJson? dateText).getD .null = j

namespace Shape

mutual

/-- The value of a shape that a client's value stands for. -/
def Denotes (untyped : Json → Client.Tree → Prop) : Shape → Client.Tree → Value → Prop
  | .scalar kind, t, v => kind.Carries v ∧ kind.Images untyped v t
  | .temporal kind, t, v => kind.Carries v ∧ v.Regular ∧ kind.Images v t
  | .enum e, t, v => e.Carries v ∧ e.Images v t
  | .list element, t, v =>
    ∃ ts vs, t = .array ts ∧ v = .list vs ∧ List.Forall₂ (element.Denotes untyped) ts vs
  | .tuple items, t, v => ∃ ts vs, t = .array ts ∧ v = .list vs ∧ ItemsDenote untyped items ts vs
  | .mapping key value, t, v =>
    ∃ members entries, t = .node false members ∧ v = .map entries ∧
      (members.map (·.1)).Nodup ∧
      List.Forall₂ (fun m e => (∃ k, readKey key m.1 = .ok k ∧ k.same e.1 = true) ∧
        value.Denotes untyped m.2 e.2) members entries
  | .optional inner, t, v =>
    (t = .atom .undefined ∧ v = .null) ∨ (v ≠ .null ∧ v ≠ .raw .null ∧ inner.Denotes untyped t v)
  | .record name fields, t, v =>
    ∃ members vs, t = .node false members ∧ v = .record name vs ∧ (fields.map (·.1)).Nodup ∧
      (members.map (·.1)).Nodup ∧ (∀ m ∈ members, m.1 ∈ fields.map (·.1)) ∧
      (∀ f ∈ vs, f.1 ∈ fields.map (·.1) ∨ f.2 = .null) ∧ FieldsDenote untyped fields members vs
  | .wrapper _ _ inner, t, v => inner.Denotes untyped t v
  | .opened _ name [(field, inner)], t, v =>
    ∃ vs, v = .record name vs ∧ (∀ f ∈ vs, f.1 = field ∨ f.2 = .null) ∧
      inner.Denotes untyped t (Value.fieldOf vs field)
  | .opened _ _ _, _, _ | .bareTemplate _ _ _, _, _ | .blocked _ _, _, _ => False

/-- The items of a tuple and the values they stand for. -/
def ItemsDenote (untyped : Json → Client.Tree → Prop) :
    List Shape → List Client.Tree → List Value → Prop
  | [], ts, vs => ts = [] ∧ vs = []
  | s :: rest, ts, vs => ∃ t ts' v vs', ts = t :: ts' ∧ vs = v :: vs' ∧ s.Denotes untyped t v ∧
    ItemsDenote untyped rest ts' vs'

/-- The fields of a record and the values they stand for; one that is missing is undefined. -/
def FieldsDenote (untyped : Json → Client.Tree → Prop) :
    List (String × Shape) → List (String × Client.Tree) → List (String × Value) → Prop
  | [], _, _ => True
  | (name, s) :: rest, members, vs =>
    s.Denotes untyped ((members.lookup name).getD (.atom .undefined)) (Value.fieldOf vs name) ∧
      FieldsDenote untyped rest members vs

end

/-! ## By shape -/

section Equations

variable {untyped : Json → Client.Tree → Prop} {t : Client.Tree} {v : Value}

theorem denotes_scalar {kind : ScalarKind} : (scalar kind).Denotes untyped t v ↔
    kind.Carries v ∧ kind.Images untyped v t := Iff.rfl

theorem denotes_temporal {kind : TemporalKind} : (temporal kind).Denotes untyped t v ↔
    kind.Carries v ∧ v.Regular ∧ kind.Images v t := Iff.rfl

theorem denotes_enum {e : EnumDef} : (enum e).Denotes untyped t v ↔
    e.Carries v ∧ e.Images v t := Iff.rfl

theorem denotes_list {element : Shape} : (list element).Denotes untyped t v ↔
    ∃ ts vs, t = .array ts ∧ v = .list vs ∧ List.Forall₂ (element.Denotes untyped) ts vs := Iff.rfl

theorem denotes_tuple {items : List Shape} : (tuple items).Denotes untyped t v ↔
    ∃ ts vs, t = .array ts ∧ v = .list vs ∧ ItemsDenote untyped items ts vs := Iff.rfl

theorem denotes_mapping {key value : Shape} : (mapping key value).Denotes untyped t v ↔
    ∃ members entries, t = .node false members ∧ v = .map entries ∧
      (members.map (·.1)).Nodup ∧
      List.Forall₂ (fun m e => (∃ k, readKey key m.1 = .ok k ∧ k.same e.1 = true) ∧
        value.Denotes untyped m.2 e.2) members entries := Iff.rfl

theorem denotes_optional {inner : Shape} : (optional inner).Denotes untyped t v ↔
    (t = .atom .undefined ∧ v = .null) ∨
      (v ≠ .null ∧ v ≠ .raw .null ∧ inner.Denotes untyped t v) := Iff.rfl

theorem denotes_record {name : String} {fields : List (String × Shape)} :
    (record name fields).Denotes untyped t v ↔
      ∃ members vs, t = .node false members ∧ v = .record name vs ∧ (fields.map (·.1)).Nodup ∧
        (members.map (·.1)).Nodup ∧ (∀ m ∈ members, m.1 ∈ fields.map (·.1)) ∧
        (∀ f ∈ vs, f.1 ∈ fields.map (·.1) ∨ f.2 = .null) ∧
        FieldsDenote untyped fields members vs := Iff.rfl

theorem denotes_wrapper {name field : String} {inner : Shape} :
    (wrapper name field inner).Denotes untyped t v ↔ inner.Denotes untyped t v := Iff.rfl

/-- A transparent record that is applied to nothing has one field, and what stands for it stands
for the record. -/
theorem denotes_opened {origin : Descriptor} {name : String} {fields : List (String × Shape)} :
    (opened origin name fields).Denotes untyped t v ↔
      ∃ field inner vs, fields = [(field, inner)] ∧ v = .record name vs ∧
        (∀ f ∈ vs, f.1 = field ∨ f.2 = .null) ∧
        inner.Denotes untyped t (Value.fieldOf vs field) := by
  constructor
  · intro denotes
    rcases fields with _ | ⟨⟨field, inner⟩, _ | ⟨_, _⟩⟩
    · exact False.elim denotes
    · obtain ⟨vs, rfl, known, denotes⟩ := denotes
      exact ⟨field, inner, vs, rfl, rfl, known, denotes⟩
    · exact False.elim denotes
  · rintro ⟨field, inner, vs, rfl, rfl, known, denotes⟩
    exact ⟨vs, rfl, known, denotes⟩

theorem not_denotes_bareTemplate {origin : Descriptor} {name : String}
    {fields : List (String × Shape)} : ¬(bareTemplate origin name fields).Denotes untyped t v := id

theorem not_denotes_blocked {d : Descriptor} {obstacle : Obstacle} :
    ¬(blocked d obstacle).Denotes untyped t v := id

theorem itemsDenote_nil {ts : List Client.Tree} {vs : List Value} :
    ItemsDenote untyped [] ts vs ↔ ts = [] ∧ vs = [] := Iff.rfl

theorem itemsDenote_cons {s : Shape} {rest : List Shape} {ts : List Client.Tree}
    {vs : List Value} : ItemsDenote untyped (s :: rest) ts vs ↔
      ∃ t ts' v vs', ts = t :: ts' ∧ vs = v :: vs' ∧ s.Denotes untyped t v ∧
        ItemsDenote untyped rest ts' vs' := Iff.rfl

theorem fieldsDenote_cons {name : String} {s : Shape} {rest : List (String × Shape)}
    {members : List (String × Client.Tree)} {vs : List (String × Value)} :
    FieldsDenote untyped ((name, s) :: rest) members vs ↔
      s.Denotes untyped ((members.lookup name).getD (.atom .undefined)) (Value.fieldOf vs name) ∧
        FieldsDenote untyped rest members vs := Iff.rfl

end Equations

variable {untyped : Json → Client.Tree → Prop}

theorem fieldsDenote_iff {fields : List (String × Shape)} {members : List (String × Client.Tree)}
    {vs : List (String × Value)} : FieldsDenote untyped fields members vs ↔
      ∀ f ∈ fields, f.2.Denotes untyped ((members.lookup f.1).getD (.atom .undefined))
        (Value.fieldOf vs f.1) := by
  induction fields with
  | nil => exact iff_of_true trivial (List.forall_mem_nil _)
  | cons f rest ih => rw [fieldsDenote_cons, ih, List.forall_mem_cons]

theorem length_of_itemsDenote {items : List Shape} {ts : List Client.Tree} {vs : List Value}
    (denote : ItemsDenote untyped items ts vs) : ts.length = items.length := by
  induction items generalizing ts vs with
  | nil =>
    rw [(itemsDenote_nil.1 denote).1]
    rfl
  | cons s rest ih =>
    obtain ⟨t, ts, v, vs, rfl, -, -, others⟩ := itemsDenote_cons.1 denote
    exact congrArg Nat.succ (ih others)

/-- What may be absent and is stands for null. -/
theorem denotes_absent {s : Shape} (allowed : s.allowsAbsence = true) {t : Client.Tree}
    (denotes : s.Denotes untyped t .null) : t = .atom .undefined ∨ t = .atom .null := by
  cases s <;> simp only [allowsAbsence] at allowed
  case optional inner =>
    exact (denotes_optional.1 denotes).elim (fun h => Or.inl h.1) fun h => absurd rfl h.1
  case scalar kind =>
    cases kind <;> simp at allowed
    obtain ⟨-, image⟩ := denotes_scalar.1 denotes
    cases image
    · exact Or.inl rfl
    · exact Or.inr rfl
  all_goals cases allowed

end Shape

end RpcBridge
