import RpcBridge.Proofs.Client.Depth
import RpcBridge.Proofs.Client.Received
import RpcBridge.Proofs.Wire.RoundTrip

/-!
# Proofs/Client/Arrives — parameters that arrive

Generated code writes no slot for what is undefined.  Where that is a slot at the end of an array,
the array comes out shorter; where it is an entry of a dictionary, or a field that may not be
missing, it is gone.  `Shape.arrives` says of a value, part by part, that nothing of the kind
happens.

* `Shape.arrives` — nothing is lost on the way;
* `arrives_list`, `arrives_tuple`, `arrives_mapping`, `arrives_record` — what is sent for a
  container is taken for its value exactly if that is so;
* `delivered_iff` — the same of what the generated statements make of parameters.
-/

namespace RpcBridge

/-- The values of the members. -/
def Client.Tree.values (t : Client.Tree) : List Client.Tree := t.members.map (·.2)

/-- Whether the last slot of an array is written. -/
def Client.endsWritten (contents : List (Option Client.Tree)) : Bool :=
  contents.getLast?.all Option.isSome

/-- Whether something is sent for a part. -/
def Client.isSent (copied : Bool) (s : Shape) (t : Client.Tree) : Bool :=
  (Client.content copied s t).any fun c => !c.isUndefined

namespace Shape

open Client (content endsWritten isSent)

mutual

/-- Whether the service takes what a client sends for the value it stands for; `copied` tells
whether it is copied with the container it stands in. -/
def arrives (copied : Bool) : Shape → Client.Tree → Value → Bool
  | .scalar _, _, _ | .temporal _, _, _ | .enum _, _, _ => true
  | .list element, t, .list vs =>
    endsWritten (t.values.map (content (copied || !element.changes .out) element)) &&
      (t.values.zip vs).all fun p => element.arrives (copied || !element.changes .out) p.1 p.2
  | .tuple items, t, .list vs =>
    endsWritten (List.zipWith (content (copied || !anyItem .out items)) items t.values) &&
      itemsArrive (copied || !anyItem .out items) items t.values vs
  | .mapping key value, t, .map entries =>
    (t.values.zip entries).all fun p =>
      isSent (copied || !(key.changes .out || value.changes .out)) value p.1 &&
        value.arrives (copied || !(key.changes .out || value.changes .out)) p.1 p.2.2
  | .optional inner, t, v => v.isNull || inner.arrives copied t v
  | .record _ fields, t, .record _ vs => fieldsArrive copied fields t.members vs
  | .wrapper _ _ inner, t, v => inner.arrives copied t v
  | _, _, _ => false

/-- The same of the items of a tuple. -/
def itemsArrive (copied : Bool) : List Shape → List Client.Tree → List Value → Bool
  | s :: rest, t :: ts, v :: vs => s.arrives copied t v && itemsArrive copied rest ts vs
  | _, _, _ => true

/-- The same of the fields of a record: one that is not sent has to be one that may be absent. -/
def fieldsArrive (copied : Bool) :
    List (String × Shape) → List (String × Client.Tree) → List (String × Value) → Bool
  | [], _, _ => true
  | (name, s) :: rest, members, vs =>
    (isSent copied s ((members.lookup name).getD (.atom .undefined)) || s.allowsAbsence) &&
      s.arrives copied ((members.lookup name).getD (.atom .undefined)) (Value.fieldOf vs name) &&
      fieldsArrive copied rest members vs

end

section Equations

variable (copied : Bool) (t : Client.Tree)

/-- Scalars always arrive. -/
theorem scalar_arrives (kind : ScalarKind) (v : Value) :
    (scalar kind).arrives copied t v = true := rfl

/-- Temporal values always arrive. -/
theorem temporal_arrives (kind : TemporalKind) (v : Value) :
    (temporal kind).arrives copied t v = true := rfl

/-- Enum members always arrive. -/
theorem enum_arrives (e : EnumDef) (v : Value) : (enum e).arrives copied t v = true := rfl

/-- A list arrives when its last place is written and every element arrives. -/
theorem list_arrives (element : Shape) (vs : List Value) :
    (list element).arrives copied t (.list vs) =
      (endsWritten (t.values.map (content (copied || !element.changes .out) element)) &&
        (t.values.zip vs).all fun p =>
          element.arrives (copied || !element.changes .out) p.1 p.2) := rfl

/-- A tuple arrives when its last place is written and every item arrives. -/
theorem tuple_arrives (items : List Shape) (vs : List Value) :
    (tuple items).arrives copied t (.list vs) =
      (endsWritten (List.zipWith (content (copied || !anyItem .out items)) items t.values) &&
        itemsArrive (copied || !anyItem .out items) items t.values vs) := rfl

/-- A mapping arrives when every value is sent and arrives. -/
theorem mapping_arrives (key value : Shape) (entries : List (Value × Value)) :
    (mapping key value).arrives copied t (.map entries) =
      (t.values.zip entries).all fun p =>
        isSent (copied || !(key.changes .out || value.changes .out)) value p.1 &&
          value.arrives (copied || !(key.changes .out || value.changes .out)) p.1 p.2.2 := rfl

/-- An absent value arrives, a present one when what it holds does. -/
theorem optional_arrives (inner : Shape) (v : Value) :
    (optional inner).arrives copied t v = (v.isNull || inner.arrives copied t v) := rfl

/-- A record arrives when its fields do. -/
theorem record_arrives (name : String) (fields : List (String × Shape)) (n : String)
    (vs : List (String × Value)) : (record name fields).arrives copied t (.record n vs) =
      fieldsArrive copied fields t.members vs := rfl

/-- A wrapper arrives when what it wraps does. -/
theorem wrapper_arrives (name field : String) (inner : Shape) (v : Value) :
    (wrapper name field inner).arrives copied t v = inner.arrives copied t v := rfl

theorem opened_arrives (origin : Descriptor) (name : String) (fields : List (String × Shape))
    (v : Value) : (opened origin name fields).arrives copied t v = false := rfl

/-- The items arrive one by one. -/
theorem itemsArrive_cons (s : Shape) (rest : List Shape) (ts : List Client.Tree) (v : Value)
    (vs : List Value) : itemsArrive copied (s :: rest) (t :: ts) (v :: vs) =
      (s.arrives copied t v && itemsArrive copied rest ts vs) := rfl

/-- A field arrives when it is sent or may be absent, and its value arrives. -/
theorem fieldsArrive_cons (name : String) (s : Shape) (rest : List (String × Shape))
    (members : List (String × Client.Tree)) (vs : List (String × Value)) :
    fieldsArrive copied ((name, s) :: rest) members vs =
      ((isSent copied s ((members.lookup name).getD (.atom .undefined)) || s.allowsAbsence) &&
        s.arrives copied ((members.lookup name).getD (.atom .undefined))
          (Value.fieldOf vs name) && fieldsArrive copied rest members vs) := rfl

end Equations

end Shape

namespace Client

open Wire

variable {dateText : TemporalKind → String → String} {copied : Bool}

theorem Tree.values_array (ts : List Tree) : (Tree.array ts).values = ts :=
  Tree.map_snd_indexed 0 ts

/-- A tree is sent exactly when something is written for it. -/
theorem isSent_eq (copied : Bool) (s : Shape) (t : Tree) :
    isSent copied s t = (sent dateText copied s t).isSome := by
  unfold isSent sent
  cases content copied s t with
  | none => rfl
  | some c =>
    rw [Option.any_some, Option.bind_some]
    cases undefined : c.isUndefined
    · cases there : c.toJson? dateText with
      | none =>
        rw [Tree.toJson?_eq_none.1 there] at undefined
        cases undefined
      | some j => rfl
    · rw [Tree.toJson?_eq_none.2 undefined]
      rfl

/-! ## Slots that are written -/

/-- The last place is written exactly when no unwritten place is cut off at the end. -/
theorem endsWritten_iff {cs : List (Option Tree)} :
    endsWritten cs = true ↔ cs.rdropWhile Option.isNone = cs := by
  rw [List.rdropWhile_eq_self_iff, endsWritten]
  rcases cs.eq_nil_or_concat with rfl | ⟨front, c, rfl⟩
  · simp
  · cases c <;> simp

/-- As many texts as contents come out exactly if the last slot is written. -/
theorem endsWritten_of_length {cs : List (Option Tree)}
    (length : (slotTexts dateText cs).length = cs.length) : endsWritten cs = true := by
  rw [slotTexts, List.length_map] at length
  exact endsWritten_iff.2 ((List.rdropWhile_prefix _ cs).eq_of_length length)

/-- Where the last place is written, every place has its text, `null` for the unwritten ones. -/
theorem slotTexts_of_endsWritten {cs : List (Option Tree)} (ends : endsWritten cs = true) :
    slotTexts dateText cs = cs.map fun c => (c.bind (Tree.toJson? dateText)).getD .null := by
  rw [slotTexts, endsWritten_iff.1 ends]

/-! ## Parts -/

/-- What has been said of a part: the service takes what is sent for the value of the part exactly
if that arrives. -/
def Arrives (dateText : TemporalKind → String → String) (copied : Bool) (s : Shape) (t : Tree)
    (v : Value) : Prop :=
  TakenFor s ((sent dateText copied s t).getD .null) v ↔ s.arrives copied t v = true

/-- A relation decided element by element holds throughout exactly when the test succeeds
throughout. -/
theorem forall₂_iff_zip {α β : Type} {P : α → β → Prop} {b : α → β → Bool} {as : List α}
    {bs : List β} (h : List.Forall₂ (fun a x => P a x ↔ b a x = true) as bs) :
    List.Forall₂ P as bs ↔ (as.zip bs).all (fun p => b p.1 p.2) = true := by
  induction h with
  | nil => simp
  | cons first _ ih =>
    rw [List.forall₂_cons, List.zip_cons_cons, List.all_cons, Bool.and_eq_true, first, ih]

/-- A list is taken exactly when it arrives, given the same of its elements. -/
theorem arrives_list {element : Shape} {ts : List Tree} {vs : List Value}
    (each : List.Forall₂ (Arrives dateText (copied || !element.changes .out) element) ts vs) :
    Arrives dateText copied (.list element) (.array ts) (.list vs) := by
  have parts : List.Forall₂ (fun t v => TakenFor element
      ((sent dateText (copied || !element.changes .out) element t).getD .null) v) ts vs ↔
      (ts.zip vs).all (fun p =>
        element.arrives (copied || !element.changes .out) p.1 p.2) = true :=
    forall₂_iff_zip each
  rw [Arrives, sent_list, Option.getD_some, takenFor_list, Shape.list_arrives, Tree.values_array,
    Bool.and_eq_true, ← parts]
  constructor
  · intro taken
    have ends := endsWritten_of_length
      (taken.length_eq.trans (each.length_eq.symm.trans (List.length_map _).symm))
    rw [slotTexts_of_endsWritten ends, List.map_map, List.forall₂_map_left_iff] at taken
    exact ⟨ends, taken⟩
  · rintro ⟨ends, taken⟩
    rwa [slotTexts_of_endsWritten ends, List.map_map, List.forall₂_map_left_iff]

/-- What is sent for the items of a tuple, each taken for its value. -/
theorem itemsTaken_iff {items : List Shape} {ts : List Tree} {vs : List Value}
    (denote : Shape.ItemsDenote (AsSent dateText) items ts vs)
    (each : ∀ s ∈ items, ∀ {t v}, s.Denotes (AsSent dateText) t v →
      Arrives dateText copied s t v) :
    ItemsTaken items ((List.zipWith (content copied) items ts).map fun c =>
        (c.bind (Tree.toJson? dateText)).getD .null) vs ↔
      Shape.itemsArrive copied items ts vs = true := by
  induction items generalizing vs ts with
  | nil =>
    obtain ⟨rfl, rfl⟩ := Shape.itemsDenote_nil.1 denote
    exact iff_of_true ⟨rfl, rfl⟩ rfl
  | cons s rest ih =>
    rw [List.forall_mem_cons] at each
    obtain ⟨t, ts, v, vs, rfl, rfl, denotes, denote⟩ := Shape.itemsDenote_cons.1 denote
    have part : TakenFor s ((sent dateText copied s t).getD .null) v ↔ _ := each.1 denotes
    rw [List.zipWith_cons_cons, List.map_cons, ItemsTaken, Shape.itemsArrive_cons, Bool.and_eq_true,
      ← ih denote each.2, ← part]
    constructor
    · rintro ⟨_, _, _, _, ⟨⟩, ⟨⟩, first, others⟩
      exact ⟨first, others⟩
    · rintro ⟨first, others⟩
      exact ⟨_, _, _, _, rfl, rfl, first, others⟩

/-- What is taken for items has as many members as there are items. -/
theorem length_of_itemsTaken {items : List Shape} {js : List Json} {vs : List Value}
    (taken : ItemsTaken items js vs) : js.length = items.length := by
  induction items generalizing js vs with
  | nil =>
    rw [ItemsTaken] at taken
    rw [taken.1]
    rfl
  | cons s rest ih =>
    rw [ItemsTaken] at taken
    obtain ⟨j, js', v, vs', rfl, -, -, others⟩ := taken
    exact congrArg Nat.succ (ih others)

/-- A tuple is taken exactly when it arrives, given the same of its items. -/
theorem arrives_tuple {items : List Shape} {ts : List Tree} {vs : List Value}
    (denote : Shape.ItemsDenote (AsSent dateText) items ts vs)
    (each : ∀ s ∈ items, ∀ {t v}, s.Denotes (AsSent dateText) t v →
      Arrives dateText (copied || !Shape.anyItem .out items) s t v) :
    Arrives dateText copied (.tuple items) (.array ts) (.list vs) := by
  have length := Shape.length_of_itemsDenote denote
  have parts := itemsTaken_iff denote each
  rw [Arrives, sent_tuple copied length, Option.getD_some, takenFor_tuple, Shape.tuple_arrives,
    Tree.values_array, Bool.and_eq_true, ← parts]
  constructor
  · intro taken
    have ends := @endsWritten_of_length dateText _
      ((length_of_itemsTaken taken).trans (by rw [List.length_zipWith, length, Nat.min_self]))
    rw [slotTexts_of_endsWritten ends] at taken
    exact ⟨ends, taken⟩
  · rintro ⟨ends, taken⟩
    rwa [slotTexts_of_endsWritten ends]

/-- What is sent for entries all of which have a text; one without is missing. -/
theorem forall₂_filterMap_iff {α : Type} {R : String × Json → α → Prop} {f : Tree → Option Json}
    {members : List (String × Tree)} {as : List α} (length : members.length = as.length) :
    List.Forall₂ R (members.filterMap fun m => (f m.2).map (Prod.mk m.1)) as ↔
      List.Forall₂ (fun m a => ∃ j, f m.2 = some j ∧ R (m.1, j) a) members as := by
  have shorter (members : List (String × Tree)) :
      (members.filterMap fun m => (f m.2).map (Prod.mk m.1)).length ≤ members.length :=
    List.length_filterMap_le _ _
  induction members generalizing as with
  | nil =>
    obtain rfl := List.length_eq_zero_iff.1 length.symm
    simp
  | cons m rest ih =>
    cases as with
    | nil => cases length
    | cons a as =>
      rw [List.forall₂_cons, List.filterMap_cons]
      refine Iff.trans ?_ (and_congr Iff.rfl (ih (Nat.succ.inj length)))
      cases there : f m.2 with
      | none =>
        refine ⟨fun h => ?_, ?_⟩
        · have same := h.length_eq
          have := shorter rest
          rw [← length] at same
          simp only [Option.map_none, List.length_cons] at same
          omega
        · rintro ⟨⟨j, ⟨⟩, -⟩, -⟩
      | some j => simp

/-- A mapping is taken exactly when it arrives, given the same of its values. -/
theorem arrives_mapping {key value : Shape} {members : List (String × Tree)}
    {entries : List (Value × Value)}
    (denote : List.Forall₂ (fun m e => (∃ k, readKey key m.1 = .ok k ∧ k.same e.1 = true) ∧
      value.Denotes (AsSent dateText) m.2 e.2) members entries)
    (each : ∀ {t v}, value.Denotes (AsSent dateText) t v →
      Arrives dateText (copied || !(key.changes .out || value.changes .out)) value t v) :
    Arrives dateText copied (.mapping key value) (.node false members) (.map entries) := by
  rw [Arrives, sent_mapping, Option.getD_some, takenFor_mapping,
    forall₂_filterMap_iff denote.length_eq, Shape.mapping_arrives]
  generalize (copied || !(key.changes .out || value.changes .out)) = copied at each ⊢
  have values : (Tree.node false members).values = members.map (·.2) := rfl
  rw [values, List.zip_map_left, List.all_map]
  refine forall₂_iff_zip (b := fun m e => isSent copied value m.2 && value.arrives copied m.2 e.2)
    (denote.imp fun m e h => ?_)
  obtain ⟨named, denotes⟩ := h
  have part := each denotes
  rw [Arrives] at part
  rw [@isSent_eq dateText, Bool.and_eq_true, ← part]
  constructor
  · rintro ⟨j, there, -, taken⟩
    rw [there]
    exact ⟨rfl, taken⟩
  · rintro ⟨there, taken⟩
    obtain ⟨j, there⟩ := Option.isSome_iff_exists.1 there
    rw [there] at taken
    exact ⟨j, there, named, taken⟩

/-- The fields arrive exactly when each of them does. -/
theorem fieldsArrive_iff {fields : List (String × Shape)} {members : List (String × Tree)}
    {vs : List (String × Value)} : Shape.fieldsArrive copied fields members vs = true ↔
      ∀ f ∈ fields, (isSent copied f.2 ((members.lookup f.1).getD (.atom .undefined)) = true ∨
        f.2.allowsAbsence = true) ∧ f.2.arrives copied
          ((members.lookup f.1).getD (.atom .undefined)) (Value.fieldOf vs f.1) = true := by
  induction fields with
  | nil => exact iff_of_true rfl (List.forall_mem_nil _)
  | cons f rest ih =>
    rw [Shape.fieldsArrive_cons, Bool.and_eq_true, Bool.and_eq_true, Bool.or_eq_true, ih,
      List.forall_mem_cons]

/-- A record is taken exactly when it arrives, given the same of its fields. -/
theorem arrives_record {name : String} {fields : List (String × Shape)}
    {members : List (String × Tree)} {vs : List (String × Value)}
    (distinct : (fields.map (·.1)).Nodup) (nodup : (members.map (·.1)).Nodup)
    (declared : ∀ m ∈ members, m.1 ∈ fields.map (·.1))
    (known : ∀ f ∈ vs, f.1 ∈ fields.map (·.1) ∨ f.2 = .null)
    (each : ∀ f ∈ fields, Arrives dateText copied f.2
      ((members.lookup f.1).getD (.atom .undefined)) (Value.fieldOf vs f.1)) :
    Arrives dateText copied (.record name fields) (.node false members) (.record name vs) := by
  obtain ⟨ms, written, -, -, found⟩ :=
    @sent_record dateText copied name _ _ distinct nodup declared
  rw [Arrives, written, Option.getD_some, takenFor_record (.record name fields) distinct known,
    Shape.record_arrives,
    Tree.members, fieldsArrive_iff]
  refine forall₂_congr fun f hf => ?_
  have part := each f hf
  rw [Arrives] at part
  rw [FieldTaken, found f hf, @isSent_eq dateText, ← part]
  cases sent dateText copied f.2 ((members.lookup f.1).getD (.atom .undefined)) with
  | some j => simp
  | none =>
    simp only [reduceCtorEq, false_and, exists_false, false_or, true_and, Option.isSome_none,
      Bool.false_eq_true, Option.getD_none]
    exact and_congr_right fun allowed => (takenFor_null allowed).symm

/-! ## What is no container -/

/-- What is sent for a scalar is taken for it. -/
theorem taken_scalar {kind : ScalarKind} {t : Tree} {v : Value} (carries : kind.Carries v)
    (image : kind.Images (AsSent dateText) v t) :
    TakenFor (.scalar kind) ((t.toJson? dateText).getD .null) v := by
  cases image with
  | any held | anyList held =>
    rw [held]
    refine takenFor_of_conforms ?_ trivial rfl
    rwa [Shape.Conforms]
  | float m =>
    obtain ⟨x, finite⟩ : ∃ x, m.toDouble = .finite x := by
      generalize m.toDouble = y at carries
      cases carries
      exact ⟨_, rfl⟩
    exact ⟨.float m.toDouble, rfl, by simp [finite, Value.same, Double.same, Finite.same]⟩
  | _ =>
    refine takenFor_of_conforms ?_ trivial rfl
    rwa [Shape.Conforms]

/-- What is sent for a temporal value is taken for it. -/
theorem taken_temporal {kind : TemporalKind} {t : Tree} {v : Value} (carries : kind.Carries v)
    (regular : v.Regular) (image : kind.Images v t) :
    TakenFor (.temporal kind) ((sent dateText false (.temporal kind) t).getD .null) v := by
  cases image <;>
  · rw [sent_temporal]
    refine takenFor_of_conforms ?_ (by rwa [Shape.ComesBack]) rfl
    rwa [Shape.Conforms]

/-- What is sent for an enum member is taken for it. -/
theorem taken_enum {e : EnumDef} {t : Tree} {v : Value} (carries : e.Carries v)
    (image : e.Images v t) : TakenFor (.enum e) ((t.toJson? dateText).getD .null) v := by
  obtain ⟨m, rfl, found, rfl⟩ := image
  rw [(text_of_literal dateText m.value).1, Option.getD_some]
  refine takenFor_of_conforms ?_ trivial (by simp only [encode, encodeEnum, if_true, found])
  rwa [Shape.Conforms]

/-- **What a client sends is taken for its value exactly if nothing is lost.** -/
theorem arrives {s : Shape} {t : Tree} {v : Value} (copies : Copies copied s)
    (denotes : s.Denotes (AsSent dateText) t v) : Arrives dateText copied s t v := by
  induction s generalizing copied t v with
  | scalar kind =>
    rw [Shape.denotes_scalar] at denotes
    rw [Arrives, sent_scalar, Shape.scalar_arrives]
    exact iff_of_true (taken_scalar denotes.1 denotes.2) rfl
  | temporal kind =>
    rw [Shape.denotes_temporal] at denotes
    obtain rfl := copies.eq_false
    rw [Arrives, Shape.temporal_arrives]
    exact iff_of_true (taken_temporal denotes.1 denotes.2.1 denotes.2.2) rfl
  | enum e =>
    rw [Shape.denotes_enum] at denotes
    rw [Arrives, sent_enum, Shape.enum_arrives]
    exact iff_of_true (taken_enum denotes.1 denotes.2) rfl
  | list element ih =>
    obtain ⟨ts, vs, rfl, rfl, denote⟩ := Shape.denotes_list.1 denotes
    exact arrives_list (denote.imp fun t v denotes => ih copies.element denotes)
  | tuple items ih =>
    obtain ⟨ts, vs, rfl, rfl, denote⟩ := Shape.denotes_tuple.1 denotes
    exact arrives_tuple denote fun s hs t v denotes => ih s hs (copies.item hs) denotes
  | mapping key value _ ih =>
    obtain ⟨members, entries, rfl, rfl, -, denote⟩ := Shape.denotes_mapping.1 denotes
    exact arrives_mapping denote fun denotes => ih copies.value denotes
  | optional inner ih =>
    rw [Shape.denotes_optional] at denotes
    rw [Arrives, sent_optional, Shape.optional_arrives]
    rcases denotes with ⟨rfl, rfl⟩ | ⟨notNull, notRaw, denotes⟩
    · exact iff_of_true ⟨.null, rfl, by rw [Value.same]⟩ rfl
    · have part : TakenFor inner ((sent dateText copied inner t).getD .null) v ↔ _ :=
        ih copies.present denotes
      have isNull : v.isNull = false := by
        cases v <;> first | rfl | exact absurd rfl notNull
      have same : (if t.isUndefined then none else sent dateText copied inner t) =
          sent dateText copied inner t := by
        split
        · next undefined =>
          obtain rfl := Tree.isUndefined_iff.1 undefined
          exact (sent_undefined denotes).symm
        · rfl
      rw [same, isNull, Bool.false_or, ← part]
      generalize (sent dateText copied inner t).getD .null = j
      by_cases null : j = .null
      · subst null
        have apart {s : Shape} : ¬TakenFor s .null v := fun taken =>
          (null_of_takenFor taken).elim notNull notRaw
        exact iff_of_false apart apart
      · exact takenFor_optional null
  | record name fields ih =>
    obtain ⟨members, vs, rfl, rfl, distinct, nodup, declared, known, denote⟩ :=
      Shape.denotes_record.1 denotes
    exact arrives_record distinct nodup declared known fun f hf =>
      ih f hf (copies.field hf) (Shape.fieldsDenote_iff.1 denote f hf)
  | wrapper _ _ inner ih =>
    rw [Shape.denotes_wrapper] at denotes
    rw [Arrives, sent_wrapper, takenFor_wrapper, Shape.wrapper_arrives]
    exact ih copies.wrapped denotes
  | opened _ name fields =>
    obtain ⟨field, inner, vs, rfl, -⟩ := id (Shape.denotes_opened.1 denotes)
    exact iff_of_false (opened_lost copies denotes) (by rw [Shape.opened_arrives]; decide)
  | bareTemplate => exact (Shape.not_denotes_bareTemplate denotes).elim
  | blocked => exact (Shape.not_denotes_blocked denotes).elim

/-! ## On memories -/

/-- A variable of a function holds a value that has been made before. -/
def Memory.Given (μ : Memory) (name : String) (t : Tree) : Prop :=
  ∃ L : Layout, μ.vars (.root name) = L.held ∧ L.Fits μ.objects ∧ (∀ a, L.Uses a → a < μ.next) ∧
    L.tree = t

/-- One variable is read and another one is to be written. -/
theorem ready_root (js : Engine) {n : Nat} {μ : Memory} {source target : String} {L : Layout}
    (apart : source ≠ target) (holds : μ.vars (.root source) = L.held) (fits : L.Fits μ.objects)
    (old : ∀ a, L.Uses a → a < μ.next) :
    Ready js n μ (.root source) (.root target) L (.var (.root target)) where
  apart := apart
  source v μ' agrees := by
    have other : (Variable.root source) ≠ .root target := fun same => apart (Variable.root.inj same)
    have kept : μ'.vars (.root source) = L.held := by
      rw [agrees.vars _ id, ← holds]
      exact Memory.vars_put_of_ne μ v other
    exact congrArg Except.ok kept
  target _ _ _ := rfl
  fits := fits
  old := old
  outside := id

/-- What has been written into a variable that was undefined. -/
theorem Prepares.shows {n : Nat} {μ : Memory} {L : Layout} {name : String}
    {run : Except Fault Memory} {r : Option Tree}
    (prepares : Prepares n μ L (.var (.root name)) run r)
    (declared : μ.vars (.root name) = .atom .undefined) :
    ∃ μ', run = .ok μ' ∧ μ'.Shows name (r.getD (.atom .undefined)) := by
  obtain ⟨μ', content, ran, delivers, rfl⟩ := prepares
  have written := delivers.agrees.vars (.root name) id
  cases content with
  | none => exact ⟨μ', ran, .atom .undefined, written.trans declared, .atom _, rfl⟩
  | some C => exact ⟨μ', ran, C, written.trans (if_pos rfl), delivers.fits C rfl, rfl⟩

/-- **What the service reads of what a client sends.**  The function that prepares the parameters of
a call runs to its end, and what is sent for its result, if anything, is taken for the value that
the parameters stand for exactly if nothing of them is lost. -/
theorem delivered_iff {d : Descriptor} {r next : Resolver} {c : Caller}
    (accepted : Yields (Resolver.code .out d Caller.params Caller.preparedParams) r c.prepare next)
    (kept : d.shape.keysKept .out false = true) {t : Tree} {v : Value}
    (denotes : d.shape.Denotes (AsSent dateText) t v) (js : Engine) {μ : Memory}
    (given : μ.Given "params" t) (declared : μ.vars (.root "preparedParams") = .atom .undefined) :
    ∃ μ' prepared, Statement.runAll js c.prepareBody μ = .ok μ' ∧
      μ'.Shows "preparedParams" prepared ∧
      ∀ j, prepared.toJson? dateText = some j →
        ((∃ back, d.decode j = .ok back ∧ back.same v = true) ↔
          d.shape.arrives (!d.shape.changes .out) t v = true) := by
  obtain ⟨L, holds, fits, old, rfl⟩ := given
  have generated := yields_generating accepted
  have ready := ready_root (n := r.counter) js (by decide : "params" ≠ "preparedParams") holds
    fits old
  have prepares : Prepares r.counter μ L (.var (.root "preparedParams"))
      (Statement.runAll js c.prepareBody μ)
      (content (!d.shape.changes .out) d.shape L.tree) := by
    rw [Caller.prepareBody, transforms_eq generated]
    cases d.shape.changes .out
    · exact ready.share
    · exact prepare_follows js _ kept generated ready denotes
  obtain ⟨μ', ran, shows⟩ := prepares.shows declared
  refine ⟨μ', _, ran, shows, fun j text => ?_⟩
  have copies : Copies (!d.shape.changes .out) d.shape := by simp [Copies]
  have part := arrives copies denotes
  have sentText : sent dateText (!d.shape.changes .out) d.shape L.tree = some j := by
    rw [← text, sent]
    cases content (!d.shape.changes .out) d.shape L.tree <;> rfl
  rw [Arrives, sentText, Option.getD_some] at part
  exact part

/-- A stay has a day to come and may have one to leave.  Both days arrive; without the second one
the array is too short. -/
theorem delivered_iff_stay :
    let stay := Descriptor.tuple [.temporal .date, .optional (.temporal .date)]
    let copied (i : Nat) : Statement :=
      .assign (.item Caller.preparedParams i) (.converted .dateToText (.item Caller.params i))
    let c : Caller := ⟨"Book", .word "Stay", .word "string",
      ⟨[.assign Caller.preparedParams .emptyArray, copied 0,
        .unlessUndefined (.item Caller.params 1) [copied 1]], true⟩, .empty⟩
    let day : Date := ⟨⟨2024, 2, 29⟩, rfl⟩
    let js : Engine := ⟨fun _ text => text⟩
    let dateText : TemporalKind → String → String := fun _ text => text
    let given (leaves : Atom) : Memory :=
      ⟨fun x => if x = .root "params" then .object 0 else .atom .undefined,
        fun _ => ⟨true, [("0", .atom (.moment .date day.toText)), ("1", .atom leaves)]⟩, 1⟩
    let reads (j : Json) (v : Value) : Prop := ∃ back, stay.decode j = .ok back ∧ back.same v = true
    (∃ r next, Yields (Resolver.code .out stay Caller.params Caller.preparedParams) r c.prepare
        next) ∧
      (∃ μ' prepared,
        Statement.runAll js c.prepareBody (given (.moment .date day.toText)) = .ok μ' ∧
        μ'.Shows "preparedParams" prepared ∧
        prepared.toJson? dateText = some (.array [.string day.toText, .string day.toText]) ∧
        reads (.array [.string day.toText, .string day.toText]) (.list [.date day, .date day])) ∧
      ∃ μ' prepared, Statement.runAll js c.prepareBody (given .undefined) = .ok μ' ∧
        μ'.Shows "preparedParams" prepared ∧
        prepared.toJson? dateText = some (.array [.string day.toText]) ∧
        ¬reads (.array [.string day.toText]) (.list [.date day, .null]) := by
  intro stay copied c day js dateText given reads
  have shape : stay.shape = .tuple [.temporal .date, .optional (.temporal .date)] := rfl
  have kept : stay.shape.keysKept .out false = true := by rw [shape]; rfl
  obtain ⟨next, accepted⟩ : ∃ next, Yields
      (Resolver.code .out stay Caller.params Caller.preparedParams) .empty c.prepare next :=
    ⟨_, rfl⟩
  have denotes {t : Tree} {v : Value} (h : (t = .atom .undefined ∧ v = .null) ∨
      (t = .atom (.moment .date day.toText) ∧ v = .date day)) :
      stay.shape.Denotes (AsSent dateText) (.array [.atom (.moment .date day.toText), t])
        (.list [.date day, v]) := by
    have regular : (Value.date day).Regular := by rintro i ⟨⟩
    rw [shape, Shape.Denotes]
    refine ⟨_, _, rfl, rfl, ?_⟩
    simp only [Shape.ItemsDenote, Shape.Denotes]
    refine ⟨_, _, _, _, rfl, rfl, ⟨.date day, regular, .date day⟩, _, _, _, _, rfl, rfl, ?_, rfl, rfl⟩
    refine h.imp id ?_
    rintro ⟨rfl, rfl⟩
    exact ⟨by rintro ⟨⟩, by rintro ⟨⟩, .date day, regular, .date day⟩
  have here (leaves : Atom) : (given leaves).Given "params"
      (.array [.atom (.moment .date day.toText), .atom leaves]) := by
    refine ⟨.node 0 true [("0", .atom (.moment .date day.toText)), ("1", .atom leaves)], rfl,
      .node rfl ?_, ?_, rfl⟩
    · exact List.forall_mem_cons.2 ⟨.atom _, List.forall_mem_singleton.2 (.atom _)⟩
    · intro a used
      cases used with
      | here => exact Nat.zero_lt_one
      | inside member inner =>
        rcases List.mem_cons.1 member with rfl | member
        · exact (Layout.not_uses_atom inner).elim
        · obtain rfl := List.mem_singleton.1 member
          exact (Layout.not_uses_atom inner).elim
  obtain ⟨μ₁, both, ran₁, shows₁, taken₁⟩ :=
    delivered_iff accepted kept (denotes (Or.inr ⟨rfl, rfl⟩)) js (here _) rfl
  obtain ⟨μ₂, one, ran₂, shows₂, taken₂⟩ :=
    delivered_iff accepted kept (denotes (Or.inl ⟨rfl, rfl⟩)) js (here _) rfl
  have shown {prepared : Tree} {μ' : Memory} (shows : μ'.Shows "preparedParams" prepared)
      (items : List (String × Layout)) (holds : μ'.vars (.root "preparedParams") = .object 1)
      (fits : (Layout.node 1 true items).Fits μ'.objects) :
      prepared = .node true (Layout.memberTrees items) := by
    obtain ⟨L, held, fits', rfl⟩ := shows
    exact fits'.tree_eq fits (held.symm.trans holds)
  have text₁ : both.toJson? dateText = some (.array [.string day.toText, .string day.toText]) := by
    cases ran₁
    rw [shown shows₁ [("0", .atom (.string day.toText)), ("1", .atom (.string day.toText))] rfl
      (.node rfl (List.forall_mem_cons.2 ⟨.atom _, List.forall_mem_singleton.2 (.atom _)⟩))]
    exact Tree.toJson?_sparse [some (.atom (.string day.toText)), some (.atom (.string day.toText))]
  have text₂ : one.toJson? dateText = some (.array [.string day.toText]) := by
    cases ran₂
    rw [shown shows₂ [("0", .atom (.string day.toText))] rfl
      (.node rfl (List.forall_mem_singleton.2 (.atom _)))]
    exact Tree.toJson?_sparse [some (.atom (.string day.toText))]
  refine ⟨⟨_, next, accepted⟩, ⟨μ₁, both, ran₁, shows₁, text₁, (taken₁ _ text₁).2 rfl⟩,
    μ₂, one, ran₂, shows₂, text₂, fun back => ?_⟩
  exact Bool.false_ne_true ((taken₂ _ text₂).1 back)

end Client

end RpcBridge
