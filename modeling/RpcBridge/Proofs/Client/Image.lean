import RpcBridge.Proofs.Client.Layout
import RpcBridge.Proofs.Number.Numeral
import RpcBridge.Proofs.Wire.Written

/-!
# Proofs/Client/Image — values as a client holds them

The image of a value is what a client holds for it: dates and instants as date objects, an absent
optional as undefined, a wrapped value without its wrapper, everything else as it travels.  How an
untyped value is held is left open (`untyped`).

* `Shape.Images` — the images of a value of a shape;
* `image_depth` — an image is no deeper than what travels.
-/

namespace RpcBridge

/-- The images of scalars. -/
inductive ScalarKind.Images (untyped : Json → Client.Tree → Prop) :
    ScalarKind → Value → Client.Tree → Prop where
  | string (s : String) : Images untyped .string (.string s) (.atom (.string s))
  | bool (b : Bool) : Images untyped .bool (.bool b) (.atom (.bool b))
  | int (n : Int64) : Images untyped .int (.int n) (.atom (.number (.whole (.ofInt64 n))))
  | float (m : JsonNumber) : Images untyped .float (.float m.toDouble) (.atom (.number m))
  | any {j : Json} {t : Client.Tree} (held : untyped j t) : Images untyped .any (.raw j) t
  | anyList {items : List Json} {t : Client.Tree} (held : untyped (.array items) t) :
    Images untyped .anyList (.raw (.array items)) t
  | undefined : Images untyped .none .null (.atom .undefined)
  | null : Images untyped .none .null (.atom .null)

/-- The images of dates and instants. -/
inductive TemporalKind.Images : TemporalKind → Value → Client.Tree → Prop where
  | date (d : Date) : Images .date (.date d) (.atom (.moment .date d.toText))
  | dateTime (i : Instant) : Images .dateTime (.dateTime i) (.atom (.moment .dateTime i.wire))

/-- The image of an enum member is that of its literal. -/
def EnumDef.Images (e : EnumDef) (v : Value) (t : Client.Tree) : Prop :=
  ∃ m, v = .enum e.name m.name ∧ e.member? m.name = some m ∧ t = .ofJson m.value.toJson

namespace Shape

mutual

/-- The images of a value of a shape. -/
def Images (untyped : Json → Client.Tree → Prop) : Shape → Value → Client.Tree → Prop
  | .scalar kind, v, t => kind.Images untyped v t
  | .temporal kind, v, t => kind.Images v t
  | .enum e, v, t => e.Images v t
  | .list element, v, t =>
    ∃ vs ts, v = .list vs ∧ t = .array ts ∧ List.Forall₂ (element.Images untyped) vs ts
  | .tuple items, v, t => ∃ vs ts, v = .list vs ∧ t = .array ts ∧ ItemsImage untyped items vs ts
  | .mapping key value, v, t =>
    ∃ entries members, v = .map entries ∧ t = .node false members ∧
      (members.map (·.1)).Nodup ∧
      List.Forall₂ (fun e m => Wire.keyName key e.1 = .ok m.1 ∧ value.Images untyped e.2 m.2)
        entries members
  | .optional inner, v, t =>
    (v = .null ∧ t = .atom .undefined) ∨ (v ≠ .null ∧ inner.Images untyped v t)
  | .record name fields, v, t =>
    ∃ vs members, v = .record name vs ∧ t = .node false members ∧ (fields.map (·.1)).Nodup ∧
      (members.map (·.1)).Nodup ∧ (∀ m ∈ members, m.1 ∈ fields.map (·.1)) ∧
      FieldsImage untyped fields vs members
  | .wrapper _ _ inner, v, t => inner.Images untyped v t
  | .opened _ name [(field, inner)], v, t =>
    ∃ vs, v = .record name vs ∧ inner.Images untyped (Value.fieldOf vs field) t
  | .opened _ _ _, _, _ | .bareTemplate _ _ _, _, _ | .blocked _ _, _, _ => False

/-- The images of the items of a tuple. -/
def ItemsImage (untyped : Json → Client.Tree → Prop) :
    List Shape → List Value → List Client.Tree → Prop
  | [], vs, ts => vs = [] ∧ ts = []
  | s :: rest, vs, ts => ∃ v vs' t ts', vs = v :: vs' ∧ ts = t :: ts' ∧ s.Images untyped v t ∧
    ItemsImage untyped rest vs' ts'

/-- The images of the fields of a record; one that is missing is undefined. -/
def FieldsImage (untyped : Json → Client.Tree → Prop) :
    List (String × Shape) → List (String × Value) → List (String × Client.Tree) → Prop
  | [], _, _ => True
  | (name, s) :: rest, vs, members =>
    s.Images untyped (Value.fieldOf vs name) ((members.lookup name).getD (.atom .undefined)) ∧
      FieldsImage untyped rest vs members

end

variable {untyped : Json → Client.Tree → Prop}

/-! ## Fields and absent values -/

/-- A field without a member has undefined for its image. -/
theorem fieldsImage_iff {fields : List (String × Shape)} {vs : List (String × Value)}
    {members : List (String × Client.Tree)} : FieldsImage untyped fields vs members ↔
      ∀ f ∈ fields, f.2.Images untyped (Value.fieldOf vs f.1)
        ((members.lookup f.1).getD (.atom .undefined)) := by
  induction fields with
  | nil => simp [FieldsImage]
  | cons f rest ih => rw [FieldsImage, ih, List.forall_mem_cons]

/-- A declared field is absent and may be, or it conforms. -/
theorem FieldsConform.field {fields : List (String × Shape)} {vs : List (String × Value)}
    (h : FieldsConform fields vs) {f : String × Shape} (hf : f ∈ fields) :
    (Value.fieldOf vs f.1 = .null ∧ f.2.allowsAbsence = true) ∨
      f.2.Conforms (Value.fieldOf vs f.1) := by
  induction fields with
  | nil => cases hf
  | cons g rest ih =>
    rw [FieldsConform] at h
    rcases List.mem_cons.1 hf with rfl | hf
    · cases there : vs.lookup f.1 with
      | none =>
        simp only [there] at h
        exact Or.inl ⟨by rw [Value.fieldOf, there]; rfl, h.1⟩
      | some v =>
        simp only [there] at h
        rw [Value.fieldOf, there, Option.getD_some]
        exact Or.inr h.1
    · exact ih h.2 hf

/-- What is absent and may be is held as undefined, or as null. -/
theorem images_absent {s : Shape} (allowed : s.allowsAbsence = true) {t : Client.Tree} :
    s.Images untyped .null t →
      t = .atom .undefined ∨ t = .atom .null := by
  intro h
  cases s <;> simp only [allowsAbsence] at allowed
  case optional inner =>
    rw [Images] at h
    exact h.elim (fun h => Or.inl h.2) fun h => absurd rfl h.1
  case scalar kind =>
    cases kind <;> simp at allowed
    rw [Images] at h
    cases h
    · exact Or.inl rfl
    · exact Or.inr rfl
  all_goals cases allowed

/-- Undefined is an image of null wherever null may be left out. -/
theorem images_undefined {s : Shape} (allowed : s.allowsAbsence = true) :
    s.Images untyped .null (.atom .undefined) := by
  cases s <;> simp only [allowsAbsence] at allowed
  case optional inner =>
    rw [Images]
    exact Or.inl ⟨rfl, rfl⟩
  case scalar kind =>
    cases kind <;> simp at allowed
    rw [Images]
    exact .undefined
  all_goals cases allowed

end Shape

namespace Client

namespace Tree

/-! ## Arrays -/

theorem toString_injective {m n : Nat} (h : toString m = toString n) : m = n := by
  have digits (n : Nat) : (toString n).toList = Nat.toDigits 10 n := Nat.toList_repr
  have texts := congrArg String.toList h
  rw [digits, digits] at texts
  rw [← Numeral.ofDigits_toDigits m, ← Numeral.ofDigits_toDigits n, texts]

/-- The members of an array are its items. -/
theorem mem_indexed {start : Nat} {ts : List Tree} {m : String × Tree}
    (h : m ∈ indexed start ts) : m.2 ∈ ts := by
  induction ts generalizing start with
  | nil => cases h
  | cons t rest ih =>
    rcases List.mem_cons.1 h with rfl | h
    · exact List.mem_cons_self ..
    · exact List.mem_cons_of_mem _ (ih h)

/-- Every item of an array is a member of it. -/
theorem exists_mem_indexed {ts : List Tree} {t : Tree} (h : t ∈ ts) (start : Nat) :
    ∃ m ∈ indexed start ts, m.2 = t := by
  induction ts generalizing start with
  | nil => cases h
  | cons t' rest ih =>
    rcases List.mem_cons.1 h with rfl | h
    · exact ⟨_, List.mem_cons_self .., rfl⟩
    · obtain ⟨m, hm, same⟩ := ih h (start + 1)
      exact ⟨m, List.mem_cons_of_mem _ hm, same⟩

/-- The indices of an array, as far as they are those of its first items. -/
theorem le_of_mem_indexed {start : Nat} {ts : List Tree} {m : String × Tree}
    (h : m ∈ indexed start ts) : ∃ i, start ≤ i ∧ m.1 = toString i := by
  induction ts generalizing start with
  | nil => cases h
  | cons t rest ih =>
    rcases List.mem_cons.1 h with rfl | h
    · exact ⟨start, Nat.le_refl _, rfl⟩
    · obtain ⟨i, le, same⟩ := ih h
      exact ⟨i, Nat.le_of_succ_le le, same⟩

/-- The indices of an array are distinct. -/
theorem nodup_indexed (start : Nat) (ts : List Tree) :
    ((indexed start ts).map (·.1)).Nodup := by
  induction ts generalizing start with
  | nil => exact .nil
  | cons t rest ih =>
    rw [indexed, List.map_cons, List.nodup_cons]
    refine ⟨fun there => ?_, ih (start + 1)⟩
    obtain ⟨m, hm, same⟩ := List.mem_map.1 there
    obtain ⟨i, le, named⟩ := le_of_mem_indexed hm
    have := toString_injective (named.symm.trans same)
    omega

/-- Members that are named by consecutive indices are those of an array. -/
theorem eq_indexed {start : Nat} {ts : List Tree} {members : List (String × Tree)}
    (h : members.map (·.1) = (indexed start ts).map (·.1)) :
    members = indexed start (members.map (·.2)) := by
  induction ts generalizing start members with
  | nil =>
    rw [indexed, List.map_nil, List.map_eq_nil_iff] at h
    rw [h]
    rfl
  | cons t rest ih =>
    cases members with
    | nil => cases h
    | cons m members =>
      obtain ⟨key, t'⟩ := m
      rw [indexed, List.map_cons, List.map_cons, List.cons.injEq] at h
      obtain ⟨rfl, others⟩ := h
      rw [List.map_cons, indexed, ← ih others]

/-- What relates to the members of an array by their values relates to its items. -/
theorem forall₂_indexed {α : Type} {R : α → Tree → Prop} {as : List α} {ts : List Tree}
    {start : Nat} : List.Forall₂ (fun a m => R a m.2) as (indexed start ts) ↔
      List.Forall₂ R as ts := by
  induction as generalizing ts start with
  | nil =>
    cases ts with
    | nil => simp [indexed]
    | cons t rest => simp [indexed]
  | cons a rest ih =>
    cases ts with
    | nil => simp [indexed]
    | cons t ts => rw [indexed, List.forall₂_cons, List.forall₂_cons, ih]

theorem map_snd_indexed (start : Nat) (ts : List Tree) : (indexed start ts).map (·.2) = ts := by
  induction ts generalizing start with
  | nil => rfl
  | cons t rest ih => rw [indexed, List.map_cons, ih]

/-- An array is determined by its items. -/
theorem array_inj {ts ts' : List Tree} : array ts = array ts' ↔ ts = ts' := by
  refine ⟨fun h => ?_, fun h => by rw [h]⟩
  have members : indexed 0 ts = indexed 0 ts' := by
    injection h
  rw [← map_snd_indexed 0 ts, members, map_snd_indexed]

/-! ## Depth -/

mutual

/-- How many objects stand inside each other. -/
def depth : Tree → Nat
  | .atom _ => 0
  | .node _ members => depthOfMembers members + 1

/-- The depth of the deepest member. -/
def depthOfMembers : List (String × Tree) → Nat
  | [] => 0
  | (_, t) :: rest => max t.depth (depthOfMembers rest)

end

/-- A list of members is as deep as its deepest member. -/
theorem depthOfMembers_le_iff {members : List (String × Tree)} {n : Nat} :
    depthOfMembers members ≤ n ↔ ∀ m ∈ members, m.2.depth ≤ n := by
  induction members with
  | nil => simp [depthOfMembers]
  | cons m rest ih => rw [depthOfMembers, Nat.max_le, ih, List.forall_mem_cons]

theorem depth_le_of_mem {members : List (String × Tree)} {m : String × Tree} (h : m ∈ members) :
    m.2.depth ≤ depthOfMembers members :=
  depthOfMembers_le_iff.1 (Nat.le_refl _) m h

/-- A node is no deeper than another one that has a member at least as deep for each of its
members. -/
theorem depth_node_le {isArray isArray' : Bool} {members members' : List (String × Tree)}
    (h : ∀ m ∈ members, m.2.depth = 0 ∨ ∃ m' ∈ members', m.2.depth ≤ m'.2.depth) :
    (node isArray members).depth ≤ (node isArray' members').depth := by
  rw [depth, depth]
  refine Nat.succ_le_succ (depthOfMembers_le_iff.2 fun m hm => ?_)
  rcases h m hm with flat | ⟨m', hm', le⟩
  · exact flat ▸ Nat.zero_le _
  · exact Nat.le_trans le (depth_le_of_mem hm')

/-- An array is no deeper than another one that has an item as deep for each of its items. -/
theorem depth_array_le {ts ts' : List Tree}
    (h : ∀ t ∈ ts, ∃ t' ∈ ts', t.depth ≤ t'.depth) : (array ts).depth ≤ (array ts').depth := by
  refine depth_node_le fun m hm => Or.inr ?_
  obtain ⟨t', ht', le⟩ := h m.2 (mem_indexed hm)
  obtain ⟨m', hm', same⟩ := exists_mem_indexed ht' 0
  exact ⟨m', hm', same ▸ le⟩

end Tree

/-! ## Images and what travels -/

/-- How an untyped value is held when it has been read as JSON. -/
def AsRead (j : Json) (t : Tree) : Prop := t = .ofJson j

/-- What stands opposite to a part on both sides. -/
theorem exists_between {α β γ : Type} {R : α → β → Prop} {S : α → γ → Prop} {as : List α}
    {bs : List β} {cs : List γ} (left : List.Forall₂ R as bs) (right : List.Forall₂ S as cs)
    {b : β} (hb : b ∈ bs) : ∃ a ∈ as, ∃ c ∈ cs, R a b ∧ S a c := by
  induction left generalizing cs with
  | nil => cases hb
  | cons first _ ih =>
    cases right with
    | cons second others =>
      rcases List.mem_cons.1 hb with rfl | hb
      · exact ⟨_, List.mem_cons_self .., _, List.mem_cons_self .., first, second⟩
      · obtain ⟨a, ha, c, hc, both⟩ := ih others hb
        exact ⟨a, List.mem_cons_of_mem _ ha, c, List.mem_cons_of_mem _ hc, both⟩

end Client

namespace Shape

variable {untyped : Json → Client.Tree → Prop}

/-- The image of a list is the array of the images of its items. -/
theorem images_list {element : Shape} {vs : List Value} {ts : List Client.Tree} :
    (list element).Images untyped (.list vs) (.array ts) ↔
      List.Forall₂ (element.Images untyped) vs ts := by
  constructor
  · rintro ⟨_, ts', ⟨⟩, same, images⟩
    rwa [Client.Tree.array_inj.1 same]
  · intro images
    exact ⟨vs, ts, rfl, rfl, images⟩

/-- The image of a tuple is the array of the images of its items, each by its own type. -/
theorem images_tuple {items : List Shape} {vs : List Value} {ts : List Client.Tree} :
    (tuple items).Images untyped (.list vs) (.array ts) ↔ ItemsImage untyped items vs ts := by
  constructor
  · rintro ⟨_, ts', ⟨⟩, same, images⟩
    rwa [Client.Tree.array_inj.1 same]
  · intro images
    exact ⟨vs, ts, rfl, rfl, images⟩

/-- The image of a map has a member for each entry, under the name that the key travels as. -/
theorem images_mapping {key value : Shape} {entries : List (Value × Value)}
    {members : List (String × Client.Tree)} :
    (mapping key value).Images untyped (.map entries) (.node false members) ↔
      (members.map (·.1)).Nodup ∧
      entries.map (fun e => Wire.keyName key e.1) = (members.map (·.1)).map .ok ∧
        List.Forall₂ (fun e m => value.Images untyped e.2 m.2) entries members := by
  have both : List.Forall₂
      (fun e m => Wire.keyName key e.1 = .ok m.1 ∧ value.Images untyped e.2 m.2) entries members ↔
      entries.map (fun e => Wire.keyName key e.1) = (members.map (·.1)).map .ok ∧
        List.Forall₂ (fun e m => value.Images untyped e.2 m.2) entries members := by
    induction entries generalizing members with
    | nil => cases members <;> simp
    | cons e rest ih =>
      cases members with
      | nil => simp
      | cons m members =>
        rw [List.forall₂_cons, List.forall₂_cons, ih, List.map_cons, List.map_cons, List.map_cons,
          List.cons.injEq]
        exact and_and_and_comm
  rw [← both]
  constructor
  · rintro ⟨_, _, ⟨⟩, ⟨⟩, images⟩
    exact images
  · intro images
    exact ⟨entries, members, rfl, rfl, images⟩

/-- The image of a record has members for declared fields only. -/
theorem images_record {name : String} {fields : List (String × Shape)}
    {vs : List (String × Value)} {members : List (String × Client.Tree)} :
    (record name fields).Images untyped (.record name vs) (.node false members) ↔
      (fields.map (·.1)).Nodup ∧ (members.map (·.1)).Nodup ∧
        (∀ m ∈ members, m.1 ∈ fields.map (·.1)) ∧ FieldsImage untyped fields vs members := by
  constructor
  · rintro ⟨_, _, ⟨⟩, ⟨⟩, images⟩
    exact images
  · intro images
    exact ⟨vs, members, rfl, rfl, images⟩

end Shape

namespace Client

open Wire

/-- The images of conforming values are no deeper than what travels. -/
def KeepsDepth (s : Shape) : Prop :=
  ∀ {v j t}, s.Conforms v → encode s v = .ok j → s.Images AsRead v t →
    t.depth ≤ (Tree.ofJson j).depth

/-- An item of a tuple is no deeper than what it travels as. -/
theorem itemsImage_depth {items : List Shape} {start : Nat} {vs : List Value} {ts : List Tree}
    {js : List Json}
    (each : ∀ s ∈ items, KeepsDepth s) (conform : Shape.ItemsConform items vs)
    (written : encodeItems items start vs = .ok js) (image : Shape.ItemsImage AsRead items vs ts) :
    ∀ t ∈ ts, ∃ t' ∈ js.map Tree.ofJson, t.depth ≤ t'.depth := by
  induction items generalizing start vs ts js with
  | nil =>
    rw [Shape.ItemsImage] at image
    rw [image.2]
    exact nofun
  | cons s rest ih =>
    rw [List.forall_mem_cons] at each
    rw [Shape.ItemsImage] at image
    obtain ⟨v, vs, t, ts, rfl, rfl, first, others⟩ := image
    rw [Shape.ItemsConform] at conform
    obtain ⟨_, _, ⟨⟩, conforms, conform⟩ := conform
    obtain ⟨j, js, rfl, encoded, written⟩ := written_items written
    rw [List.forall_mem_cons, List.map_cons]
    refine ⟨⟨_, List.mem_cons_self .., each.1 conforms encoded first⟩, fun t ht => ?_⟩
    obtain ⟨t', ht', le⟩ := ih each.2 conform written others t ht
    exact ⟨t', List.mem_cons_of_mem _ ht', le⟩

/-- A field that is left out has a flat image, and the image of any other is no deeper than what it
travels as. -/
theorem field_depth {name : String} {s : Shape} {vs : List (String × Value)} {ms : Members}
    {t : Tree} (each : KeepsDepth s)
    (conform : (Value.fieldOf vs name = .null ∧ s.allowsAbsence = true) ∨
      s.Conforms (Value.fieldOf vs name))
    (written : FieldWritten vs ms (name, s)) (image : s.Images AsRead (Value.fieldOf vs name) t) :
    t.depth = 0 ∨ ∃ j, ms.lookup name = some j ∧ t.depth ≤ (Tree.ofJson j).depth := by
  rcases written with ⟨null, allowed, -⟩ | ⟨needed, j, encoded, there⟩
  · rw [null] at image
    rcases Shape.images_absent allowed image with rfl | rfl <;> exact Or.inl rfl
  · refine Or.inr ⟨j, there, ?_⟩
    rcases conform with ⟨null, allowed⟩ | conforms
    · rw [needed null] at allowed
      cases allowed
    · exact each conforms encoded image

/-- A transparent record that is applied to nothing travels as a record; its image is that of its
one field. -/
theorem opened_depth {origin : Descriptor} {name field : String} {inner : Shape} {v : Value}
    {j : Json} {t : Tree} (each : KeepsDepth inner)
    (conforms : (Shape.opened origin name [(field, inner)]).Conforms v)
    (written : encode (.opened origin name [(field, inner)]) v = .ok j)
    (image : (Shape.opened origin name [(field, inner)]).Images AsRead v t) :
    t.depth < (Tree.ofJson j).depth := by
  rw [Shape.Images] at image
  rw [Shape.Conforms] at conforms
  obtain ⟨vs, rfl, image⟩ := image
  obtain ⟨_, ⟨⟩, distinct, -, conform⟩ := conforms
  rw [encode] at written
  obtain ⟨ms, encoded, ⟨⟩⟩ := bind_eq_ok.1 written
  obtain ⟨-, -, fieldsWritten⟩ := written_record distinct encoded
  have one := List.mem_singleton.2 (rfl : (field, inner) = (field, inner))
  rw [Tree.ofJson, Tree.ofMembers_eq, Tree.depth, Nat.lt_succ_iff]
  rcases field_depth each (conform.field one) (fieldsWritten _ one) image with
    flat | ⟨j, there, le⟩
  · exact flat ▸ Nat.zero_le _
  · have inside : (field, Tree.ofJson j) ∈ ms.map fun m => (m.1, Tree.ofJson m.2) :=
      List.mem_map.2 ⟨_, mem_of_lookup_eq_some there, rfl⟩
    exact Nat.le_trans le (Tree.depth_le_of_mem inside)

/-- A scalar is flat, but for untyped values, which are their own images. -/
theorem keepsDepth_scalar (kind : ScalarKind) : KeepsDepth (.scalar kind) := by
  intro v j t _ written image
  rw [Shape.Images] at image
  cases image with
  | any held | anyList held =>
    cases held
    simp only [encode, encodeScalar] at written
    cases written
    exact Nat.le_refl _
  | _ => exact Nat.zero_le _

theorem keepsDepth_enum (e : EnumDef) : KeepsDepth (.enum e) := by
  intro v j t _ written image
  rw [Shape.Images] at image
  obtain ⟨m, rfl, member, rfl⟩ := image
  simp only [encode, encodeEnum, if_true, member] at written
  cases written
  exact Nat.le_refl _

/-- The items of an array keep their depth, so the array does. -/
theorem keepsDepth_list {element : Shape} (each : KeepsDepth element) :
    KeepsDepth (.list element) := by
  intro v j t conforms written image
  rw [Shape.Images] at image
  rw [Shape.Conforms] at conforms
  obtain ⟨vs, ts, rfl, rfl, images⟩ := image
  obtain ⟨_, ⟨⟩, conform⟩ := conforms
  obtain ⟨_, js, ⟨⟩, rfl, encoded⟩ := written_list written
  rw [Tree.ofJson, Tree.ofItems_eq]
  refine Tree.depth_array_le fun t ht => ?_
  obtain ⟨v, hv, j, hj, image, encoded⟩ := exists_between images encoded ht
  exact ⟨_, List.mem_map_of_mem hj, each (conform v hv) encoded image⟩

/-- The items of a tuple keep their depth, so the tuple does. -/
theorem keepsDepth_tuple {items : List Shape} (each : ∀ s ∈ items, KeepsDepth s) :
    KeepsDepth (.tuple items) := by
  intro v j t conforms written image
  rw [Shape.Images] at image
  rw [Shape.Conforms] at conforms
  obtain ⟨vs, ts, rfl, rfl, images⟩ := image
  obtain ⟨_, ⟨⟩, conform⟩ := conforms
  obtain ⟨_, js, ⟨⟩, rfl, -, encoded⟩ := written_tuple written
  rw [Tree.ofJson, Tree.ofItems_eq]
  exact Tree.depth_array_le (itemsImage_depth each conform encoded images)

/-- The keys of a dictionary are flat on either side. -/
theorem keepsDepth_mapping {key value : Shape} (each : KeepsDepth value) :
    KeepsDepth (.mapping key value) := by
  intro v j t conforms written image
  rw [Shape.Images] at image
  rw [Shape.Conforms] at conforms
  obtain ⟨entries, members, rfl, rfl, -, images⟩ := image
  obtain ⟨_, ⟨⟩, distinct, conform⟩ := conforms
  obtain ⟨ms, rfl, encoded⟩ := written_mapping distinct written
  rw [Tree.ofJson, Tree.ofMembers_eq]
  refine Tree.depth_node_le fun m hm => Or.inr ?_
  obtain ⟨e, he, m', hm', image, encoded⟩ := exists_between images encoded hm
  exact ⟨_, List.mem_map_of_mem hm', each (conform e he).2 encoded.2 image.2⟩

/-- Every member of the image of a record is the image of a field. -/
theorem keepsDepth_record {name : String} {fields : List (String × Shape)}
    (each : ∀ f ∈ fields, KeepsDepth f.2) : KeepsDepth (.record name fields) := by
  intro v j t conforms written image
  rw [Shape.Images] at image
  rw [Shape.Conforms] at conforms
  obtain ⟨vs, members, rfl, rfl, -, nodup, declared, images⟩ := image
  obtain ⟨_, ⟨⟩, distinct, -, conform⟩ := conforms
  rw [encode] at written
  obtain ⟨ms, encoded, ⟨⟩⟩ := bind_eq_ok.1 written
  obtain ⟨-, -, fieldsWritten⟩ := written_record distinct encoded
  rw [Shape.fieldsImage_iff] at images
  rw [Tree.ofJson, Tree.ofMembers_eq]
  refine Tree.depth_node_le fun m hm => ?_
  obtain ⟨f, hf, named⟩ := List.mem_map.1 (declared m hm)
  have image := images f hf
  rw [named, lookup_eq_some_of_mem nodup hm, Option.getD_some, ← named] at image
  refine (field_depth (each f hf) (conform.field hf) (fieldsWritten f hf) image).imp_right ?_
  rintro ⟨j, there, le⟩
  exact ⟨(f.1, .ofJson j), List.mem_map.2 ⟨_, mem_of_lookup_eq_some there, rfl⟩, le⟩

/-- **An image is no deeper than what travels.** -/
theorem image_depth (s : Shape) : KeepsDepth s := by
  induction s with
  | scalar kind => exact keepsDepth_scalar kind
  | temporal kind =>
    intro v j t _ _ image
    rw [Shape.Images] at image
    cases image <;> exact Nat.zero_le _
  | enum e => exact keepsDepth_enum e
  | list _ ih => exact keepsDepth_list ih
  | tuple _ ih => exact keepsDepth_tuple ih
  | mapping _ _ _ ihValue => exact keepsDepth_mapping ihValue
  | optional inner ih =>
    intro v j t conforms written image
    rw [Shape.Images] at image
    rw [Shape.Conforms] at conforms
    rcases image with ⟨-, rfl⟩ | ⟨present, image⟩
    · exact Nat.zero_le _
    · rw [encode_optional present] at written
      exact ih (conforms.resolve_left present).2 written image
  | record _ _ ih => exact keepsDepth_record ih
  | wrapper _ _ inner ih =>
    intro v j t conforms written image
    rw [Shape.Images] at image
    rw [Shape.Conforms] at conforms
    rw [encode] at written
    exact ih conforms written image
  | opened _ name fields ih =>
    intro v j t conforms written image
    rcases fields with _ | ⟨⟨field, inner⟩, _ | ⟨_, _⟩⟩
    · simp only [Shape.Images] at image
    · exact Nat.le_of_lt (opened_depth (ih _ (List.mem_singleton.2 rfl)) conforms written image)
    · simp only [Shape.Images] at image
  | bareTemplate =>
    intro v j t _ _ image
    rw [Shape.Images] at image
    exact image.elim
  | blocked =>
    intro v j t _ _ image
    rw [Shape.Images] at image
    exact image.elim

end Client

end RpcBridge
