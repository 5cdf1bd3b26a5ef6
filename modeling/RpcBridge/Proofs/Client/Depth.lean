import RpcBridge.Proofs.Client.Sent
import RpcBridge.Proofs.Json.Sameness
import RpcBridge.Proofs.Wire.Taken

/-!
# Proofs/Client/Depth — what is sent is as flat as can be

A client sends no more than it has to: nothing that the service takes for the same value is flatter
(`sent_depth`).  So what is sent for a transparent record that is applied to nothing is not taken
for it: the client sends what stands for its one field, and the service looks for the field inside
(`opened_lost`).

Depth is about values whose objects have distinct members, as what is sent has
(`settled_sent`).
-/

namespace RpcBridge

open Wire

/-! ## Depth of JSON values -/

namespace Json

/-- How many containers stand inside each other. -/
def depth (j : Json) : Nat := (Client.Tree.ofJson j).depth

/-- An array is no deeper than another when each of its items is no deeper than some item there. -/
theorem depth_array_le {js ks : List Json} (h : ∀ j ∈ js, ∃ k ∈ ks, j.depth ≤ k.depth) :
    (array js).depth ≤ (array ks).depth := by
  rw [depth, depth, Client.Tree.ofJson, Client.Tree.ofJson, Client.Tree.ofItems_eq,
    Client.Tree.ofItems_eq]
  refine Client.Tree.depth_array_le fun t ht => ?_
  obtain ⟨j, hj, rfl⟩ := List.mem_map.1 ht
  obtain ⟨k, hk, le⟩ := h j hj
  exact ⟨_, List.mem_map_of_mem hk, le⟩

/-- An object is no deeper than another when each of its members is flat or no deeper than some
member there. -/
theorem depth_object_le {ms ns : Members}
    (h : ∀ m ∈ ms, m.2.depth = 0 ∨ ∃ n ∈ ns, m.2.depth ≤ n.2.depth) :
    (object ms).depth ≤ (object ns).depth := by
  rw [depth, depth, Client.Tree.ofJson, Client.Tree.ofJson, Client.Tree.ofMembers_eq,
    Client.Tree.ofMembers_eq]
  refine Client.Tree.depth_node_le fun t ht => ?_
  obtain ⟨m, hm, rfl⟩ := List.mem_map.1 ht
  refine (h m hm).imp id fun there => ?_
  obtain ⟨n, hn, le⟩ := there
  exact ⟨_, List.mem_map_of_mem hn, le⟩

/-- A member is less deep than its object. -/
theorem depth_lt_object {ms : Members} {m : String × Json} (h : m ∈ ms) :
    m.2.depth < (object ms).depth := by
  have inside : (m.1, Client.Tree.ofJson m.2) ∈ ms.map fun m => (m.1, Client.Tree.ofJson m.2) :=
    List.mem_map.2 ⟨m, h, rfl⟩
  rw [depth, depth, Client.Tree.ofJson, Client.Tree.ofMembers_eq, Client.Tree.depth]
  exact Nat.lt_succ_of_le (Client.Tree.depth_le_of_mem inside)

theorem depth_array_le_iff {items : List Json} {n : Nat} :
    (array items).depth ≤ n + 1 ↔ ∀ j ∈ items, j.depth ≤ n := by
  rw [depth, Client.Tree.ofJson, Client.Tree.ofItems_eq, Client.Tree.array,
    Client.Tree.depth, Nat.add_le_add_iff_right, Client.Tree.depthOfMembers_le_iff]
  constructor
  · intro h j hj
    obtain ⟨m, hm, same⟩ := Client.Tree.exists_mem_indexed (List.mem_map_of_mem hj) 0
    have le := h m hm
    rwa [same] at le
  · intro h m hm
    obtain ⟨j, hj, same⟩ := List.mem_map.1 (Client.Tree.mem_indexed hm)
    rw [← same]
    exact h j hj

theorem depth_object_le_iff {members : Members} {n : Nat} :
    (object members).depth ≤ n + 1 ↔ ∀ m ∈ members, m.2.depth ≤ n := by
  rw [depth, Client.Tree.ofJson, Client.Tree.ofMembers_eq, Client.Tree.depth,
    Nat.add_le_add_iff_right, Client.Tree.depthOfMembers_le_iff, List.forall_mem_map]
  rfl

theorem depth_array_pos (items : List Json) : 0 < (array items).depth := by
  rw [depth, Client.Tree.ofJson, Client.Tree.array, Client.Tree.depth]
  exact Nat.succ_pos _

theorem depth_object_pos (members : Members) : 0 < (object members).depth := by
  rw [depth, Client.Tree.ofJson, Client.Tree.depth]
  exact Nat.succ_pos _

/-- What a settled value is the same as is no deeper. -/
theorem depth_le_of_same {j k : Json} (settled : j.Settled) (same : j.same k = true) :
    k.depth ≤ j.depth := by
  induction j generalizing k with
  | array items ih =>
    cases k <;> simp only [Json.same, Bool.false_eq_true] at same
    case array ks =>
      cases settled with
      | array inner =>
        refine depth_array_le fun k hk => ?_
        obtain ⟨j, hj, matched⟩ := exists_of_forall₂ (sameItems_iff.1 same) hk
        exact ⟨j, hj, ih j hj (inner j hj) matched⟩
  | object members ih =>
    cases k <;> simp only [Json.same, Bool.false_eq_true, Bool.and_eq_true, beq_iff_eq] at same
    case object ns =>
      cases settled with
      | object distinct inner =>
        refine depth_object_le fun n hn => Or.inr ?_
        obtain ⟨m, hm, -, matched⟩ := exists_of_sameMembers distinct same.1 same.2 hn
        exact ⟨m, hm, ih m hm (inner m hm) matched⟩
  | _ =>
    cases k <;> simp only [Json.same, Bool.false_eq_true] at same
    exact Nat.le_refl 0

end Json

namespace Client

variable {dateText : TemporalKind → String → String} {copied : Bool}

/-! ## What is copied -/

/-- What is copied with the container it stands in needs no conversion. -/
def Copies (copied : Bool) (s : Shape) : Prop := copied = true → s.changes .out = false

namespace Copies

/-- The elements of a list are copied with it where they need no conversion. -/
theorem element {element : Shape} (copies : Copies copied (.list element)) :
    Copies (copied || !element.changes .out) element := by
  intro either
  cases copied
  · simpa using either
  · exact copies rfl

/-- The items of a tuple are copied with it where none of them needs one. -/
theorem item {items : List Shape} (copies : Copies copied (.tuple items)) {s : Shape}
    (hs : s ∈ items) : Copies (copied || !Shape.anyItem .out items) s := by
  intro either
  refine anyItem_eq_false ?_ s hs
  cases copied
  · simpa using either
  · exact copies rfl

/-- The values of a mapping are copied with it where neither they nor its keys need one. -/
theorem value {key value : Shape} (copies : Copies copied (.mapping key value)) :
    Copies (copied || !(key.changes .out || value.changes .out)) value := by
  intro either
  have unchanged : (key.changes .out || value.changes .out) = false := by
    cases copied
    · simpa using either
    · exact copies rfl
  exact (Bool.or_eq_false_iff.1 unchanged).2

/-- An optional is copied with what it may hold. -/
theorem present {inner : Shape} (copies : Copies copied (.optional inner)) :
    Copies copied inner :=
  fun copied => (Bool.or_eq_false_iff.1 (copies copied)).2

/-- A record that is copied needs no conversion of its fields. -/
theorem field {name : String} {fields : List (String × Shape)}
    (copies : Copies copied (.record name fields)) {f : String × Shape} (hf : f ∈ fields) :
    Copies copied f.2 :=
  fun copied => anyField_eq_false (copies copied) f hf

/-- A wrapper is copied with what it wraps. -/
theorem wrapped {name field : String} {inner : Shape}
    (copies : Copies copied (.wrapper name field inner)) : Copies copied inner := copies

/-- An application of a wrapper to nothing is copied with what is wrapped. -/
theorem opened {origin : Descriptor} {name field : String} {inner : Shape}
    (copies : Copies copied (.opened origin name [(field, inner)])) : Copies copied inner :=
  fun copied => anyField_eq_false (copies copied) _ (List.mem_singleton.2 rfl)

/-- A date is never copied. -/
theorem eq_false {kind : TemporalKind} (copies : Copies copied (.temporal kind)) :
    copied = false := by
  cases copied
  · rfl
  · cases copies rfl

end Copies

/-! ## What is sent is settled -/

/-- A slot's text is that of one of the contents, `null` where there is none. -/
theorem mem_slotTexts {cs : List (Option Tree)} {j : Json} (h : j ∈ slotTexts dateText cs) :
    ∃ c ∈ cs, (c.bind (Tree.toJson? dateText)).getD .null = j := by
  obtain ⟨c, hc, same⟩ := List.mem_map.1 h
  exact ⟨c, (List.rdropWhile_prefix _ cs).subset hc, same⟩

/-- What is written for the items of a tuple. -/
theorem exists_of_mem_contents {untyped : Json → Tree → Prop} {items : List Shape}
    {ts : List Tree} {vs : List Value} (denote : Shape.ItemsDenote untyped items ts vs)
    {c : Option Tree} (hc : c ∈ List.zipWith (content copied) items ts) :
    ∃ s ∈ items, ∃ t v, s.Denotes untyped t v ∧ content copied s t = c := by
  induction items generalizing ts vs with
  | nil =>
    rw [List.zipWith_nil_left] at hc
    cases hc
  | cons s rest ih =>
    obtain ⟨t, ts, v, vs, rfl, rfl, denotes, denote⟩ := Shape.itemsDenote_cons.1 denote
    rw [List.zipWith_cons_cons] at hc
    rcases List.mem_cons.1 hc with rfl | hc
    · exact ⟨s, List.mem_cons_self .., t, v, denotes, rfl⟩
    · obtain ⟨s', hs', found⟩ := ih denote hc
      exact ⟨s', List.mem_cons_of_mem _ hs', found⟩

/-- A literal is no container, and its own text. -/
theorem text_of_literal (dateText : TemporalKind → String → String) (literal : EnumLiteral) :
    (Tree.ofJson literal.toJson).toJson? dateText = some literal.toJson ∧
      literal.toJson.Settled ∧ literal.toJson.depth = 0 := by
  have number (n : JsonNumber) : (Tree.ofJson (.number n)).toJson? dateText = some (.number n) ∧
      (Json.number n).Settled ∧ (Json.number n).depth = 0 := ⟨rfl, .number n, rfl⟩
  cases literal with
  | int n => exact number _
  | float x =>
    rw [EnumLiteral.toJson, Json.ofDouble]
    cases JsonNumber.ofDouble? x with
    | some n => exact number n
    | none => exact ⟨rfl, .null, rfl⟩
  | text s => exact ⟨rfl, .string s, rfl⟩

/-- The entries that are sent have the names of some that are there. -/
theorem nodup_sent {f : Tree → Option Json} {members : List (String × Tree)}
    (distinct : (members.map (·.1)).Nodup) :
    ((members.filterMap fun m => (f m.2).map (Prod.mk m.1)).map (·.1)).Nodup := by
  have kept := Tree.keys_objectMembers (members.map fun m => (m.1, f m.2))
  rw [Tree.objectMembers, List.filterMap_map, List.map_map] at kept
  exact kept.nodup distinct

/-- What is sent for the entries of a dictionary. -/
theorem exists_of_mem_sentEntries {s : Shape} {members : List (String × Tree)} {m : String × Json}
    (hm : m ∈ members.filterMap fun m => (sent dateText copied s m.2).map (Prod.mk m.1)) :
    ∃ m' ∈ members, (sent dateText copied s m'.2).getD .null = m.2 := by
  obtain ⟨m', hm', entered⟩ := List.mem_filterMap.1 hm
  obtain ⟨j, there, rfl⟩ := Option.map_eq_some_iff.1 entered
  exact ⟨m', hm', by rw [there, Option.getD_some]⟩

/-- What is sent for a record: an object with members of distinct names, each of which is what is
sent for a field. -/
theorem exists_sent_record {untyped : Json → Tree → Prop} {name : String}
    {fields : List (String × Shape)} {members : List (String × Tree)}
    {vs : List (String × Value)} (distinct : (fields.map (·.1)).Nodup)
    (nodup : (members.map (·.1)).Nodup) (declared : ∀ m ∈ members, m.1 ∈ fields.map (·.1))
    (denote : Shape.FieldsDenote untyped fields members vs) :
    ∃ ms : Members, sent dateText copied (.record name fields) (.node false members) =
        some (.object ms) ∧ (ms.map (·.1)).Nodup ∧
      ∀ m ∈ ms, ∃ f ∈ fields, ∃ t, f.2.Denotes untyped t (Value.fieldOf vs f.1) ∧
        (sent dateText copied f.2 t).getD .null = m.2 := by
  obtain ⟨ms, written, nodup', declared', found⟩ :=
    @sent_record dateText copied name _ _ distinct nodup declared
  refine ⟨ms, written, nodup', fun m hm => ?_⟩
  obtain ⟨f, hf, named⟩ := List.mem_map.1 (declared' m hm)
  have there := found f hf
  rw [named, lookup_eq_some_of_mem nodup' hm] at there
  exact ⟨f, hf, _, Shape.fieldsDenote_iff.1 denote f hf,
    by rw [named, ← there, Option.getD_some]⟩

/-- What is sent for the values of a shape has no two members of one name in an object. -/
def SendsSettled (dateText : TemporalKind → String → String) (s : Shape) : Prop :=
  ∀ copied t v, Copies copied s → s.Denotes (AsSent dateText) t v →
    ((sent dateText copied s t).getD .null).Settled

theorem sendsSettled_scalar (kind : ScalarKind) : SendsSettled dateText (.scalar kind) := by
  intro copied t v _ denotes
  obtain ⟨carries, image⟩ := Shape.denotes_scalar.1 denotes
  rw [sent_scalar]
  cases image with
  | any held =>
    cases carries with
    | any settled => exact held ▸ settled
  | anyList held =>
    cases carries with
    | anyList settled => exact held ▸ settled
  | string => exact .string _
  | bool => exact .bool _
  | int | float => exact .number _
  | undefined | null => exact .null

/-- A list of settled elements sends settled JSON. -/
theorem sendsSettled_list {element : Shape} (ih : SendsSettled dateText element) :
    SendsSettled dateText (.list element) := by
  intro copied t v copies denotes
  obtain ⟨ts, vs, rfl, -, denote⟩ := Shape.denotes_list.1 denotes
  rw [sent_list, Option.getD_some]
  refine .array fun j hj => ?_
  obtain ⟨c, hc, rfl⟩ := mem_slotTexts hj
  obtain ⟨t, ht, rfl⟩ := List.mem_map.1 hc
  obtain ⟨v, -, denotes⟩ := exists_of_forall₂ denote.flip ht
  exact ih _ t v copies.element denotes

/-- A tuple of settled items sends settled JSON. -/
theorem sendsSettled_tuple {items : List Shape} (ih : ∀ s ∈ items, SendsSettled dateText s) :
    SendsSettled dateText (.tuple items) := by
  intro copied t v copies denotes
  obtain ⟨ts, vs, rfl, -, denote⟩ := Shape.denotes_tuple.1 denotes
  rw [sent_tuple copied (Shape.length_of_itemsDenote denote), Option.getD_some]
  refine .array fun j hj => ?_
  obtain ⟨c, hc, rfl⟩ := mem_slotTexts hj
  obtain ⟨s, hs, t, v, denotes, rfl⟩ := exists_of_mem_contents denote hc
  exact ih s hs _ t v (copies.item hs) denotes

/-- A mapping to settled values sends settled JSON. -/
theorem sendsSettled_mapping {key value : Shape} (ih : SendsSettled dateText value) :
    SendsSettled dateText (.mapping key value) := by
  intro copied t v copies denotes
  obtain ⟨members, entries, rfl, -, distinct, denote⟩ := Shape.denotes_mapping.1 denotes
  rw [sent_mapping, Option.getD_some]
  refine .object (nodup_sent distinct) fun m hm => ?_
  obtain ⟨m', hm', same⟩ := exists_of_mem_sentEntries hm
  obtain ⟨e, -, -, denotes⟩ := exists_of_forall₂ denote.flip hm'
  exact same ▸ ih _ _ _ copies.value denotes

/-- A record of settled fields sends settled JSON. -/
theorem sendsSettled_record {name : String} {fields : List (String × Shape)}
    (ih : ∀ f ∈ fields, SendsSettled dateText f.2) :
    SendsSettled dateText (.record name fields) := by
  intro copied t v copies denotes
  obtain ⟨members, vs, rfl, -, distinct, nodup, declared, -, denote⟩ :=
    Shape.denotes_record.1 denotes
  obtain ⟨ms, written, nodup', each⟩ := exists_sent_record distinct nodup declared denote
  rw [written, Option.getD_some]
  refine .object nodup' fun m hm => ?_
  obtain ⟨f, hf, t, denotes, same⟩ := each m hm
  exact same ▸ ih f hf _ t _ (copies.field hf) denotes

/-- **No object that is sent has two members of one name.** -/
theorem settled_sent (s : Shape) : SendsSettled dateText s := by
  induction s with
  | scalar kind => exact sendsSettled_scalar kind
  | temporal kind =>
    intro copied t v copies denotes
    obtain ⟨-, -, image⟩ := Shape.denotes_temporal.1 denotes
    obtain rfl := copies.eq_false
    cases image <;> exact .string _
  | enum e =>
    intro copied t v _ denotes
    obtain ⟨-, m, -, -, rfl⟩ := Shape.denotes_enum.1 denotes
    have literal := text_of_literal dateText m.value
    rw [sent_enum, literal.1]
    exact literal.2.1
  | list element ih => exact sendsSettled_list ih
  | tuple items ih => exact sendsSettled_tuple ih
  | mapping key value _ ih => exact sendsSettled_mapping ih
  | optional inner ih =>
    intro copied t v copies denotes
    rw [Shape.denotes_optional] at denotes
    rw [sent_optional]
    rcases denotes with ⟨rfl, -⟩ | ⟨-, -, denotes⟩
    · exact .null
    · split
      · exact .null
      · exact ih copied t v copies.present denotes
  | record name fields ih => exact sendsSettled_record ih
  | wrapper _ _ inner ih =>
    intro copied t v copies denotes
    rw [Shape.denotes_wrapper] at denotes
    rw [sent_wrapper]
    exact ih copied t v copies.wrapped denotes
  | opened _ name fields ih =>
    intro copied t v copies denotes
    obtain ⟨field, inner, vs, rfl, -, -, denotes⟩ := Shape.denotes_opened.1 denotes
    rw [sent_opened]
    exact ih _ (List.mem_singleton.2 rfl) copied t _ copies.opened denotes
  | bareTemplate => exact fun _ _ _ _ denotes => (Shape.not_denotes_bareTemplate denotes).elim
  | blocked => exact fun _ _ _ _ denotes => (Shape.not_denotes_blocked denotes).elim

/-! ## What is sent is flat -/

/-- Nothing is sent for what is absent and may be, or null. -/
theorem sent_absent {untyped : Json → Tree → Prop} {s : Shape} (allowed : s.allowsAbsence = true)
    {t : Tree} (denotes : s.Denotes untyped t .null) :
    (sent dateText copied s t).getD .null = .null := by
  have absent := Shape.denotes_absent allowed denotes
  cases s <;> simp only [Shape.allowsAbsence] at allowed
  case optional inner =>
    rw [Shape.denotes_optional] at denotes
    obtain ⟨rfl, -⟩ := denotes.resolve_right fun h => h.1 rfl
    rw [sent_optional]
    rfl
  case scalar kind =>
    rw [sent_scalar]
    rcases absent with rfl | rfl <;> rfl
  all_goals cases allowed

/-- What is sent for the items of a tuple, and what is taken for their values. -/
theorem exists_of_itemsTaken {untyped : Json → Tree → Prop} {items : List Shape} {ts : List Tree}
    {vs : List Value} {js : List Json} (denote : Shape.ItemsDenote untyped items ts vs)
    (taken : ItemsTaken items js vs) {c : Option Tree}
    (hc : c ∈ List.zipWith (content copied) items ts) :
    ∃ s ∈ items, ∃ t v, ∃ j ∈ js, s.Denotes untyped t v ∧ TakenFor s j v ∧
      content copied s t = c := by
  induction items generalizing ts vs js with
  | nil =>
    rw [List.zipWith_nil_left] at hc
    cases hc
  | cons s rest ih =>
    rw [Shape.itemsDenote_cons] at denote
    rw [ItemsTaken] at taken
    obtain ⟨t, ts, v, vs, rfl, rfl, denotes, denote⟩ := denote
    obtain ⟨j, js, _, _, rfl, ⟨⟩, first, taken⟩ := taken
    rw [List.zipWith_cons_cons] at hc
    rcases List.mem_cons.1 hc with rfl | hc
    · exact ⟨s, List.mem_cons_self .., t, v, j, List.mem_cons_self .., denotes, first, rfl⟩
    · obtain ⟨s', hs', t', v', j', hj', found⟩ := ih denote taken hc
      exact ⟨s', List.mem_cons_of_mem _ hs', t', v', j', List.mem_cons_of_mem _ hj', found⟩

/-- An untyped value is taken for one that is the same. -/
theorem same_of_takenFor {s : Shape} {j k : Json} (taken : TakenFor s j (.raw k)) :
    j.same k = true := by
  obtain ⟨back, read, same⟩ := taken
  cases back <;> simp only [Value.same, Bool.false_eq_true] at same
  case raw j' =>
    obtain rfl := read_raw read
    exact same

/-- Nothing settled that the service takes for a value of a shape is flatter than what is sent for
it. -/
def SendsFlat (dateText : TemporalKind → String → String) (s : Shape) : Prop :=
  ∀ copied t v j, Copies copied s → s.Denotes (AsSent dateText) t v → j.Settled →
    TakenFor s j v → ((sent dateText copied s t).getD .null).depth ≤ j.depth

/-- A transparent record that is applied to nothing is taken for its value where its field stands
inside, and the client sends what stands for the field. -/
theorem opened_deeper {origin : Descriptor} {name field : String} {inner : Shape} {t : Tree}
    {v : Value} {j : Json} (flat : SendsFlat dateText inner)
    (copies : Copies copied (.opened origin name [(field, inner)]))
    (denotes : (Shape.opened origin name [(field, inner)]).Denotes (AsSent dateText) t v)
    (settled : j.Settled) (taken : TakenFor (.opened origin name [(field, inner)]) j v) :
    ((sent dateText copied inner t).getD .null).depth < j.depth := by
  obtain ⟨_, _, vs, ⟨⟩, rfl, known, denotes⟩ := Shape.denotes_opened.1 denotes
  obtain ⟨back, read, -⟩ := id taken
  obtain ⟨members, -, rfl, -, -⟩ := read_record (.opened origin name [(field, inner)]) read
  have one : ([(field, inner)].map (·.1)).Nodup := List.pairwise_singleton _ _
  have known : ∀ f ∈ vs, f.1 ∈ [(field, inner)].map (·.1) ∨ f.2 = .null :=
    fun f hf => (known f hf).imp List.mem_singleton.2 id
  have fields := (takenFor_record (.opened origin name [(field, inner)]) one known).1 taken
  cases settled with
  | object distinct settled =>
    rcases List.forall_mem_singleton.1 fields with ⟨j, there, first⟩ | ⟨-, allowed, null⟩
    · have inside := mem_of_lookup_eq_some there
      exact Nat.lt_of_le_of_lt (flat _ t _ j copies.opened denotes (settled _ inside) first)
        (Json.depth_lt_object inside)
    · rw [null] at denotes
      rw [sent_absent allowed denotes]
      exact Nat.succ_pos _

theorem sendsFlat_scalar (kind : ScalarKind) : SendsFlat dateText (.scalar kind) := by
  intro copied t v j _ denotes settled taken
  obtain ⟨-, image⟩ := Shape.denotes_scalar.1 denotes
  rw [sent_scalar]
  cases image with
  | any held | anyList held =>
    rw [held]
    exact Json.depth_le_of_same settled (same_of_takenFor taken)
  | _ => exact Nat.zero_le _

/-- A list is sent as flat as its elements are. -/
theorem sendsFlat_list {element : Shape} (ih : SendsFlat dateText element) :
    SendsFlat dateText (.list element) := by
  intro copied t v j copies denotes settled taken
  obtain ⟨ts, vs, rfl, rfl, denote⟩ := Shape.denotes_list.1 denotes
  obtain ⟨back, read, -⟩ := id taken
  obtain ⟨js, -, rfl, -, -⟩ := read_list read
  rw [takenFor_list] at taken
  cases settled with
  | array settled =>
    rw [sent_list, Option.getD_some]
    refine Json.depth_array_le fun j hj => ?_
    obtain ⟨c, hc, rfl⟩ := mem_slotTexts hj
    obtain ⟨t, ht, rfl⟩ := List.mem_map.1 hc
    obtain ⟨v, -, j', hj', denotes, first⟩ := exists_between denote.flip taken.flip ht
    exact ⟨j', hj', ih _ t v j' copies.element denotes (settled j' hj') first⟩

/-- A tuple is sent as flat as its items are. -/
theorem sendsFlat_tuple {items : List Shape} (ih : ∀ s ∈ items, SendsFlat dateText s) :
    SendsFlat dateText (.tuple items) := by
  intro copied t v j copies denotes settled taken
  obtain ⟨ts, vs, rfl, rfl, denote⟩ := Shape.denotes_tuple.1 denotes
  obtain ⟨back, read, -⟩ := id taken
  obtain ⟨js, -, rfl, -, -, -⟩ := read_tuple read
  rw [takenFor_tuple] at taken
  cases settled with
  | array settled =>
    rw [sent_tuple copied (Shape.length_of_itemsDenote denote), Option.getD_some]
    refine Json.depth_array_le fun j hj => ?_
    obtain ⟨c, hc, rfl⟩ := mem_slotTexts hj
    obtain ⟨s, hs, t, v, j', hj', denotes, first, rfl⟩ := exists_of_itemsTaken denote taken hc
    exact ⟨j', hj', ih s hs _ t v j' (copies.item hs) denotes (settled j' hj') first⟩

/-- A mapping is sent as flat as its values are. -/
theorem sendsFlat_mapping {key value : Shape} (ih : SendsFlat dateText value) :
    SendsFlat dateText (.mapping key value) := by
  intro copied t v j copies denotes settled taken
  obtain ⟨members, entries, rfl, rfl, distinct, denote⟩ := Shape.denotes_mapping.1 denotes
  obtain ⟨back, read, -⟩ := id taken
  obtain ⟨ms, -, rfl, -, -⟩ := read_mapping read
  rw [takenFor_mapping] at taken
  cases settled with
  | object _ settled =>
    rw [sent_mapping, Option.getD_some]
    refine Json.depth_object_le fun m hm => Or.inr ?_
    obtain ⟨m', hm', same⟩ := exists_of_mem_sentEntries hm
    obtain ⟨e, -, n, hn, denotes, entry⟩ := exists_between denote.flip taken.flip hm'
    exact ⟨n, hn, same ▸ ih _ _ _ _ copies.value denotes.2 (settled n hn) entry.2⟩

/-- An optional is sent as flat as what it may hold. -/
theorem sendsFlat_optional {inner : Shape} (ih : SendsFlat dateText inner) :
    SendsFlat dateText (.optional inner) := by
  intro copied t v j copies denotes settled taken
  rw [Shape.denotes_optional] at denotes
  rw [sent_optional]
  rcases denotes with ⟨rfl, -⟩ | ⟨notNull, notRaw, denotes⟩
  · exact Nat.zero_le _
  · have present : j ≠ .null := by
      rintro rfl
      exact (null_of_takenFor taken).elim notNull notRaw
    split
    · exact Nat.zero_le _
    · exact ih copied t v j copies.present denotes settled ((takenFor_optional present).1 taken)

/-- A record is sent as flat as its fields are. -/
theorem sendsFlat_record {name : String} {fields : List (String × Shape)}
    (ih : ∀ f ∈ fields, SendsFlat dateText f.2) : SendsFlat dateText (.record name fields) := by
  intro copied t v j copies denotes settled taken
  obtain ⟨members, vs, rfl, rfl, distinct, nodup, declared, known, denote⟩ :=
    Shape.denotes_record.1 denotes
  obtain ⟨back, read, -⟩ := id taken
  obtain ⟨members', -, rfl, -, -⟩ := read_record (.record name fields) read
  rw [takenFor_record (.record name fields) distinct known] at taken
  obtain ⟨ms, written, -, each⟩ := exists_sent_record distinct nodup declared denote
  cases settled with
  | object _ settled =>
    rw [written, Option.getD_some]
    refine Json.depth_object_le fun m hm => ?_
    obtain ⟨f, hf, t, denotes, same⟩ := each m hm
    rw [← same]
    rcases taken f hf with ⟨j, inside, first⟩ | ⟨-, allowed, null⟩
    · have member := mem_of_lookup_eq_some inside
      exact Or.inr ⟨_, member, ih f hf _ t _ j (copies.field hf) denotes (settled _ member) first⟩
    · -- a field that is left out is null or undefined, and null is sent for it at most
      rw [null] at denotes
      rw [sent_absent allowed denotes]
      exact Or.inl rfl

/-- **Nothing flatter is taken for a value than what is sent for it.** -/
theorem sent_depth (s : Shape) : SendsFlat dateText s := by
  induction s with
  | scalar kind => exact sendsFlat_scalar kind
  | temporal kind =>
    intro copied t v j copies denotes _ _
    obtain ⟨-, -, image⟩ := Shape.denotes_temporal.1 denotes
    obtain rfl := copies.eq_false
    cases image <;> exact Nat.zero_le _
  | enum e =>
    intro copied t v j _ denotes _ _
    obtain ⟨-, m, -, -, rfl⟩ := Shape.denotes_enum.1 denotes
    have literal := text_of_literal dateText m.value
    rw [sent_enum, literal.1, Option.getD_some, literal.2.2]
    exact Nat.zero_le _
  | list element ih => exact sendsFlat_list ih
  | tuple items ih => exact sendsFlat_tuple ih
  | mapping key value _ ih => exact sendsFlat_mapping ih
  | optional inner ih => exact sendsFlat_optional ih
  | record name fields ih => exact sendsFlat_record ih
  | wrapper _ _ inner ih =>
    intro copied t v j copies denotes settled taken
    rw [Shape.denotes_wrapper] at denotes
    rw [sent_wrapper]
    exact ih copied t v j copies.wrapped denotes settled (takenFor_wrapper.1 taken)
  | opened _ name fields ih =>
    intro copied t v j copies denotes settled taken
    obtain ⟨field, inner, vs, rfl, -⟩ := id (Shape.denotes_opened.1 denotes)
    rw [sent_opened]
    exact Nat.le_of_lt (opened_deeper (ih _ (List.mem_singleton.2 rfl)) copies denotes settled
      taken)
  | bareTemplate => exact fun _ _ _ _ _ denotes => (Shape.not_denotes_bareTemplate denotes).elim
  | blocked => exact fun _ _ _ _ _ denotes => (Shape.not_denotes_blocked denotes).elim

/-- **A transparent record that is applied to nothing is lost**: what is sent for it is not taken
for it. -/
theorem opened_lost {origin : Descriptor} {name field : String} {inner : Shape} {t : Tree}
    {v : Value} (copies : Copies copied (.opened origin name [(field, inner)]))
    (denotes : (Shape.opened origin name [(field, inner)]).Denotes (AsSent dateText) t v) :
    ¬TakenFor (.opened origin name [(field, inner)])
      ((sent dateText copied (.opened origin name [(field, inner)]) t).getD .null) v := by
  intro taken
  have settled := settled_sent _ _ _ _ copies denotes
  have deeper := opened_deeper (sent_depth inner) copies denotes settled taken
  rw [sent_opened] at deeper
  exact Nat.lt_irrefl _ deeper

end Client

end RpcBridge
