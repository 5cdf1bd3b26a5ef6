import RpcBridge.Proofs.Client.Prepare

/-!
# Proofs/Client/Sent — what a client sends for its parameters

A part is copied where the container it stands in is, and prepared otherwise (`content`); what is
sent for it is the text of its content, if it has one (`sent`).  One statement for every kind of
container says how what is sent for the whole is put together from what is sent for the parts.

* `sent_list`, `sent_tuple` — arrays, without the slots at their end that are not written;
* `sent_mapping` — dictionaries, without the entries that have no text;
* `sent_record` — records, field by field.
-/

namespace RpcBridge.Client

variable {dateText : TemporalKind → String → String} {copied : Bool}

/-- What is written for a part of parameters: itself where it is copied with its container, and
otherwise what `prepare` says. -/
def content (copied : Bool) (s : Shape) (t : Tree) : Option Tree :=
  if copied then some t else prepare s t

/-- What is sent for a part of parameters. -/
def sent (dateText : TemporalKind → String → String) (copied : Bool) (s : Shape) (t : Tree) :
    Option Json := (content copied s t).bind (Tree.toJson? dateText)

/-! ## What is no container -/

theorem sent_scalar (copied : Bool) (kind : ScalarKind) (t : Tree) :
    sent dateText copied (.scalar kind) t = t.toJson? dateText := by
  cases copied
  · rw [sent, content, if_neg Bool.false_ne_true, prepare_scalar, Option.bind_some]
  · rw [sent, content, if_pos rfl, Option.bind_some]

theorem sent_enum (copied : Bool) (e : EnumDef) (t : Tree) :
    sent dateText copied (.enum e) t = t.toJson? dateText := by
  cases copied
  · rw [sent, content, if_neg Bool.false_ne_true, prepare_enum, Option.bind_some]
  · rw [sent, content, if_pos rfl, Option.bind_some]

/-- A date is sent as its text. -/
theorem sent_temporal (kind kind' : TemporalKind) (text : String) :
    sent dateText false (.temporal kind) (.atom (.moment kind' text)) = some (.string text) := by
  rw [sent, content, if_neg Bool.false_ne_true, prepare_moment, Option.bind_some, Tree.toJson?,
    Atom.toJson?]

theorem sent_wrapper (copied : Bool) (name field : String) (inner : Shape) (t : Tree) :
    sent dateText copied (.wrapper name field inner) t = sent dateText copied inner t := by
  cases copied
  · rw [sent, sent, content, content, if_neg Bool.false_ne_true, if_neg Bool.false_ne_true,
      prepare_wrapper]
  · rfl

theorem sent_opened (copied : Bool) (origin : Descriptor) (name field : String) (inner : Shape)
    (t : Tree) : sent dateText copied (.opened origin name [(field, inner)]) t =
      sent dateText copied inner t := by
  cases copied
  · rw [sent, sent, content, content, if_neg Bool.false_ne_true, if_neg Bool.false_ne_true,
      prepare_opened]
  · rfl

theorem sent_optional (copied : Bool) (inner : Shape) (t : Tree) :
    sent dateText copied (.optional inner) t =
      if t.isUndefined then none else sent dateText copied inner t := by
  cases copied
  · rw [sent, sent, content, content, if_neg Bool.false_ne_true, if_neg Bool.false_ne_true,
      prepare_optional]
    cases t.isUndefined <;> rfl
  · rw [sent, sent, content, content, if_pos rfl, Option.bind_some]
    cases undefined : t.isUndefined
    · rfl
    · rw [if_pos rfl, Tree.toJson?_eq_none.2 undefined]

/-- Nothing is sent for what is undefined. -/
theorem sent_undefined {untyped : Json → Tree → Prop} {s : Shape} {v : Value}
    (denotes : s.Denotes untyped (.atom .undefined) v) :
    sent dateText copied s (.atom .undefined) = none := by
  have noText : (Tree.atom .undefined).toJson? dateText = none := by
    rw [Tree.toJson?, Atom.toJson?]
  induction s generalizing v with
  | scalar => rw [sent_scalar, noText]
  | enum => rw [sent_enum, noText]
  | optional => rw [sent_optional, if_pos (Tree.isUndefined_iff.2 rfl)]
  | wrapper _ _ inner ih =>
    rw [Shape.denotes_wrapper] at denotes
    rw [sent_wrapper, ih denotes]
  | opened _ name fields ih =>
    obtain ⟨field, inner, vs, rfl, -, -, denotes⟩ := Shape.denotes_opened.1 denotes
    rw [sent_opened, ih _ (List.mem_singleton.2 rfl) denotes]
  | temporal =>
    rw [Shape.denotes_temporal] at denotes
    cases denotes.2.2
  | list =>
    obtain ⟨_, _, node, -⟩ := Shape.denotes_list.1 denotes
    cases node
  | tuple =>
    obtain ⟨_, _, node, -⟩ := Shape.denotes_tuple.1 denotes
    cases node
  | mapping =>
    obtain ⟨_, _, node, -⟩ := Shape.denotes_mapping.1 denotes
    cases node
  | record =>
    obtain ⟨_, _, node, -⟩ := Shape.denotes_record.1 denotes
    cases node
  | bareTemplate => exact (Shape.not_denotes_bareTemplate denotes).elim
  | blocked => exact (Shape.not_denotes_blocked denotes).elim

/-! ## Arrays -/

/-- The texts of what is written into the slots of an array; the slots at the end into which
nothing is written are lost. -/
def slotTexts (dateText : TemporalKind → String → String) (contents : List (Option Tree)) :
    List Json :=
  (contents.rdropWhile Option.isNone).map fun c => (c.bind (Tree.toJson? dateText)).getD .null

theorem gather_indexed (f : Tree → Option Tree) (start : Nat) (ts : List Tree) :
    gather f (Tree.indexed start ts) = Tree.sparse start (ts.map f) := by
  induction ts generalizing start with
  | nil => rfl
  | cons t rest ih =>
    have others := ih (start + 1)
    unfold gather at others ⊢
    rw [Tree.indexed, List.flatMap_cons, others, List.map_cons, Tree.sparse]

theorem sent_list (copied : Bool) (element : Shape) (ts : List Tree) :
    sent dateText copied (.list element) (.array ts) = some (.array (slotTexts dateText
      (ts.map (content (copied || !element.changes .out) element)))) := by
  have written : content copied (.list element) (.array ts) =
      some (.node true (Tree.sparse 0
        (ts.map (content (copied || !element.changes .out) element)))) := by
    unfold content
    cases copied
    · rw [Bool.false_or, if_neg Bool.false_ne_true, prepare_list]
      cases element.changes .out
      · simp only [Bool.not_false, if_true, Bool.false_eq_true, if_false, Tree.array,
          Tree.indexed_eq_sparse]
      · simp only [Bool.not_true, Bool.false_eq_true, if_true, if_false, Tree.array, Tree.members,
          gather_indexed]
    · simp only [Bool.true_or, if_true, Tree.array, Tree.indexed_eq_sparse]
  rw [sent, written, Option.bind_some, Tree.toJson?_sparse, slotTexts]

theorem prepareItems_indexed (before : List Tree) {items : List Shape} {ts : List Tree}
    (length : ts.length = items.length) :
    prepareItems before.length items (Tree.indexed 0 (before ++ ts)) =
      Tree.sparse before.length (List.zipWith prepare items ts) := by
  induction items generalizing before ts with
  | nil =>
    rw [prepareItems_nil, List.zipWith_nil_left]
    rfl
  | cons s rest ih =>
    cases ts with
    | nil => cases length
    | cons t ts =>
      have others := ih (before ++ [t]) (Nat.succ.inj length)
      rw [List.append_assoc, List.singleton_append, List.length_append, List.length_singleton]
        at others
      have found : (Tree.indexed 0 (before ++ t :: ts)).lookup (toString before.length) =
          some t := by
        rw [← Nat.zero_add before.length, lookup_indexed_append]
      rw [prepareItems_cons, found, Option.getD_some, others, List.zipWith_cons_cons, Tree.sparse]

theorem sent_tuple (copied : Bool) {items : List Shape} {ts : List Tree}
    (length : ts.length = items.length) :
    sent dateText copied (.tuple items) (.array ts) = some (.array (slotTexts dateText
      (List.zipWith (content (copied || !Shape.anyItem .out items)) items ts))) := by
  have copies : List.zipWith (content true) items ts = ts.map some := by
    induction ts generalizing items with
    | nil => exact List.zipWith_nil_right
    | cons t rest ih =>
      cases items with
      | nil => cases length
      | cons s items =>
        rw [List.zipWith_cons_cons, List.map_cons, ih (Nat.succ.inj length)]
        rfl
  have prepares : content false = prepare := by
    funext s t
    exact if_neg Bool.false_ne_true
  have written : content copied (.tuple items) (.array ts) =
      some (.node true (Tree.sparse 0
        (List.zipWith (content (copied || !Shape.anyItem .out items)) items ts))) := by
    cases copied
    · rw [Bool.false_or, prepares, prepare_tuple]
      cases Shape.anyItem .out items
      · rw [if_neg Bool.false_ne_true, Bool.not_false, copies, Tree.array, Tree.indexed_eq_sparse]
      · rw [if_pos rfl, Bool.not_true, prepares, Tree.array, Tree.members]
        exact congrArg (fun slots => some (Tree.node true slots)) (prepareItems_indexed [] length)
    · rw [Bool.true_or, copies, content, if_pos rfl, Tree.array, Tree.indexed_eq_sparse]
  rw [sent, written, Option.bind_some, Tree.toJson?_sparse, slotTexts]

/-! ## Dictionaries and records -/

theorem gather_some (members : List (String × Tree)) : gather some members = members := by
  induction members with
  | nil => rfl
  | cons m rest ih =>
    unfold gather at ih ⊢
    rw [List.flatMap_cons, ih]
    rfl

/-- What is sent for the members that are written for members. -/
theorem objectMembers_gather (f : Tree → Option Tree) (members : List (String × Tree)) :
    Tree.objectMembers (Tree.memberJsons dateText (gather f members)) =
      members.filterMap fun m => ((f m.2).bind (Tree.toJson? dateText)).map (Prod.mk m.1) := by
  induction members with
  | nil => rfl
  | cons m rest ih =>
    unfold gather Tree.objectMembers at ih ⊢
    rw [List.flatMap_cons, Tree.memberJsons_eq, List.map_append, List.filterMap_append,
      ← Tree.memberJsons_eq, ← Tree.memberJsons_eq, ih, List.filterMap_cons]
    cases f m.2 with
    | none => rfl
    | some t => cases h : t.toJson? dateText <;> simp [Tree.memberJsons, h]

theorem sent_mapping (copied : Bool) (key value : Shape) (members : List (String × Tree)) :
    sent dateText copied (.mapping key value) (.node false members) =
      some (.object (members.filterMap fun m =>
        (sent dateText (copied || !(key.changes .out || value.changes .out)) value m.2).map
          (Prod.mk m.1))) := by
  have written : content copied (.mapping key value) (.node false members) =
      some (.node false (gather
        (content (copied || !(key.changes .out || value.changes .out)) value) members)) := by
    have copies : content true value = some := by
      funext t
      exact if_pos rfl
    have prepares : content false = prepare := by
      funext s t
      exact if_neg Bool.false_ne_true
    cases copied
    · rw [Bool.false_or, prepares, prepare_mapping]
      cases key.changes .out || value.changes .out
      · rw [if_neg Bool.false_ne_true, Bool.not_false, copies, gather_some]
      · rw [if_pos rfl, Bool.not_true, prepares, Tree.members]
    · rw [Bool.true_or, copies, gather_some, content, if_pos rfl]
  rw [sent, written, Option.bind_some, Tree.toJson?, objectMembers_gather]
  rfl

theorem keys_prepareFields {fields : List (String × Shape)} {members : List (String × Tree)} :
    ((prepareFields fields members).map (·.1)).Sublist (fields.map (·.1)) := by
  induction fields with
  | nil => exact .slnil
  | cons f rest ih =>
    obtain ⟨name, s⟩ := f
    rw [prepareFields_cons, List.map_append, List.map_cons]
    cases prepare s ((members.lookup name).getD (.atom .undefined)) with
    | none => exact ih.cons name
    | some t => exact ih.cons_cons name

theorem lookup_prepareFields {fields : List (String × Shape)} {members : List (String × Tree)}
    (distinct : (fields.map (·.1)).Nodup) {f : String × Shape} (hf : f ∈ fields) :
    (prepareFields fields members).lookup f.1 =
      prepare f.2 ((members.lookup f.1).getD (.atom .undefined)) := by
  induction fields with
  | nil => cases hf
  | cons g rest ih =>
    obtain ⟨name, s⟩ := g
    rw [List.map_cons, List.nodup_cons] at distinct
    rw [prepareFields_cons]
    rcases List.mem_cons.1 hf with rfl | inRest
    · have missing : (prepareFields rest members).lookup name = none :=
        lookup_eq_none fun there => distinct.1 (keys_prepareFields.subset there)
      cases prepare s ((members.lookup name).getD (.atom .undefined)) with
      | none => exact missing
      | some t => exact List.lookup_cons_self ..
    · have other : f.1 ≠ name := by
        rintro rfl
        exact distinct.1 (List.mem_map.2 ⟨f, inRest, rfl⟩)
      rw [← ih distinct.2 inRest]
      cases prepare s ((members.lookup name).getD (.atom .undefined)) with
      | none => rfl
      | some t =>
        rw [Option.map_some, Option.toList_some, List.singleton_append, lookup_cons_eq,
          if_neg other]

theorem sent_record (copied : Bool) (name : String) {fields : List (String × Shape)}
    {members : List (String × Tree)} (distinct : (fields.map (·.1)).Nodup)
    (nodup : (members.map (·.1)).Nodup) (declared : ∀ m ∈ members, m.1 ∈ fields.map (·.1)) :
    ∃ ms : Members, sent dateText copied (.record name fields) (.node false members) =
        some (.object ms) ∧ (ms.map (·.1)).Nodup ∧ (∀ m ∈ ms, m.1 ∈ fields.map (·.1)) ∧
      ∀ f ∈ fields, ms.lookup f.1 =
        sent dateText copied f.2 ((members.lookup f.1).getD (.atom .undefined)) := by
  obtain ⟨written, hwritten, nodup, declared, each⟩ : ∃ written : List (String × Tree),
      content copied (.record name fields) (.node false members) = some (.node false written) ∧
      (written.map (·.1)).Nodup ∧ (∀ m ∈ written, m.1 ∈ fields.map (·.1)) ∧
      ∀ f ∈ fields, (written.lookup f.1).bind (Tree.toJson? dateText) =
        sent dateText copied f.2 ((members.lookup f.1).getD (.atom .undefined)) := by
    cases copied
    · refine ⟨prepareFields fields members, ?_, keys_prepareFields.nodup distinct, ?_, ?_⟩
      · rw [content, if_neg Bool.false_ne_true, prepare_record, Tree.members]
      · exact fun m hm => keys_prepareFields.subset (List.mem_map.2 ⟨m, hm, rfl⟩)
      · intro f hf
        rw [lookup_prepareFields distinct hf]
        rfl
    · refine ⟨members, if_pos rfl, nodup, declared, fun f _ => ?_⟩
      rw [sent, content, if_pos rfl, Option.bind_some]
      cases members.lookup f.1 <;> rfl
  have keys : ((Tree.memberJsons dateText written).map (·.1)) = written.map (·.1) := by
    rw [Tree.memberJsons_eq, List.map_map]
    rfl
  have kept : ((Tree.objectMembers (Tree.memberJsons dateText written)).map (·.1)).Sublist
      (written.map (·.1)) := by
    rw [← keys]
    exact Tree.keys_objectMembers _
  refine ⟨_, by rw [sent, hwritten, Option.bind_some, Tree.toJson?], kept.nodup nodup,
    fun m hm => ?_, fun f hf => ?_⟩
  · obtain ⟨m', hm', same⟩ := List.mem_map.1 (kept.subset (List.mem_map.2 ⟨m, hm, rfl⟩))
    exact same ▸ declared m' hm'
  · rw [Tree.lookup_objectMembers (keys ▸ nodup), Tree.memberJsons_eq, lookup_map, ← each f hf]
    cases written.lookup f.1 <;> rfl

end RpcBridge.Client
