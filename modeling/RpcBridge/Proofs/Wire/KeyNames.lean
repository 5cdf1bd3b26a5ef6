import RpcBridge.Proofs.Wire.Keys
import RpcBridge.Proofs.Wire.Typed

/-!
# Proofs/Wire/KeyNames — keys that are read back from their names

The types of keys are scalars, dates and enums, also behind optional types and transparent records
(`Descriptor.HasKey`).  Whatever other members an object has, the name a key is written under is
read as the same key exactly if the key is recoverable (`Shape.Recoverable`), and then as the key
itself.

* `Wire.keyWritten` — a key travels as its type says;
* `Descriptor.recovered_iff` — the recoverable keys and no others are read back, and two of them
  never share a name.
-/

namespace RpcBridge

open Wire

/-! ## Types of keys -/

/-- The members of an enum have distinct names and distinct literals. -/
structure EnumDef.Distinct (e : EnumDef) : Prop where
  names : (e.members.map (·.name)).Nodup
  literals : (e.members.map (·.value)).Nodup

/-- The keys of the types of keys: scalars, dates and enums, also behind optional types and
transparent records.  An instant may be any, also one that is written with a signed year, or whose
nanoseconds go on beyond a second that is not the last of its minute. -/
inductive Descriptor.HasKey : Descriptor → Value → Prop where
  | scalar {kind : ScalarKind} {k : Value} (notList : kind ≠ .anyList) (notNone : kind ≠ .none)
      (h : kind.Holds k) : HasKey (.scalar kind) k
  | date (d : Date) : HasKey (.temporal .date) (.date d)
  | dateTime {i : Instant} (few : i.nanos < 2 * Calendar.second) :
    HasKey (.temporal .dateTime) (.dateTime i)
  | enum {e : EnumDef} {k : Value} (distinct : e.Distinct) (h : e.Holds k) : HasKey (.enum e) k
  | absent (inner : Descriptor) : HasKey (.optional inner) .null
  | present {inner : Descriptor} {k : Value} (h : HasKey inner k) : HasKey (.optional inner) k
  | unionAbsent {members : List Descriptor} {inner : Descriptor}
      (member : optionalMember members = .ok inner) : HasKey (.union members) .null
  | unionPresent {members : List Descriptor} {inner : Descriptor} {k : Value}
      (member : optionalMember members = .ok inner) (h : HasKey inner k) : HasKey (.union members) k
  | wrapper {name : String} {fields : List Field} {transparent : Bool} {field : Field} {k : Value}
      (wraps : wrappedField name fields transparent = .ok (some field)) (h : HasKey field.2 k) :
    HasKey (.record name fields transparent) k

namespace Wire

/-- The text of a member denotes no other one. -/
theorem memberFor?_text {e : EnumDef} {m : EnumMember} {t : String} (distinct : e.Distinct)
    (hm : m ∈ e.members) (text : m.value = .text t) : e.memberFor? (.string t) = some m := by
  obtain ⟨first, found⟩ := EnumDef.exists_memberFor? (j := .string t) hm (by
    simp [text, EnumLiteral.accepts])
  obtain ⟨inFirst, accepts⟩ := EnumDef.mem_of_memberFor? found
  have literal : first.value = .text t := by
    cases value : first.value <;> rw [value] at accepts <;> simp_all [EnumLiteral.accepts]
  obtain rfl := List.inj_on_of_nodup_map distinct.literals inFirst hm (literal.trans text.symm)
  exact found

/-- **A key travels as its type says**, unless it is absent. -/
theorem keyWritten {K : Descriptor} {k : Value} {j : Json} (key : K.HasKey k)
    (written : encode K.shape k = .ok j) (there : j ≠ .null) : KeyWritten K.shape k j := by
  have optional {s : Shape} {k : Value} (ih : encode s k = .ok j → KeyWritten s k j)
      (written : encode (.optional s) k = .ok j) : KeyWritten (.optional s) k j := by
    by_cases null : k = .null
    · subst null
      rw [encode] at written
      cases written
      exact absurd rfl there
    · rw [encode_optional null] at written
      exact .optional null (ih written)
  have absent {s : Shape} (written : encode (.optional s) .null = .ok j) : False := by
    rw [encode] at written
    cases written
    exact there rfl
  induction key with
  | scalar notList notNone h =>
    cases h with
    | string s => cases written; exact .string s
    | bool b => cases written; exact .bool b
    | int n => cases written; exact .int n
    | float x => cases written; exact .float x
    | any j => cases written; exact .any j
    | anyList => exact absurd rfl notList
    | none => exact absurd rfl notNone
  | date d =>
    cases written
    exact .date d
  | dateTime few =>
    cases written
    exact .dateTime few
  | enum distinct h =>
    obtain ⟨m, hm, rfl⟩ := h
    have member := KeyWritten.member (EnumDef.member?_name distinct.names hm)
      fun t text => ⟨m, memberFor?_text distinct hm text, rfl⟩
    obtain rfl := Except.ok.inj (member.encode.symm.trans written)
    exact member
  | absent => exact (absent written).elim
  | present _ ih => exact optional ih written
  | unionAbsent member =>
    rw [Descriptor.shape_union member] at written
    exact (absent written).elim
  | unionPresent member _ ih =>
    rw [Descriptor.shape_union member] at written ⊢
    exact optional ih written
  | wrapper wraps _ ih =>
    rw [Descriptor.shape_wrapper wraps] at written ⊢
    exact .wrapper (ih written)

end Wire

/-! ## Dictionaries -/

namespace Wire

variable {key value : Shape}

theorem decodeMembers_of_entries {members : Members} {entries : List (Value × Value)}
    (h : List.Forall₂ (EntryRead key value) members entries) :
    decodeMembers key (decode key) (decode value) members = .ok entries := by
  induction h with
  | nil => rw [decodeMembers]
  | @cons m e _ _ first _ ih =>
    obtain ⟨kj, named, keyed⟩ := bind_eq_ok.1 first.1
    simp only [decodeMembers, named, keyed, first.2, ih, ok_bind, pure_eq_ok, Wired.within_ok]

theorem decode_mapping_iff {members : Members} {entries : List (Value × Value)} :
    decode (.mapping key value) (.object members) = .ok (.map entries) ↔
      List.Forall₂ (EntryRead key value) members entries := by
  constructor
  · intro h
    obtain ⟨_, _, ⟨⟩, ⟨⟩, all⟩ := read_mapping h
    exact all
  · intro all
    rw [decode, decodeMembers_of_entries all, ok_bind, pure_eq_ok]

/-- The keys of a dictionary that has been written have names. -/
theorem exists_keyName {entries : List (Value × Value)} {done ms : Members}
    (h : encodeEntries (encode key) (encode value) done entries = .ok ms) :
    ∀ e ∈ entries, ∃ name, keyName key e.1 = .ok name := by
  induction entries generalizing done with
  | nil => exact nofun
  | cons e rest ih =>
    obtain ⟨k, v⟩ := e
    rw [encodeEntries] at h
    obtain ⟨⟨name, j⟩, entry, others⟩ := bind_eq_ok.1 h
    obtain ⟨jk, written, entry⟩ := bind_eq_ok.1 (Wired.within_eq_ok.1 entry)
    obtain ⟨name, named, -⟩ := bind_eq_ok.1 entry
    rw [List.forall_mem_cons]
    exact ⟨⟨name, by rw [keyName, written, ok_bind, named]⟩, ih others⟩

end Wire

namespace Descriptor

/-- A key that is recovered from its member name. -/
def Recoverable (d : Descriptor) (k : Value) : Prop := d.shape.Recoverable k

theorem exists_keyWritten {K : Descriptor} {k : Value} {name : String} (key : K.HasKey k)
    (written : keyName K.shape k = .ok name) :
    ∃ j, KeyWritten K.shape k j ∧ memberName j = .ok name := by
  obtain ⟨j, written, named⟩ := bind_eq_ok.1 written
  refine ⟨j, keyWritten key written ?_, named⟩
  rintro rfl
  cases named

theorem readKey_of_recoverable {K : Descriptor} {k : Value} {name : String} (key : K.HasKey k)
    (written : keyName K.shape k = .ok name) (recoverable : K.Recoverable k) :
    readKey K.shape name = .ok k := by
  obtain ⟨j, travels, named⟩ := exists_keyWritten key written
  exact Wire.readKey_of_recoverable travels named recoverable

/-- **The keys that are read back are the recoverable ones.**  A key of a dictionary that is
written under a name is read from that name, among whatever other members, as a key that is the same
exactly if it is recoverable, and then as the key itself.  Distinct recoverable keys are members of
their own. -/
theorem recovered_iff (K V : Descriptor) :
    (∀ k name, K.HasKey k → keyName K.shape k = .ok name → ∀ before j after es w fs,
      (mapping K V).decode (.object before) = .ok (.map es) → V.decode j = .ok w →
      (mapping K V).decode (.object after) = .ok (.map fs) →
      ((∃ back, (mapping K V).decode (.object (before ++ (name, j) :: after)) =
          .ok (.map (es ++ (back, w) :: fs)) ∧ back.same k = true) ↔ K.Recoverable k) ∧
      (K.Recoverable k → (mapping K V).decode (.object (before ++ (name, j) :: after)) =
        .ok (.map (es ++ (k, w) :: fs)))) ∧
    ∀ entries j, (∀ e ∈ entries, K.HasKey e.1 ∧ K.Recoverable e.1) → (entries.map (·.1)).Nodup →
      (mapping K V).encode (.map entries) = .ok j →
      ∃ members, j = .object members ∧
        List.Forall₂ (EntryWritten K.shape V.shape) entries members := by
  refine ⟨fun k name key written before j after es w fs front valued rear => ?_,
    fun entries j keys distinct written => ?_⟩
  · obtain ⟨travels, hj, named⟩ := exists_keyWritten key written
    have entry (recoverable : K.Recoverable k) :
        (mapping K V).decode (.object (before ++ (name, j) :: after)) =
          .ok (.map (es ++ (k, w) :: fs)) := by
      have read := readKey_of_recoverable key written recoverable
      exact decode_mapping_iff.2 (List.rel_append (decode_mapping_iff.1 front)
        (.cons ⟨read, valued⟩ (decode_mapping_iff.1 rear)))
    refine ⟨⟨fun ⟨back, read, same⟩ => ?_, fun recoverable => ⟨k, entry recoverable, ?_⟩⟩, entry⟩
    · have behind := List.forall₂_drop_append _ _ _ (decode_mapping_iff.1 read)
      rw [← (decode_mapping_iff.1 front).length_eq, List.drop_left] at behind
      cases behind with
      | cons first _ => exact recoverable_of_readKey hj named first.1 same
    · exact same_of_recoverable hj recoverable
  · have named : ∀ e ∈ entries, ∃ name, keyName K.shape e.1 = .ok name := by
      rw [encode, shape, shapeIn, Wire.encode] at written
      obtain ⟨ms, members, -⟩ := bind_eq_ok.1 written
      exact exists_keyName members
    -- a name stands for one key
    have apart : ((entries.map (·.1)).map (keyName K.shape)).Nodup := by
      refine distinct.map_on fun k hk k' hk' same => ?_
      obtain ⟨e, he, rfl⟩ := List.mem_map.1 hk
      obtain ⟨e', he', rfl⟩ := List.mem_map.1 hk'
      obtain ⟨name, named⟩ := named e he
      have read := readKey_of_recoverable (keys e he).1 named (keys e he).2
      have read' := readKey_of_recoverable (keys e' he').1 (same ▸ named) (keys e' he').2
      exact Except.ok.inj (read.symm.trans read')
    rw [List.map_map] at apart
    exact written_mapping apart written

/-- The keys of an optional enum: a literal that is a text is recovered, one that is a number stays
a text that denotes nothing. -/
theorem recovered_iff_mood :
    let mood := EnumDef.mk "Mood" [⟨"GOOD", .text "good"⟩, ⟨"NONE", .int 0⟩]
    let K := Descriptor.optional (.enum mood)
    let V := Descriptor.scalar .string
    let moods := mapping K V
    let good := Value.enum "Mood" "GOOD"
    let none := Value.enum "Mood" "NONE"
    K.HasKey good ∧ keyName K.shape good = .ok "good" ∧ K.Recoverable good ∧
      moods.decode (.object [("good", .string "1")]) = .ok (.map [(good, .string "1")]) ∧
      K.HasKey none ∧ keyName K.shape none = .ok "0" ∧ ¬K.Recoverable none ∧
      ¬∃ back, moods.decode (.object [("good", .string "1"), ("0", .string "2")]) =
        .ok (.map [(good, .string "1"), (back, .string "2")]) ∧ back.same none = true := by
  intro mood K V moods good none
  have distinct : mood.Distinct := ⟨by decide, by decide⟩
  have keyGood : K.HasKey good := .present (.enum distinct ⟨⟨"GOOD", .text "good"⟩, .head _, rfl⟩)
  have keyNone : K.HasKey none :=
    .present (.enum distinct ⟨⟨"NONE", .int 0⟩, .tail _ (.head _), rfl⟩)
  have nameGood : keyName K.shape good = .ok "good" := by
    unfold K mood good
    cbv
  have nameNone : keyName K.shape none = .ok "0" := by
    unfold K mood none
    cbv
  have recoverable : K.Recoverable good := by
    have noInstant (i : Instant) : ¬(Value.dateTime i).OccursIn good := by
      unfold good
      rintro ⟨⟩
    refine .text (t := "good") ?_ (fun i hi => absurd hi (noInstant i))
      fun i hi => absurd hi (noInstant i)
    unfold K mood good
    cbv
  have valued (t : String) : V.decode (.string t) = .ok (.string t) := by
    unfold V
    cbv
  have empty : moods.decode (.object []) = .ok (.map []) := by
    unfold moods K V mood
    cbv
  have front := ((recovered_iff K V).1 good "good" keyGood nameGood [] (.string "1") [] []
    (.string "1") [] empty (valued "1") empty).2 recoverable
  have lost : ¬∃ back, moods.decode (.object [("good", .string "1"), ("0", .string "2")]) =
      .ok (.map [(good, .string "1"), (back, .string "2")]) ∧ back.same none = true := by
    rintro ⟨back, read, -⟩
    have refused : ∃ e, moods.decode (.object [("good", .string "1"), ("0", .string "2")]) =
        .error e := ⟨_, by unfold moods K V mood; cbv⟩
    obtain ⟨e, refused⟩ := refused
    cases read.symm.trans refused
  refine ⟨keyGood, nameGood, recoverable, front, keyNone, nameNone, fun h => lost ?_, lost⟩
  exact ((recovered_iff K V).1 none "0" keyNone nameNone _ _ [] _ _ [] front (valued "2")
    empty).1.2 h

end Descriptor

end RpcBridge
