import Mathlib
import RpcBridge.Proofs.Calendar.Reading
import RpcBridge.Proofs.Wire.KeyNames

/-!
# Proofs/Wire/Spellings — member names that are one key

The member names of an object differ as texts, the keys of a dictionary need not: a number may have
a sign or leading zeros, a date may lack its padding, an instant may have any offset.  A dictionary
is read member by member, so each member becomes an entry of its own, and entries have the same key
exactly where their names are spellings of one key (`Shape.OneKey`).

What is unequal is written under different names, as long as an enum does not write two of its
members alike; so a dictionary without a key that comes twice keeps all its entries when it is
written again (`Descriptor.oneKey_iff`).
-/

namespace RpcBridge

open Wire

/-! ## Spellings -/

/-- The member of an enum that a member name denotes: a text, or else the text of a number. -/
def EnumDef.keyMember? (e : EnumDef) (name : String) : Option EnumMember :=
  match e.memberFor? (.string name) with
  | some m => some m
  | none =>
    match Json.parse name with
    | .ok (.number n) => e.memberFor? (.number n)
    | _ => none

namespace Shape

/-- Two texts that hold one value of a shape. -/
def SameText : Shape → String → String → Prop
  | .temporal kind, a, b => readTemporal? kind a = readTemporal? kind b
  | .enum e, a, b =>
    (e.memberFor? (.string a)).map (·.name) = (e.memberFor? (.string b)).map (·.name)
  | .optional inner, a, b => inner.SameText a b
  | .wrapper _ _ inner, a, b => inner.SameText a b
  | _, a, b => a = b

/-- Two member names that are spellings of one key.  Behind an optional type or a transparent record
a name stays a text. -/
def OneKey : Shape → String → String → Prop
  | .scalar .int, a, b => readInt64? a = readInt64? b
  | .scalar .float, a, b =>
    ∃ x y, Double.ofNumeral? a = some x ∧ Double.ofNumeral? b = some y ∧ x.same y = true
  | .enum e, a, b => (e.keyMember? a).map (·.name) = (e.keyMember? b).map (·.name)
  | s, a, b => s.SameText a b

end Shape

/-- No two members of different names are written as one member name. -/
def EnumDef.WritesApart (e : EnumDef) : Prop :=
  ∀ a b m n name, e.member? a = some m → e.member? b = some n →
    memberName m.value.toJson = .ok name → memberName n.value.toJson = .ok name → a = b

/-- The enum that a key belongs to, if any, writes its members apart. -/
def Shape.WritesKeysApart : Shape → Prop
  | .enum e => e.WritesApart
  | .optional inner => inner.WritesKeysApart
  | .wrapper _ _ inner => inner.WritesKeysApart
  | _ => True

namespace Wire

section Texts

variable {s : Shape} {a b : String} {k k' : Value}

/-- A text is never read as null. -/
theorem ne_null_of_decode_text (read : decode s (.string a) = .ok k) : k ≠ .null := by
  induction s with
  | scalar kind => cases kind <;> cases read <;> rintro ⟨⟩
  | temporal kind =>
    rw [decode, decodeTemporal] at read
    split at read
    · next v text =>
      cases read
      cases kind <;> obtain ⟨_, -, rfl⟩ := Option.map_eq_some_iff.1 text <;> rintro ⟨⟩
    · cases read
  | enum e =>
    rw [decode, decodeEnum] at read
    split at read <;> cases read
    rintro ⟨⟩
  | optional inner ih =>
    rw [decode_optional_text] at read
    exact ih read
  | wrapper name field inner ih =>
    rw [decode] at read
    exact ih read
  | _ => cases read

/-- **Two texts are read as the same value** if they hold one value. -/
theorem same_iff_sameText (read : decode s (.string a) = .ok k)
    (read' : decode s (.string b) = .ok k') : k.same k' = true ↔ s.SameText a b := by
  induction s with
  | scalar kind =>
    cases kind <;> cases read <;> cases read' <;>
      simp [Value.same, Json.same, Shape.SameText]
  | temporal kind =>
    rw [decode, decodeTemporal] at read read'
    split at read
    · next v text =>
      split at read'
      · next w text' =>
        cases read
        cases read'
        rw [Shape.SameText, text, text']
        cases kind <;> obtain ⟨_, -, rfl⟩ := Option.map_eq_some_iff.1 text <;>
          obtain ⟨_, -, rfl⟩ := Option.map_eq_some_iff.1 text' <;> simp [Value.same]
      · cases read'
    · cases read
  | enum e =>
    rw [decode, decodeEnum] at read read'
    split at read
    · next m found =>
      split at read'
      · next n found' =>
        cases read
        cases read'
        simp [Shape.SameText, found, found', Value.same]
      · cases read'
    · cases read
  | optional inner ih =>
    rw [decode_optional_text] at read read'
    exact ih read read'
  | wrapper name field inner ih =>
    rw [decode] at read read'
    exact ih read read'
  | _ => cases read

end Texts

/-! ## What a member name is read as -/

section Names

variable {s : Shape} {e : EnumDef} {a b : String} {k k' : Value}

theorem read_int (read : readKey (.scalar .int) a = .ok k) :
    ∃ n, readInt64? a = some n ∧ k = .int n := by
  obtain ⟨j, named, read⟩ := bind_eq_ok.1 read
  simp only [keyJson] at named
  cases number : readInt64? a with
  | none =>
    rw [number] at named
    cases named
  | some n =>
    rw [number] at named
    cases named
    simp only [decode, Json.ofInt64, decodeScalar, JsonNumber.toInt64?,
      Whole.toInt64?_ofInt64] at read
    cases read
    exact ⟨n, rfl, rfl⟩

theorem read_float (read : readKey (.scalar .float) a = .ok k) :
    ∃ x, Double.ofNumeral? a = some (.finite x) ∧ k = .float (.finite x) := by
  obtain ⟨j, named, read⟩ := bind_eq_ok.1 read
  simp only [keyJson] at named
  cases number : Double.ofNumeral? a with
  | none =>
    rw [number] at named
    cases named
  | some x =>
    rw [number] at named
    cases x with
    | finite x =>
      cases named
      cases read
      exact ⟨x, rfl, rfl⟩
    | _ => cases named

theorem read_bool (read : readKey (.scalar .bool) a = .ok k) :
    a = "true" ∧ k = .bool true ∨ a = "false" ∧ k = .bool false := by
  obtain ⟨j, named, read⟩ := bind_eq_ok.1 read
  simp only [keyJson] at named
  split_ifs at named with yes no
  · cases named
    cases read
    exact Or.inl ⟨yes, rfl⟩
  · cases named
    cases read
    exact Or.inr ⟨no, rfl⟩
  · cases named

theorem read_enum (read : readKey (.enum e) a = .ok k) :
    ∃ m, e.keyMember? a = some m ∧ k = .enum e.name m.name := by
  cases claimed : e.memberFor? (.string a) with
  | some m =>
    rw [readKey_of_taken claimed] at read
    cases read
    exact ⟨m, by rw [EnumDef.keyMember?, claimed], rfl⟩
  | none =>
    obtain ⟨y, number, read⟩ := exists_number_of_readKey claimed read
    unfold decodeEnum at read
    split at read
    · next m found =>
      cases read
      exact ⟨m, by rw [EnumDef.keyMember?, claimed, number]; exact found, rfl⟩
    · cases read

/-- **Two member names are read as the same key** if they are spellings of one key. -/
theorem same_iff_oneKey (read : readKey s a = .ok k) (read' : readKey s b = .ok k') :
    k.same k' = true ↔ s.OneKey a b := by
  have text (h : readKey s a = decode s (.string a)) (h' : readKey s b = decode s (.string b)) :
      k.same k' = true ↔ s.SameText a b := by
    rw [h] at read
    rw [h'] at read'
    exact same_iff_sameText read read'
  cases s with
  | scalar kind =>
    cases kind with
    | int =>
      obtain ⟨m, number, rfl⟩ := read_int read
      obtain ⟨n, number', rfl⟩ := read_int read'
      simp [Shape.OneKey, number, number', Value.same]
    | float =>
      obtain ⟨x, number, rfl⟩ := read_float read
      obtain ⟨y, number', rfl⟩ := read_float read'
      simp [Shape.OneKey, number, number', Value.same]
    | bool =>
      rcases read_bool read with ⟨rfl, rfl⟩ | ⟨rfl, rfl⟩ <;>
        rcases read_bool read' with ⟨rfl, rfl⟩ | ⟨rfl, rfl⟩ <;>
          simp [Shape.OneKey, Shape.SameText, Value.same]
    | _ => exact text rfl rfl
  | enum e =>
    obtain ⟨m, found, rfl⟩ := read_enum read
    obtain ⟨n, found', rfl⟩ := read_enum read'
    simp [Shape.OneKey, found, found', Value.same]
  | _ => exact text rfl rfl

end Names

/-! ## What a key is written as -/

section Written

variable {s : Shape} {a b name : String} {k k' : Value}

theorem keyName_date (d : Date) : keyName (.temporal .date) (.date d) = .ok d.toText := rfl

theorem keyName_dateTime (i : Instant) :
    keyName (.temporal .dateTime) (.dateTime i) = .ok i.wire := rfl

theorem keyName_enum {e : EnumDef} {member : String}
    (written : keyName (.enum e) (.enum e.name member) = .ok name) :
    ∃ m, e.member? member = some m ∧ memberName m.value.toJson = .ok name := by
  obtain ⟨j, encoded, named⟩ := bind_eq_ok.1 written
  simp only [encode, encodeEnum, if_true] at encoded
  split at encoded
  · next m found =>
    cases encoded
    exact ⟨m, found, named⟩
  · cases encoded

theorem same_of_keyName_enum {e : EnumDef} {m n : EnumMember} (apart : e.WritesApart)
    (written : keyName (.enum e) (.enum e.name m.name) = .ok name)
    (written' : keyName (.enum e) (.enum e.name n.name) = .ok name) :
    (Value.enum e.name m.name).same (.enum e.name n.name) = true := by
  obtain ⟨m', found, named⟩ := keyName_enum written
  obtain ⟨n', found', named'⟩ := keyName_enum written'
  have names := apart _ _ _ _ _ found found' named named'
  simp [Value.same, names]

/-- Texts that are written under one name again are the same. -/
theorem same_of_keyName_text (apart : s.WritesKeysApart) (read : decode s (.string a) = .ok k)
    (read' : decode s (.string b) = .ok k') (written : keyName s k = .ok name)
    (written' : keyName s k' = .ok name) : k.same k' = true := by
  induction s with
  | scalar kind =>
    cases kind <;> cases read <;> cases read' <;> cases written <;> cases written' <;>
      simp [Value.same, Json.same]
  | temporal kind =>
    rw [decode, decodeTemporal] at read read'
    split at read
    · next v text =>
      split at read'
      · next w text' =>
        cases read
        cases read'
        cases kind with
        | date =>
          obtain ⟨d, -, rfl⟩ := Option.map_eq_some_iff.1 text
          obtain ⟨d', -, rfl⟩ := Option.map_eq_some_iff.1 text'
          rw [keyName_date] at written written'
          have texts : d'.toText = d.toText := Except.ok.inj (written'.trans written.symm)
          have days := Date.ofText?_toText d
          rw [← texts, Date.ofText?_toText] at days
          cases days
          simp [Value.same]
        | dateTime =>
          obtain ⟨i, hi, rfl⟩ := Option.map_eq_some_iff.1 text
          obtain ⟨i', hi', rfl⟩ := Option.map_eq_some_iff.1 text'
          rw [keyName_dateTime] at written written'
          obtain rfl := Instant.wire_inj (Instant.isValid_of_ofText? hi')
            (Instant.isValid_of_ofText? hi) (Except.ok.inj (written'.trans written.symm))
          simp [Value.same]
      · cases read'
    · cases read
  | enum e =>
    rw [decode, decodeEnum] at read read'
    split at read
    · next m found =>
      split at read'
      · next n found' =>
        cases read
        cases read'
        exact same_of_keyName_enum apart written written'
      · cases read'
    · cases read
  | optional inner ih =>
    rw [decode_optional_text] at read read'
    rw [keyName, encode_optional (ne_null_of_decode_text read)] at written
    rw [keyName, encode_optional (ne_null_of_decode_text read')] at written'
    exact ih apart read read' written written'
  | wrapper field inner s ih =>
    rw [decode] at read read'
    rw [keyName, encode] at written written'
    exact ih apart read read' written written'
  | _ => cases read

/-- **Keys that are written under one name again are the same.** -/
theorem same_of_keyName (apart : s.WritesKeysApart) (read : readKey s a = .ok k)
    (read' : readKey s b = .ok k') (written : keyName s k = .ok name)
    (written' : keyName s k' = .ok name) : k.same k' = true := by
  have text (h : readKey s a = decode s (.string a)) (h' : readKey s b = decode s (.string b)) :
      k.same k' = true := by
    rw [h] at read
    rw [h'] at read'
    exact same_of_keyName_text apart read read' written written'
  cases s with
  | scalar kind =>
    cases kind with
    | int =>
      obtain ⟨m, -, rfl⟩ := read_int read
      obtain ⟨n, -, rfl⟩ := read_int read'
      have back := readKey_int m
      have back' := readKey_int n
      cases written
      have digits : toString n.toInt = toString m.toInt := Except.ok.inj written'
      rw [digits, back] at back'
      cases back'
      simp [Value.same]
    | float =>
      obtain ⟨x, -, rfl⟩ := read_float read
      obtain ⟨y, -, rfl⟩ := read_float read'
      have back := readKey_float x
      have back' := readKey_float y
      cases written
      have digits : Number.Layout.json.finiteText y = Number.Layout.json.finiteText x :=
        Except.ok.inj written'
      rw [digits, back] at back'
      cases back'
      simp [Value.same, Double.same, Finite.same]
    | bool =>
      have truths {p q : Bool} (h : keyName (.scalar .bool) (.bool p) = .ok name)
          (h' : keyName (.scalar .bool) (.bool q) = .ok name) : p = q := by
        have texts (b : Bool) : keyName (.scalar .bool) (.bool b) = .ok (toString b) := by
          cases b <;> rfl
        have same : toString p = toString q :=
          Except.ok.inj ((texts p).symm.trans (h.trans (h'.symm.trans (texts q))))
        revert same
        cases p <;> cases q <;> decide
      rcases read_bool read with ⟨-, rfl⟩ | ⟨-, rfl⟩ <;>
        rcases read_bool read' with ⟨-, rfl⟩ | ⟨-, rfl⟩ <;>
          simp only [Value.same, truths written written', BEq.rfl]
    | _ => exact text rfl rfl
  | enum e =>
    obtain ⟨m, -, rfl⟩ := read_enum read
    obtain ⟨n, -, rfl⟩ := read_enum read'
    exact same_of_keyName_enum apart written written'
  | _ => exact text rfl rfl

end Written

end Wire

/-! ## Dictionaries -/

/-- What holds of the pairs of a list holds of the corresponding pairs of another. -/
theorem pairwise_iff_of_forall₂ {α β : Type} {R : α → β → Prop} {P : α → α → Prop}
    {Q : β → β → Prop} {as : List α} {bs : List β} (h : List.Forall₂ R as bs)
    (each : ∀ a b a' b', R a b → R a' b' → (P a a' ↔ Q b b')) :
    as.Pairwise P ↔ bs.Pairwise Q := by
  obtain ⟨length, related⟩ := List.forall₂_iff_get.1 h
  rw [List.pairwise_iff_getElem, List.pairwise_iff_getElem]
  constructor
  · intro all i j hi hj before
    exact (each _ _ _ _ (related i (length ▸ hi) hi) (related j (length ▸ hj) hj)).1
      (all i j _ _ before)
  · intro all i j hi hj before
    exact (each _ _ _ _ (related i hi (length ▸ hi)) (related j hj (length ▸ hj))).2
      (all i j _ _ before)

namespace Descriptor

variable {K V : Descriptor} {members : Members} {entries : List (Value × Value)}

/-- Entries of unequal keys get names of their own. -/
theorem nodup_keyNames (read : List.Forall₂ (EntryRead K.shape V.shape) members entries)
    (distinct : entries.Pairwise fun e f => e.1.same f.1 = false)
    (apart : K.shape.WritesKeysApart)
    (named : ∀ e ∈ entries, ∃ name, keyName K.shape e.1 = .ok name) :
    (entries.map fun e => keyName K.shape e.1).Nodup := by
  rw [List.Nodup, List.pairwise_map]
  refine distinct.imp_of_mem fun {e f} he hf unequal together => ?_
  obtain ⟨name, written⟩ := named f hf
  obtain ⟨m, -, first⟩ := exists_of_forall₂ read he
  obtain ⟨n, -, second⟩ := exists_of_forall₂ read hf
  have equal := same_of_keyName apart first.1 second.1 (together.trans written) written
  rw [unequal] at equal
  cases equal

/-- **Entries have the same key where the names of their members are spellings of one.**  A
dictionary that is read has an entry for every member, in their order, and no key comes twice
exactly if no two names are spellings of one key.  Then every entry is kept when it is written
again, as long as an enum writes its members apart. -/
theorem oneKey_iff (read : (mapping K V).decode (.object members) = .ok (.map entries)) :
    List.Forall₂ (EntryRead K.shape V.shape) members entries ∧
    ((entries.Pairwise fun e f => e.1.same f.1 = false) ↔
      members.Pairwise fun m n => ¬K.shape.OneKey m.1 n.1) ∧
    ((entries.Pairwise fun e f => e.1.same f.1 = false) → K.shape.WritesKeysApart →
      ∀ j, (mapping K V).encode (.map entries) = .ok j →
      ∃ again, j = .object again ∧
        List.Forall₂ (EntryWritten K.shape V.shape) entries again) := by
  have walk : List.Forall₂ (EntryRead K.shape V.shape) members entries :=
    decode_mapping_iff.1 read
  refine ⟨walk, ?_, fun distinct apart j written => ?_⟩
  · refine (pairwise_iff_of_forall₂ walk fun m e n f first second => ?_).symm
    rw [← same_iff_oneKey first.1 second.1, Bool.not_eq_true]
  · refine written_mapping (nodup_keyNames walk distinct apart ?_) written
    rw [encode, shape, shapeIn, Wire.encode] at written
    obtain ⟨ms, walked, -⟩ := bind_eq_ok.1 written
    exact exists_keyName walked

/-- One instant at two offsets is one key. -/
theorem oneKey_iff_instant :
    let entered := mapping (.temporal .dateTime) (.scalar .string)
    let members := [("2024-01-01T00:00:00Z", Json.string "a"),
      ("2024-01-01T01:00:00+01:00", Json.string "b")]
    let midnight := Value.dateTime ⟨1704067200, 0⟩
    entered.decode (.object members) =
        .ok (.map [(midnight, .string "a"), (midnight, .string "b")]) ∧
      ¬members.Pairwise fun m n => ¬(Shape.temporal .dateTime).OneKey m.1 n.1 := by
  intro entered members midnight
  have read : entered.decode (.object members) =
      .ok (.map [(midnight, .string "a"), (midnight, .string "b")]) := by
    unfold entered members midnight
    cbv
  refine ⟨read, fun apart => ?_⟩
  have unequal := List.rel_of_pairwise_cons ((oneKey_iff read).2.1.2 apart)
    (List.mem_singleton_self _)
  simp [midnight, Value.same] at unequal

/-- A number that is spelled in two ways is entered twice, and written again once. -/
theorem number_entered_twice :
    let entered := mapping (.scalar .int) (.scalar .string)
    let members := [("7", Json.string "a"), ("07", Json.string "b")]
    let entries := [(Value.int 7, Value.string "a"), (Value.int 7, Value.string "b")]
    (members.map (·.1)).Nodup ∧ entered.decode (.object members) = .ok (.map entries) ∧
      ¬(entries.Pairwise fun e f => e.1.same f.1 = false) ∧
      entered.encode (.map entries) = .ok (.object [("7", .string "b")]) := by
  intro entered members entries
  refine ⟨by decide, ?_, ?_, ?_⟩
  · unfold entered members entries
    cbv
  · simp [entries, Value.same]
  · unfold entered entries
    cbv

end Descriptor

end RpcBridge
