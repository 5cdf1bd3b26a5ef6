import RpcBridge.Proofs.Calendar.Reading
import RpcBridge.Proofs.Json.WholeNumber
import RpcBridge.Proofs.Wire.Read
import RpcBridge.Proofs.Wire.Written

/-!
# Proofs/Wire/Keys — keys that are recovered from their member names

The keys of a dictionary travel as member names, and a name is a text whatever the key was.  A key
that travels as a text is its own name, and is read back however deeply its type is wrapped.  A
number or a truth value is written out, and only the outermost node of the key's type decides
whether the name is taken for one: behind an optional type or a transparent record, and as an
untyped value, it stays a text.

* `Wire.KeyWritten` — how a key travels; `Wire.keyWritten_of_conforms` — a conforming key that has a
  name travels so;
* `Shape.Recoverable` — the keys that are read back from their names;
* `Wire.readKey_of_recoverable`, `Wire.recoverable_of_readKey` — these and no others.
-/

namespace RpcBridge

-- Powers are the ones of the core library, also where an algebraic library is in scope.
attribute [local instance (high)] instPowNat

/-! ## Signed words -/

/-- A signed word is a whole number that fits. -/
theorem Whole.toInt64?_ofInt64 (n : Int64) : (Whole.ofInt64 n).toInt64? = some n := by
  have few : (Whole.ofInt64 n).val < 2 ^ (63 : Nat) := n.toInt_lt
  rw [toInt64?, if_pos few, ofInt64, Int64.ofInt_toInt]

/-- A signed word is read back from its digits. -/
theorem Wire.readInt64?_toString (n : Int64) : readInt64? (toString n.toInt) = some n := by
  have low := n.le_toInt
  have high := n.toInt_lt
  have fits : Whole.ofInt? n.toInt = some (.ofInt64 n) := by
    rw [Whole.ofInt?, dif_pos ⟨low, by omega⟩, Whole.ofInt64]
  simp only [readInt64?, Numeral.int?_toString, fits, Option.bind_some, Whole.toInt64?_ofInt64]

/-- A literal that travels as a text is one. -/
theorem EnumLiteral.text_of_toJson {l : EnumLiteral} {t : String} (h : l.toJson = .string t) :
    l = .text t := by
  cases l with
  | text s =>
    cases h
    rfl
  | int n => cases h
  | float x => cases x <;> cases h

/-- A shape without the optional types and transparent records around it. -/
def Shape.bare : Shape → Shape
  | .optional inner => inner.bare
  | .wrapper _ _ inner => inner.bare
  | s => s

namespace Wire

/-! ## How keys travel -/

/-- A key and the JSON value it travels as, from the outermost node of its type inwards. -/
inductive KeyWritten : Shape → Value → Json → Prop where
  | string (s : String) : KeyWritten (.scalar .string) (.string s) (.string s)
  | bool (b : Bool) : KeyWritten (.scalar .bool) (.bool b) (.bool b)
  | int (n : Int64) : KeyWritten (.scalar .int) (.int n) (.ofInt64 n)
  | float (x : Finite) : KeyWritten (.scalar .float) (.float (.finite x)) (.number (.real x))
  | any (j : Json) : KeyWritten (.scalar .any) (.raw j) j
  | date (d : Date) : KeyWritten (.temporal .date) (.date d) (.string d.toText)
  | dateTime {i : Instant} (few : i.nanos < 2 * Calendar.second) :
    KeyWritten (.temporal .dateTime) (.dateTime i) (.string i.wire)
  /-- Another member may stand before one in the search for its text, but only under its name. -/
  | member {e : EnumDef} {m : EnumMember} (declared : e.member? m.name = some m)
      (spelled : ∀ t, m.value = .text t →
        ∃ first, e.memberFor? (.string t) = some first ∧ first.name = m.name) :
    KeyWritten (.enum e) (.enum e.name m.name) m.value.toJson
  | optional {s : Shape} {k : Value} {j : Json} (notNull : k ≠ .null) (h : KeyWritten s k j) :
    KeyWritten (.optional s) k j
  | wrapper {name field : String} {s : Shape} {k : Value} {j : Json} (h : KeyWritten s k j) :
    KeyWritten (.wrapper name field s) k j

/-- A written key is written as its JSON. -/
theorem KeyWritten.encode {s : Shape} {k : Value} {j : Json} (h : KeyWritten s k j) :
    encode s k = .ok j := by
  induction h with
  | member declared => simp only [Wire.encode, encodeEnum, if_true, declared]
  | optional notNull _ ih => rw [encode_optional notNull, ih]
  | wrapper _ ih => rw [Wire.encode, ih]
  | _ => simp only [Wire.encode, encodeScalar, encodeTemporal, JsonNumber.ofDouble?]

/-- The literal of a member decides how it travels, however deeply its enum is wrapped. -/
theorem KeyWritten.toJson_eq {s : Shape} {e : EnumDef} {m : EnumMember} {j : Json}
    (h : KeyWritten s (.enum e.name m.name) j) (bare : s.bare = .enum e)
    (declared : e.member? m.name = some m) : j = m.value.toJson := by
  obtain ⟨k, key⟩ : ∃ k, k = Value.enum e.name m.name := ⟨_, rfl⟩
  rw [← key] at h
  induction h with
  | @member e' m' declared' =>
    obtain rfl : e' = e := Shape.enum.inj bare
    rw [(Value.enum.inj key).2, declared] at declared'
    rw [Option.some.inj declared']
  | optional _ _ ih => exact ih bare key
  | wrapper _ ih => exact ih bare key
  | _ => cases key

/-- **A conforming key that has a member name travels as its type says.** -/
theorem keyWritten_of_conforms {s : Shape} {k : Value} {j : Json} {name : String}
    (h : s.Conforms k) (written : encode s k = .ok j) (named : memberName j = .ok name) :
    KeyWritten s k j := by
  induction s with
  | scalar kind =>
    rw [Shape.Conforms] at h
    rw [encode] at written
    cases h with
    | string s => cases written; exact .string s
    | bool b => cases written; exact .bool b
    | int n => cases written; exact .int n
    | float x => cases written; exact .float x
    | any => cases written; exact .any _
    | anyList => cases written; cases named
    | none => cases written; cases named
  | temporal kind =>
    rw [Shape.Conforms] at h
    rw [encode] at written
    cases h with
    | date d =>
      cases written
      exact .date d
    | dateTime few =>
      cases written
      exact .dateTime few
  | enum e =>
    rw [Shape.Conforms] at h
    obtain ⟨m, first, rfl, declared, denoted, same⟩ := h
    have member : KeyWritten (.enum e) (.enum e.name m.name) m.value.toJson := by
      refine .member declared fun t text => ⟨first, ?_, same⟩
      rwa [text] at denoted
    obtain rfl := Except.ok.inj (member.encode.symm.trans written)
    exact member
  | list element =>
    obtain ⟨vs, js, -, rfl, -⟩ := written_list written
    cases named
  | tuple items =>
    obtain ⟨vs, js, -, rfl, -⟩ := written_tuple written
    cases named
  | mapping key value =>
    rw [Shape.Conforms] at h
    obtain ⟨entries, rfl, distinct, -⟩ := h
    obtain ⟨members, rfl, -⟩ := written_mapping distinct written
    cases named
  | optional inner ih =>
    rw [Shape.Conforms] at h
    by_cases null : k = .null
    · subst null
      rw [encode] at written
      cases written
      cases named
    · rw [encode_optional null] at written
      exact .optional null (ih (h.resolve_left null).2 written)
  | record n fields | bareTemplate _ n fields | opened _ n fields =>
    rw [Shape.Conforms] at h
    obtain ⟨vs, rfl, -⟩ := h
    rw [encode] at written
    obtain ⟨ms, -, written⟩ := bind_eq_ok.1 written
    cases written
    cases named
  | wrapper n field inner ih =>
    rw [Shape.Conforms] at h
    rw [encode] at written
    exact .wrapper (ih h written)
  | blocked d obstacle =>
    rw [Shape.Conforms] at h
    exact h.elim

/-! ## Keys that travel as texts -/

section Texts

variable {s : Shape} {k back : Value} {t : String}

/-- A text is read under an optional as without it. -/
theorem decode_optional_text (s : Shape) (t : String) :
    decode (.optional s) (.string t) = decode s (.string t) := decode_optional nofun

/-- A text is read for a type as if nothing were wrapped around it. -/
theorem decode_bare_text (s : Shape) (t : String) :
    decode s (.string t) = decode s.bare (.string t) := by
  induction s with
  | optional inner ih => rw [decode_optional_text, ih, Shape.bare]
  | wrapper name field inner ih => rw [decode, ih, Shape.bare]
  | _ => rw [Shape.bare] <;> simp

/-- A key that travels as a text is its own name. -/
theorem readKey_of_text (h : KeyWritten s k (.string t)) : readKey s t = decode s (.string t) := by
  obtain ⟨j, travels⟩ : ∃ j, j = Json.string t := ⟨_, rfl⟩
  rw [← travels] at h
  cases h with
  | member declared spelled =>
    obtain ⟨first, found, -⟩ := spelled t (EnumLiteral.text_of_toJson travels)
    simp only [readKey, keyJson, found, Option.isSome_some, if_true, ok_bind]
  | bool => cases travels
  | int => cases travels
  | float => cases travels
  | _ => rfl

/-- **A key that travels as a text is read back**, if it is timely and has no leap second out of
place. -/
theorem decode_text (h : KeyWritten s k (.string t)) (timely : k.Timely) (regular : k.Regular) :
    decode s (.string t) = .ok k := by
  obtain ⟨j, travels⟩ : ∃ j, j = Json.string t := ⟨_, rfl⟩
  rw [← travels] at h
  induction h with
  | string =>
    cases travels
    simp only [decode, decodeScalar]
  | any =>
    cases travels
    simp only [decode, decodeScalar]
  | date d =>
    cases travels
    simp only [decode, decodeTemporal, readTemporal?, Date.ofText?_toText, Option.map_some]
  | @dateTime i few =>
    obtain rfl := Json.string.inj travels
    obtain ⟨low, high⟩ := timely i .here
    have valid := Instant.isValid_of_regular few (regular i .here) low high
    simp only [decode, decodeTemporal, readTemporal?, Instant.ofText?_wire valid low high,
      Option.map_some]
  | member declared spelled =>
    obtain ⟨first, found, same⟩ := spelled t (EnumLiteral.text_of_toJson travels)
    simp only [decode, decodeEnum, found, same]
  | optional _ _ ih => rw [decode_optional_text, ih timely regular travels]
  | wrapper _ ih => rw [decode, ih timely regular travels]
  | bool => cases travels
  | int => cases travels
  | float => cases travels

/-- A text that is read back is that of a timely key without a leap second out of place. -/
theorem intact_of_decode_text (h : KeyWritten s k (.string t))
    (read : decode s (.string t) = .ok back) (same : back.same k = true) :
    k.Timely ∧ k.Regular := by
  obtain ⟨j, travels⟩ : ∃ j, j = Json.string t := ⟨_, rfl⟩
  rw [← travels] at h
  induction h with
  | @dateTime i few =>
    obtain rfl := Json.string.inj travels
    have years : 0 ≤ i.civil.year ∧ i.civil.year ≤ 9999 := by
      by_contra untimely
      have unread := Instant.ofText?_wire_eq_none (i := i) (by omega)
      simp only [decode, decodeTemporal, readTemporal?, unread, Option.map_none] at read
      cases read
    have regular : i.Regular := by
      refine (Instant.ofText?_wire_iff few years.1 years.2).1 ?_
      cases found : Instant.ofText? i.wire with
      | none =>
        simp only [decode, decodeTemporal, readTemporal?, found, Option.map_none] at read
        cases read
      | some i' =>
        simp only [decode, decodeTemporal, readTemporal?, found, Option.map_some,
          Except.ok.injEq] at read
        subst read
        rw [Value.same, beq_iff_eq] at same
        rw [same]
    constructor <;>
    · intro i hi
      cases hi
      assumption
  | optional _ _ ih =>
    rw [decode_optional_text] at read
    exact ih read same travels
  | wrapper _ ih =>
    rw [decode] at read
    exact ih read same travels
  | _ => constructor <;> rintro i ⟨⟩

end Texts

/-! ## Keys that are written out -/

/-- Where the outermost node of a type does not say that a name is written out, the name stays a
text. -/
theorem readKey_optional (s : Shape) (name : String) :
    readKey (.optional s) name = decode (.optional s) (.string name) := rfl

/-- Behind a wrapper a key is read from its text only. -/
theorem readKey_wrapper (record field : String) (s : Shape) (name : String) :
    readKey (.wrapper record field s) name = decode (.wrapper record field s) (.string name) := rfl

/-- An integer key is read back from its digits. -/
theorem readKey_int (n : Int64) : readKey (.scalar .int) (toString n.toInt) = .ok (.int n) := by
  simp only [readKey, keyJson, readInt64?_toString, Option.map_some, ok_bind, Json.ofInt64, decode,
    decodeScalar, JsonNumber.toInt64?, Whole.toInt64?_ofInt64]

/-- A float key is read back from its digits. -/
theorem readKey_float (x : Finite) :
    readKey (.scalar .float) (Number.Layout.json.finiteText x) = .ok (.float (.finite x)) := by
  simp only [readKey, keyJson, Double.ofNumeral?_finiteText, Option.bind_some,
    JsonNumber.ofDouble?, Option.map_some, ok_bind, decode, decodeScalar, JsonNumber.toDouble]

section Enums

variable {e : EnumDef} {name : String}

/-- A text that is a member's literal is read as that member. -/
theorem readKey_of_taken {first : EnumMember} (taken : e.memberFor? (.string name) = some first) :
    readKey (.enum e) name = .ok (.enum e.name first.name) := by
  simp only [readKey, keyJson, taken, Option.isSome_some, if_true, ok_bind, decode, decodeEnum]

/-- A name that no literal claims as a text is read as a number. -/
theorem readKey_of_free {y : JsonNumber} (free : e.memberFor? (.string name) = none)
    (number : Json.parse name = .ok (.number y)) :
    readKey (.enum e) name = decodeEnum e (.number y) := by
  simp only [readKey, keyJson, free, Option.isSome_none, Bool.false_eq_true, if_false, number,
    ok_bind, decode]

/-- A name that is no literal of an enum can only be read as a number. -/
theorem exists_number_of_readKey {back : Value} (free : e.memberFor? (.string name) = none)
    (read : readKey (.enum e) name = .ok back) :
    ∃ y, Json.parse name = .ok (.number y) ∧ decodeEnum e (.number y) = .ok back := by
  obtain ⟨j, named, read⟩ := bind_eq_ok.1 read
  simp only [keyJson, free, Option.isSome_none, Bool.false_eq_true, if_false] at named
  split at named
  · next y number =>
    cases named
    rw [decode] at read
    exact ⟨y, number, read⟩
  · cases named

/-- A name that a literal of an enum claims is read as its member, whatever is wrapped around the
enum. -/
theorem readKey_of_claimed {s : Shape} {first : EnumMember} (bare : s.bare = .enum e)
    (claimed : e.memberFor? (.string name) = some first) :
    readKey s name = .ok (.enum e.name first.name) := by
  have text : decode s (.string name) = .ok (.enum e.name first.name) := by
    rw [decode_bare_text, bare]
    simp only [decode, decodeEnum, claimed]
  cases s with
  | enum e' =>
    obtain rfl := Shape.enum.inj bare
    exact readKey_of_taken claimed
  | optional inner => rw [readKey_optional, text]
  | wrapper record field inner => rw [readKey_wrapper, text]
  | _ => cases bare

end Enums

/-- **What does not travel as a text is not read back from one**, unless another literal of its enum
member is the text. -/
theorem exists_twin_of_decode_text {s : Shape} {k back : Value} {j : Json} {name : String}
    (h : KeyWritten s k j) (notText : ∀ t, j ≠ .string t)
    (read : decode s (.string name) = .ok back) (same : back.same k = true) :
    ∃ (e : EnumDef) (m twin : EnumMember), s.bare = .enum e ∧ k = .enum e.name m.name ∧
      e.member? m.name = some m ∧ j = m.value.toJson ∧ e.memberFor? (.string name) = some twin ∧
      twin.name = m.name := by
  induction h with
  | string => exact absurd rfl (notText _)
  | date => exact absurd rfl (notText _)
  | dateTime => exact absurd rfl (notText _)
  | bool => cases read
  | int => cases read
  | float => cases read
  | any j =>
    cases read
    cases j with
    | string t => exact absurd rfl (notText t)
    | _ => simp [Value.same, Json.same] at same
  | @member e m declared =>
    rw [decode, decodeEnum] at read
    split at read
    · next twin found =>
      cases read
      have names : twin.name = m.name := by simpa [Value.same] using same
      exact ⟨e, m, twin, rfl, rfl, declared, rfl, found, names⟩
    · cases read
  | optional _ _ ih =>
    rw [decode_optional_text] at read
    exact ih notText read same
  | wrapper _ ih =>
    rw [decode] at read
    exact ih notText read same

end Wire

/-! ## The keys that are read back -/

open Wire

/-- The keys that are recovered from their member names.

A key that travels as a text is, unless it is an instant that its text does not stand for.  A number
or a truth value is for a type that is itself a number or a truth value.  The number of an enum
member is if no member has its digits for a text, and if the first member that the number read from
them denotes is one of its name.  Where an enum has several members of one name, the text of another
one may be the digits. -/
inductive Shape.Recoverable : Shape → Value → Prop where
  | text {s : Shape} {k : Value} {t : String} (written : encode s k = .ok (.string t))
      (timely : k.Timely) (regular : k.Regular) : Recoverable s k
  | bool (b : Bool) : Recoverable (.scalar .bool) (.bool b)
  | int (n : Int64) : Recoverable (.scalar .int) (.int n)
  | float (x : Finite) : Recoverable (.scalar .float) (.float (.finite x))
  | whole {e : EnumDef} {m first : EnumMember} {n : Int64} (declared : e.member? m.name = some m)
      (literal : m.value = .int n) (free : e.memberFor? (.string (toString n.toInt)) = none)
      (denotes : e.memberFor? (.ofInt64 n) = some first) (same : first.name = m.name) :
    Recoverable (.enum e) (.enum e.name m.name)
  | real {e : EnumDef} {m first : EnumMember} {x : Finite} {y : JsonNumber}
      (declared : e.member? m.name = some m) (literal : m.value = .float (.finite x))
      (free : e.memberFor? (.string (Number.Layout.json.finiteText x)) = none)
      (number : Json.parse (Number.Layout.json.finiteText x) = .ok (.number y))
      (denotes : e.memberFor? (.number y) = some first) (same : first.name = m.name) :
    Recoverable (.enum e) (.enum e.name m.name)
  | twin {s : Shape} {e : EnumDef} {m twin : EnumMember} {name : String} (bare : s.bare = .enum e)
      (declared : e.member? m.name = some m) (named : memberName m.value.toJson = .ok name)
      (claimed : e.memberFor? (.string name) = some twin) (same : twin.name = m.name) :
    Recoverable s (.enum e.name m.name)

namespace Wire

variable {s : Shape} {k : Value} {j : Json} {name : String}

/-- What is there travels as if nothing were wrapped around its type. -/
theorem encode_bare (s : Shape) (notNull : k ≠ .null) : encode s k = encode s.bare k := by
  induction s with
  | optional inner ih => rw [encode_optional notNull, ih, Shape.bare]
  | wrapper record field inner ih => rw [encode, ih, Shape.bare]
  | _ => rw [Shape.bare] <;> simp

/-- A recoverable key has a member name. -/
theorem exists_name_of_recoverable (h : s.Recoverable k) :
    ∃ j name, encode s k = .ok j ∧ memberName j = .ok name := by
  have member {e : EnumDef} {m : EnumMember} (declared : e.member? m.name = some m) :
      encode (.enum e) (.enum e.name m.name) = .ok m.value.toJson := by
    simp only [encode, encodeEnum, if_true, declared]
  cases h with
  | text written => exact ⟨_, _, written, rfl⟩
  | bool b => cases b <;> exact ⟨_, _, by rw [encode, encodeScalar], rfl⟩
  | int n => exact ⟨.ofInt64 n, _, by rw [encode, encodeScalar], rfl⟩
  | float x => exact ⟨.number (.real x), _, by rw [encode, encodeScalar]; rfl, rfl⟩
  | whole declared literal => exact ⟨_, _, member declared, by rw [literal]; rfl⟩
  | real declared literal => exact ⟨_, _, member declared, by rw [literal]; rfl⟩
  | twin bare declared named =>
    exact ⟨_, _, by rw [encode_bare s Value.noConfusion, bare, member declared], named⟩

/-- **A recoverable key is recovered.** -/
theorem readKey_of_recoverable (h : KeyWritten s k j) (named : memberName j = .ok name)
    (recoverable : s.Recoverable k) : readKey s name = .ok k := by
  cases recoverable with
  | @text _ _ t written timely regular =>
    obtain rfl := Except.ok.inj (h.encode.symm.trans written)
    cases named
    rw [readKey_of_text h, decode_text h timely regular]
  | bool b =>
    cases h
    cases b <;>
    · cases named
      rfl
  | int n =>
    cases h
    cases named
    exact readKey_int n
  | float x =>
    cases h
    cases named
    exact readKey_float x
  | @whole e m first n declared literal free denotes same =>
    obtain rfl := h.toJson_eq rfl declared
    rw [literal] at named
    cases named
    change e.memberFor? (.number (.whole (.ofInt64 n))) = some first at denotes
    have member : readKey (.enum e) (toString n.toInt) = .ok (.enum e.name m.name) := by
      rw [readKey_of_free free (Json.parse_toString (.ofInt64 n))]
      simp only [decodeEnum, denotes, same]
    exact member
  | @real e m first x y declared literal free number denotes same =>
    obtain rfl := h.toJson_eq rfl declared
    rw [literal] at named
    cases named
    have member : readKey (.enum e) (Number.Layout.json.finiteText x) =
        .ok (.enum e.name m.name) := by
      rw [readKey_of_free free number]
      simp only [decodeEnum, denotes, same]
    exact member
  | twin bare declared named' claimed same =>
    obtain rfl := h.toJson_eq bare declared
    obtain rfl := Except.ok.inj (named'.symm.trans named)
    rw [readKey_of_claimed bare claimed, same]

/-- An enum key other than a text that is read back as the member it was is recoverable. -/
theorem recoverable_of_readKey_enum {e : EnumDef} {m : EnumMember} {back : Value}
    (declared : e.member? m.name = some m) (notText : ∀ t, m.value.toJson ≠ .string t)
    (named : memberName m.value.toJson = .ok name) (read : readKey (.enum e) name = .ok back)
    (same : back.same (.enum e.name m.name) = true) :
    (Shape.enum e).Recoverable (.enum e.name m.name) := by
  have sameName {first : EnumMember} (back : back = .enum e.name first.name) :
      first.name = m.name := by simpa [back, Value.same] using same
  cases claimed : e.memberFor? (.string name) with
  | some first =>
    rw [readKey_of_taken claimed] at read
    exact .twin rfl declared named claimed (sameName (Except.ok.inj read).symm)
  | none =>
    obtain ⟨y, number, denotes⟩ := exists_number_of_readKey claimed read
    unfold decodeEnum at denotes
    split at denotes
    case h_2 => cases denotes
    next first found =>
    have names := sameName (Except.ok.inj denotes).symm
    cases literal : m.value with
    | text t => exact absurd (by rw [literal]; rfl) (notText t)
    | int n =>
      rw [literal] at named
      cases named
      cases (Json.parse_toString (.ofInt64 n)).symm.trans number
      exact .whole declared literal claimed found names
    | float x =>
      rw [literal] at named
      cases x with
      | finite x =>
        cases named
        exact .real declared literal claimed number found names
      | _ => cases named

/-- **Nothing else is.** -/
theorem recoverable_of_readKey {back : Value} (h : KeyWritten s k j)
    (named : memberName j = .ok name) (read : readKey s name = .ok back)
    (same : back.same k = true) : s.Recoverable k := by
  by_cases text : ∃ t, j = .string t
  · obtain ⟨t, rfl⟩ := text
    cases named
    rw [readKey_of_text h] at read
    obtain ⟨timely, regular⟩ := intact_of_decode_text h read same
    exact .text h.encode timely regular
  have notText (t : String) : j ≠ .string t := fun travels => text ⟨t, travels⟩
  -- what stays a text is not the key, unless a twin has the text
  have stays (read : decode s (.string name) = .ok back) : s.Recoverable k := by
    obtain ⟨e, m, twin, bare, rfl, declared, rfl, claimed, names⟩ :=
      exists_twin_of_decode_text h notText read same
    exact .twin bare declared named claimed names
  cases h with
  | string => exact absurd rfl (notText _)
  | date => exact absurd rfl (notText _)
  | dateTime => exact absurd rfl (notText _)
  | bool b => exact .bool b
  | int n => exact .int n
  | float x => exact .float x
  | any => exact stays read
  | member declared => exact recoverable_of_readKey_enum declared notText named read same
  | optional => exact stays (readKey_optional .. ▸ read)
  | wrapper => exact stays (readKey_wrapper .. ▸ read)

/-- A recoverable key equals itself. -/
theorem same_of_recoverable (h : KeyWritten s k j) (recoverable : s.Recoverable k) :
    k.same k = true := by
  cases recoverable with
  | @text _ _ t written timely regular =>
    have travels := Except.ok.inj (h.encode.symm.trans written)
    clear written timely regular
    induction h with
    | any j =>
      subst travels
      simp only [Value.same, Json.same, BEq.rfl]
    | optional _ _ ih => exact ih travels
    | wrapper _ ih => exact ih travels
    | bool => cases travels
    | int => cases travels
    | float => cases travels
    | _ => simp only [Value.same, BEq.rfl, Bool.and_self]
  | float x => simp only [Value.same, Double.same, Finite.same, BEq.rfl, Bool.true_or]
  | _ => simp only [Value.same, BEq.rfl, Bool.and_self]

end Wire

end RpcBridge
