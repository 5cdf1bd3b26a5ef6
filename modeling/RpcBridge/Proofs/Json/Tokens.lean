import RpcBridge.Json.Printer
import RpcBridge.Proofs.Json.Reading
import RpcBridge.Proofs.Json.WholeNumber

/-!
# Proofs/Json/Tokens — strings and numbers in front of more text

A printed string is read back whatever follows it, because its closing quote is the first one that
is not escaped.  A number has no closing mark of its own: it is read back in front of any text that
cannot go on with it (`EndsNumber`).

* `draftString_escaped` — a printed string is read up to its closing quote;
* `draftNumber_append` — a number that is read alone is read in front of such a text;
* `JsonNumber.ReadsBack` — the numbers that are read from their own text, and
  `exists_rest_of_readsBack` — what a reader makes of these in front of more text.
-/

namespace RpcBridge

namespace Json

/-! ## Strings -/

/-- How a character stands in a string: behind a backslash, by its code, or as it is. -/
theorem escapeChar_cases (c : Char) :
    (∃ e, e ≠ 'u' ∧ shortEscape? (.char e) = some c ∧ escapeChar c = ['\\', e]) ∨
    (c.toNat < 0x20 ∧ escapeChar c = '\\' :: 'u' :: '0' :: '0' :: hexPair c.toNat) ∨
    (c ≠ '"' ∧ c ≠ '\\' ∧ 0x20 ≤ c.toNat ∧ escapeChar c = [c]) := by
  unfold escapeChar
  iterate 7
    split
    · next h => exact Or.inl ⟨_, by decide, by rw [h]; rfl, rfl⟩
  split
  · next small => exact Or.inr (Or.inl ⟨small, rfl⟩)
  · next quote slash _ _ _ _ _ large =>
    exact Or.inr (Or.inr ⟨quote, slash, Nat.le_of_not_lt large, rfl⟩)

/-- The two hexadecimal digits of a control character are read back as its code. -/
theorem hexFour?_hexPair : ∀ n < 0x20, hexFour? (.char '0') (.char '0')
    (.char (Nat.digitChar (n / 16 % 16))) (.char (Nat.digitChar (n % 16))) = some n := by
  decide

/-- A short escape is read as the character it stands for. -/
theorem draftEscape_short (k : Content) {c e : Char} (rest : List Symbol) (other : e ≠ 'u')
    (h : shortEscape? (.char e) = some c) :
    draftEscape k (.char e :: rest) = .ok (k.push c, 1) := by
  unfold draftEscape
  split
  · next h => cases h
  · next h =>
    cases h
    exact absurd rfl other
  · next h' =>
    cases h'
    rw [h]

/-- A `\u` escape of a control character is read as that character. -/
theorem draftEscape_code (k : Content) {c : Char} (rest : List Symbol) (small : c.toNat < 0x20) :
    draftEscape k (('u' :: '0' :: '0' :: hexPair c.toNat).map .char ++ rest) =
      .ok (k.push c, 5) := by
  have leading : isLeading c.toNat = false := by
    simp only [isLeading, Bool.and_eq_false_iff, decide_eq_false_iff_not]
    omega
  have trailing : isTrailing c.toNat = false := by
    simp only [isTrailing, Bool.and_eq_false_iff, decide_eq_false_iff_not]
    omega
  simp only [hexPair, List.map_cons, List.map_nil, List.cons_append, List.nil_append, draftEscape,
    spanHexFour?, hexFour?_hexPair c.toNat small, Option.map_some, leading, trailing,
    Bool.false_eq_true, if_false, Char.ofNat_toNat]

/-- **A character is read from the way it stands in a string.** -/
theorem draftString_escapeChar (k : Content) (c : Char) (rest : List Symbol) :
    draftString k 0 ((escapeChar c).map .char ++ rest) = draftString (k.push c) 0 rest := by
  rcases escapeChar_cases c with
    ⟨e, other, short, text⟩ | ⟨small, text⟩ | ⟨quote, slash, large, text⟩
  · rw [text, List.map_cons, List.cons_append, draftString, if_neg (by decide), if_pos rfl]
    simp only [List.map_cons, List.map_nil, List.cons_append, List.nil_append,
      draftEscape_short k rest other short]
    rfl
  · rw [text, List.map_cons, List.cons_append, draftString, if_neg (by decide), if_pos rfl,
      draftEscape_code k rest small]
    rfl
  · rw [text, List.map_cons, List.map_nil, List.cons_append, List.nil_append, draftString,
      if_neg quote, if_neg slash, if_neg (Nat.not_lt.2 large)]

/-- What is escaped is read back character by character, up to the closing quote. -/
theorem draftString_flatMap (s : List Char) (k : Content) (rest : List Symbol) :
    draftString k 0 ((s.flatMap escapeChar).map .char ++ .char '"' :: rest) =
      .ok ((s.foldl Content.push k).close rest, rest) := by
  induction s generalizing k with
  | nil =>
    rw [List.flatMap_nil, List.map_nil, List.nil_append, draftString, if_pos rfl, List.foldl_nil]
  | cons c s ih =>
    rw [List.flatMap_cons, List.map_append, List.append_assoc, draftString_escapeChar, ih,
      List.foldl_cons]

/-- Characters are pushed onto a string without stray surrogates as they stand. -/
theorem foldl_push (s : List Char) {k : Content} (whole : k.stray? = none) :
    s.foldl Content.push k = { k with reversed := s.reverse ++ k.reversed } := by
  induction s generalizing k with
  | nil => rfl
  | cons c s ih =>
    rw [List.foldl_cons, ih (by rw [Content.push, whole, Option.map_none])]
    simp only [Content.push, whole, Option.map_none, List.reverse_cons, List.append_assoc,
      List.singleton_append]

/-- A text between the quotes of a JSON string. -/
def escaped (s : String) : List Symbol := (s.toList.flatMap escapeChar).map .char

theorem ofText_quote (s : String) :
    Symbol.ofText (quote s) = .char '"' :: (escaped s ++ [.char '"']) := by
  simp [Symbol.ofText, quote, escaped]

/-- **A printed string is read up to its closing quote**, whatever follows. -/
theorem draftString_escaped (s : String) (rest : List Symbol) :
    draftString .empty 0 (escaped s ++ .char '"' :: rest) = .ok (.ok s, rest) := by
  rw [escaped, draftString_flatMap, foldl_push s.toList rfl]
  simp [Content.close, Content.empty]

/-! ## Numbers -/

/-- A text that cannot go on with a number in front of it. -/
def EndsNumber (rest : List Symbol) : Prop :=
  ∀ s ∈ rest.head?, digit? s = none ∧ s ≠ .char '.' ∧ s ≠ .char 'e' ∧ s ≠ .char 'E'

section
variable {rest : List Symbol} (ends : EndsNumber rest)
include ends

/-- The digits in front are the same whatever ends the number. -/
theorem spanDigits_append (s : List Symbol) :
    spanDigits (s ++ rest) = ((spanDigits s).1, (spanDigits s).2 ++ rest) := by
  induction s with
  | nil =>
    cases rest with
    | nil => rfl
    | cons c more => simp only [List.nil_append, spanDigits, (ends c rfl).1]
  | cons c s ih =>
    rw [List.cons_append, spanDigits, spanDigits]
    cases digit? c with
    | none => rfl
    | some d => simp only [ih]

/-- Whether an exponent overflows does not depend on what ends the number. -/
theorem isSome_exponentOverflow?_append (s : List Symbol) (n : Nat) :
    (exponentOverflow? n (s ++ rest)).isSome = (exponentOverflow? n s).isSome := by
  induction s generalizing n with
  | nil =>
    cases rest with
    | nil => rfl
    | cons c more => simp only [List.nil_append, exponentOverflow?, (ends c rfl).1]
  | cons c s ih =>
    rw [List.cons_append, exponentOverflow?, exponentOverflow?]
    cases digit? c with
    | none => rfl
    | some d =>
      dsimp only
      split
      · exact ih _
      · rfl
end

/-- What a literal stands for depends on the text behind it only where the number is out of
range. -/
theorem number_congr {negative : Bool} {l : Literal} {s t r r' : List Symbol} {n : JsonNumber}
    (overflow : (exponentOverflow? 0 s).isSome = (exponentOverflow? 0 t).isSome)
    (h : l.number negative s r = .ok n) : l.number negative t r' = .ok n := by
  rw [Literal.number] at h ⊢
  generalize exponentOverflow? 0 s = o at h overflow
  generalize exponentOverflow? 0 t = o' at overflow ⊢
  split at h
  · exact h
  · generalize JsonNumber.Leading.ofDigits l.whole (l.fraction?.getD []) = leading at h ⊢
    generalize l.exponent?.getD (false, []) = e at h ⊢
    obtain ⟨down, digits⟩ := e
    cases o with
    | some p =>
      cases o' with
      | none => cases overflow
      | some p' =>
        cases tiny : down || leading.significand == 0
        · simp [tiny] at h
        · simpa [tiny] using h
    | none =>
      cases o' with
      | some p' => cases overflow
      | none =>
        simp only [Option.isSome_none, Bool.false_and, Bool.false_eq_true, if_false] at h ⊢
        split at h
        · exact h
        · cases h

/-- The sign of an exponent and what follows it. -/
def signOfExponent : List Symbol → Bool × List Symbol
  | .char '+' :: rest => (false, rest)
  | .char '-' :: rest => (true, rest)
  | rest => (false, rest)

/-- A number from the digits of its exponent on. -/
def digitsOfExponent (negative : Bool) (l : Literal) (down : Bool) (s : List Symbol) :
    Drafted Draft :=
  if (spanDigits s).1.isEmpty then ⟨.cut (digitMissing s), none⟩
  else ⟨.number (Literal.number negative { l with exponent? := some (down, (spanDigits s).1) } s
    (spanDigits s).2), some (spanDigits s).2⟩

theorem draftExponent_eq (negative : Bool) (l : Literal) (s : List Symbol) :
    draftExponent negative l s =
      digitsOfExponent negative l (signOfExponent s).1 (signOfExponent s).2 := by
  rfl

/-- The sign of an exponent is the same whatever follows. -/
theorem signOfExponent_append {s : List Symbol} (there : s ≠ []) (rest : List Symbol) :
    signOfExponent (s ++ rest) = ((signOfExponent s).1, (signOfExponent s).2 ++ rest) := by
  obtain ⟨c, s, rfl⟩ := List.exists_cons_of_ne_nil there
  rw [List.cons_append]
  by_cases plus : c = .char '+'
  · subst plus
    rfl
  by_cases minus : c = .char '-'
  · subst minus
    rfl
  simp [signOfExponent, plus, minus]

/-- A word is not read as a number. -/
theorem draftWord_ne_number {value : Draft} {m : Except Fault JsonNumber}
    (other : value ≠ .number m) (word : List Char) (s : List Symbol) :
    (draftWord value word s).draft ≠ .number m := by
  induction word generalizing s with
  | nil => exact other
  | cons c word ih =>
    cases s with
    | nil => exact nofun
    | cons d s =>
      rw [draftWord]
      split
      · exact ih s
      · exact nofun

/-- What is visible first stays visible first whatever follows. -/
theorem skipBlanks_append_of_visible {s t : List Symbol} {c : Symbol}
    (visible : skipBlanks s = c :: t) (rest : List Symbol) :
    skipBlanks (s ++ rest) = c :: t ++ rest := by
  induction s with
  | nil => cases visible
  | cons d s ih =>
    rw [List.cons_append]
    cases d with
    | stray b =>
      cases visible
      rfl
    | char d =>
      rw [skipBlanks] at visible ⊢
      split at visible
      · next blank =>
        rw [if_pos blank]
        exact ih visible
      · next blank =>
        rw [if_neg blank]
        cases visible
        rfl

/-- Skipping blanks twice is skipping them once. -/
theorem skipBlanks_of_visible {s t : List Symbol} {c : Symbol} (visible : skipBlanks s = c :: t) :
    skipBlanks (c :: t) = c :: t := by
  induction s with
  | nil => cases visible
  | cons d s ih =>
    cases d with
    | stray b =>
      cases visible
      rfl
    | char d =>
      rw [skipBlanks] at visible
      split at visible
      · exact ih visible
      · next blank =>
        cases visible
        rw [skipBlanks, if_neg blank]

/-- Blanks in front of a value do not change how it is read. -/
theorem draftValue_congr {s t : List Symbol} (h : skipBlanks s = skipBlanks t) (fuel : Nat) :
    draftValue fuel s = draftValue fuel t := by
  cases fuel with
  | zero => rfl
  | succ fuel => rw [draftValue, draftValue, h]

/-- What has a value as a digit is a digit. -/
theorem isDigit_of_digit? {c : Char} (h : (digit? (.char c)).isSome = true) : c.isDigit = true := by
  rw [digit?] at h
  split at h
  · next digit => exact digit
  · cases h

/-- A number, what is left behind it, and the same with more text behind that. -/
def GoesOn (rest : List Symbol) (n : JsonNumber) (alone longer : Drafted Draft) : Prop :=
  ∃ r, alone = ⟨.number (.ok n), some r⟩ ∧ longer = ⟨.number (.ok n), some (r ++ rest)⟩

section
variable {rest : List Symbol} (ends : EndsNumber rest) {negative : Bool} {n : JsonNumber}
  {s : List Symbol} {l : Literal}
include ends

/-- The digits of an exponent are read the same whatever ends the number. -/
theorem digitsOfExponent_append {down : Bool}
    (h : (digitsOfExponent negative l down s).draft = .number (.ok n)) :
    GoesOn rest n (digitsOfExponent negative l down s)
      (digitsOfExponent negative l down (s ++ rest)) := by
  unfold digitsOfExponent at h ⊢
  rw [spanDigits_append ends]
  split at h
  · cases h
  · next there =>
    rw [if_neg there, if_neg there]
    injection h with number
    rw [number, number_congr (isSome_exponentOverflow?_append ends s 0).symm number]
    exact ⟨_, rfl, rfl⟩

/-- An exponent is read the same whatever ends the number. -/
theorem draftExponent_append (h : (draftExponent negative l s).draft = .number (.ok n)) :
    GoesOn rest n (draftExponent negative l s) (draftExponent negative l (s ++ rest)) := by
  have there : s ≠ [] := by
    rintro rfl
    cases h
  rw [draftExponent_eq] at h ⊢
  rw [draftExponent_eq, signOfExponent_append there]
  exact digitsOfExponent_append ends h

/-- What follows the digits of a number is read the same whatever ends the number. -/
theorem draftNumberEnd_append (h : (draftNumberEnd negative l s).draft = .number (.ok n)) :
    GoesOn rest n (draftNumberEnd negative l s) (draftNumberEnd negative l (s ++ rest)) := by
  have plain {c : Symbol} (no : ∀ more, s ≠ c :: more) (stop : c = .char 'e' ∨ c = .char 'E')
      (more : List Symbol) : s ++ rest ≠ c :: more := by
    intro same
    cases s with
    | nil =>
      rw [List.nil_append] at same
      obtain ⟨-, -, small, large⟩ := ends c (same ▸ rfl)
      exact stop.elim small large
    | cons d s =>
      cases same
      exact no s rfl
  unfold draftNumberEnd at h ⊢
  split at h
  · exact draftExponent_append ends h
  · exact draftExponent_append ends h
  · next small large =>
    injection h with number
    split
    · next same => exact absurd same (plain small (Or.inl rfl) _)
    · next same => exact absurd same (plain large (Or.inr rfl) _)
    · exact ⟨_, by rw [number], by rw [number_congr rfl number]⟩

/-- A number is read the same whatever ends it. -/
theorem draftNumber_append (h : (draftNumber negative s).draft = .number (.ok n)) :
    GoesOn rest n (draftNumber negative s) (draftNumber negative (s ++ rest)) := by
  unfold draftNumber at h ⊢
  rw [spanDigits_append ends]
  generalize spanDigits s = parts at h ⊢
  obtain ⟨digits, after⟩ := parts
  dsimp only at h ⊢
  split at h
  · cases h
  · cases h
  · split at h
    · next more =>
      change GoesOn rest n _ (if (spanDigits (more ++ rest)).1.isEmpty then _ else
        draftNumberEnd negative ⟨digits, some (spanDigits (more ++ rest)).1, none⟩
          (spanDigits (more ++ rest)).2)
      rw [spanDigits_append ends]
      split at h
      · cases h
      · next there =>
        rw [if_neg there, if_neg there]
        exact draftNumberEnd_append ends h
    · next point =>
      split
      · next more same =>
        exfalso
        cases after with
        | nil =>
          rw [List.nil_append] at same
          subst same
          exact (ends _ rfl).2.1 rfl
        | cons c t =>
          cases same
          exact point _ rfl
      · exact draftNumberEnd_append ends h

/-- **A number that is read alone is read in front of more text**, if that cannot go on with it. -/
theorem draftValue_append {fuel : Nat} (h : (draftValue (fuel + 1) s).draft = .number (.ok n))
    (fuel' : Nat) :
    GoesOn rest n (draftValue (fuel + 1) s) (draftValue (fuel' + 1) (s ++ rest)) := by
  cases visible : skipBlanks s with
  | nil =>
    rw [draftValue, visible] at h
    cases h
  | cons c t =>
    have longer :
        draftValue (fuel' + 1) (s ++ rest) = draftValue (fuel' + 1) (c :: (t ++ rest)) := by
      refine draftValue_congr ?_ _
      rw [skipBlanks_append_of_visible visible, ← List.cons_append]
      exact (skipBlanks_append_of_visible (skipBlanks_of_visible visible) rest).symm
    rw [longer]
    rw [draftValue, visible] at h ⊢
    split at h
    · cases h
    · next same =>
      cases same
      exact absurd h (draftWord_ne_number (by simp) _ _)
    · next same =>
      cases same
      exact absurd h (draftWord_ne_number (by simp) _ _)
    · next same =>
      cases same
      exact absurd h (draftWord_ne_number (by simp) _ _)
    · next same =>
      -- a minus sign
      cases same
      exact draftNumber_append ends h
    · next same =>
      cases same
      split at h <;> cases h
    · next same => cases h
    · next same => cases h
    · next same =>
      cases same
      split at h
      · next digit =>
        cases c with
        | stray b => cases digit
        | char c =>
          rw [if_pos digit, draftValue_digit fuel' (isDigit_of_digit? digit)]
          exact draftNumber_append ends h
      · cases h

end

end Json

/-! ## Numbers that are read from their text -/

/-- A number that a reader takes out of its own text.  A whole number is one (`readsBack_whole`); of
the others not all are, because a reader rounds the digits and the power of ten one after the
other. -/
def JsonNumber.ReadsBack (n : JsonNumber) : Prop := Json.parse n.toText = .ok (.number n)

/-- Whole numbers are read back. -/
theorem JsonNumber.readsBack_whole (w : Whole) : (JsonNumber.whole w).ReadsBack :=
  Json.parse_toString w

namespace Json

/-- Only a number settles to a number. -/
theorem eq_number_of_settle {j : Json} {n : JsonNumber} (h : j.settle = .number n) :
    j = .number n := by
  cases j <;> simp only [settle, reduceCtorEq] at h
  exact h

/-- What a reader makes of such a number in front of more text. -/
theorem exists_rest_of_readsBack {n : JsonNumber} (h : n.ReadsBack) (fuel : Nat)
    {rest : List Symbol} (ends : EndsNumber rest) :
    ∃ r, draftValue (fuel + 1) (Symbol.ofText n.toText ++ rest) =
      ⟨.number (.ok n), some (r ++ rest)⟩ ∧ skipBlanks r = [] := by
  unfold JsonNumber.ReadsBack parse parseSymbols at h
  dsimp only at h
  obtain ⟨j, read, h⟩ := bind_eq_ok.1 h
  split at h
  · cases h
  · next none =>
    injection h with same
    rw [eq_number_of_settle same] at read
    have number : (draft (Symbol.ofText n.toText)).draft = .number (.ok n) := by
      generalize (draft (Symbol.ofText n.toText)).draft = d at read
      cases readAs_iff.2 read
      rfl
    obtain ⟨r, alone, longer⟩ := draftValue_append ends number fuel
    refine ⟨r, longer, ?_⟩
    rw [draft, alone] at none
    unfold trailing? at none
    rw [Option.map_some] at none
    split at none
    · cases none
    · next clear =>
      cases left : skipBlanks r with
      | nil => rfl
      | cons c t => exact absurd (congrArg some left) (clear c t)

end Json

end RpcBridge
