import RpcBridge.Json.Reader
import RpcBridge.Proofs.Number.Numeral

/-!
# Proofs/Json/WholeNumber — whole numbers in a JSON text

A whole number is read back from its digits by the reader of JSON texts, too: it starts with no zero
in front of other digits, nothing behind the digits asks for a fraction or an exponent, and the
number fits.

* `Json.parse_toString` — the text of a whole number that fits sixty-four bits.
-/

namespace RpcBridge

/-- A positive number starts with no zero. -/
theorem Numeral.head_toDigits {n : Nat} (positive : 0 < n) :
    ∃ c rest, Nat.toDigits 10 n = c :: rest ∧ c ≠ '0' := by
  induction n using Nat.strongRecOn with
  | ind n ih =>
    by_cases small : n < 10
    · refine ⟨n.digitChar, [], Nat.toDigits_of_lt_base small, ?_⟩
      rw [ne_eq, Nat.digitChar_eq_zero]
      omega
    · obtain ⟨c, rest, digits, nonzero⟩ := ih (n / 10) (by omega) (by omega)
      refine ⟨c, rest ++ [(n % 10).digitChar], ?_, nonzero⟩
      rw [Nat.toDigits_of_base_le (by decide) (by omega), digits, List.cons_append]

namespace Json

theorem spanDigits_ofText {digits : List Char} (all : ∀ c ∈ digits, c.isDigit = true) :
    spanDigits (digits.map Symbol.char) = (digits.map Numeral.digitValue, []) := by
  induction digits with
  | nil => rfl
  | cons c rest ih =>
    rw [List.forall_mem_cons] at all
    simp only [List.map_cons, spanDigits, digit?, all.1, if_true, ih all.2, Numeral.digitValue]

/-- A whole literal is the number it writes, if that fits; minus zero is none. -/
theorem number_of_whole {negative : Bool} {digits : List Nat} {n : Nat} {w : Whole}
    (value : digits.foldl (fun n d => 10 * n + d) 0 = n) (notMinusZero : negative = true → n ≠ 0)
    (fits : Whole.ofInt? (if negative then -(n : Int) else n) = some w)
    (exponentRest rest : List Symbol) :
    Literal.number negative ⟨digits, none, none⟩ exponentRest rest = .ok (.whole w) := by
  have exact : (negative && (if negative then -(n : Int) else n) == 0) = false := by
    cases negative with
    | false => rfl
    | true =>
      have := notMinusZero rfl
      simpa using this
  simp only [Literal.number, value, exact, Bool.false_eq_true, if_false, fits]

/-- The digits of a number are read as the number. -/
theorem draftNumber_toDigits {negative : Bool} {n : Nat} {w : Whole}
    (notMinusZero : negative = true → n ≠ 0)
    (fits : Whole.ofInt? (if negative then -(n : Int) else n) = some w) :
    draftNumber negative ((Nat.toDigits 10 n).map .char) = ⟨.number (.ok (.whole w)), some []⟩ := by
  have all : ∀ c ∈ Nat.toDigits 10 n, c.isDigit = true := fun c hc =>
    Nat.isDigit_of_mem_toDigits (by decide) (by decide) hc
  have value : ((Nat.toDigits 10 n).map Numeral.digitValue).foldl (fun n d => 10 * n + d) 0 = n := by
    rw [List.foldl_map]
    exact Numeral.ofDigits_toDigits n
  rw [draftNumber, spanDigits_ofText all]
  dsimp only
  split
  · next none =>
    rw [List.map_eq_nil_iff] at none
    exact absurd none Nat.toDigits_ne_nil
  · next d rest zero =>
    -- a zero in front of other digits
    exfalso
    rcases Nat.eq_zero_or_pos n with rfl | positive
    · rw [Nat.toDigits_zero] at zero
      cases zero
    · obtain ⟨c, more, digits, nonzero⟩ := Numeral.head_toDigits positive
      rw [digits, List.map_cons, List.cons.injEq] at zero
      have digit := all c (digits ▸ List.mem_cons_self ..)
      simp only [Char.isDigit, Bool.and_eq_true, decide_eq_true_eq] at digit
      have low : 48 ≤ c.toNat := digit.1
      have none : c.toNat - 48 = 0 := zero.1
      exact nonzero (Char.toNat_inj.1 (show c.toNat = 48 by omega))
  · rw [draftNumberEnd, number_of_whole value notMinusZero fits]
    all_goals exact nofun

theorem draftValue_digit (fuel : Nat) {c : Char} (digit : c.isDigit = true) (rest : List Symbol) :
    draftValue (fuel + 1) (.char c :: rest) = draftNumber false (.char c :: rest) := by
  have visible : skipBlanks (.char c :: rest) = .char c :: rest := by
    have blank : (c = ' ' || c = '\n' || c = '\t' || c = '\r') = false := by
      simp only [Bool.or_eq_false_iff, decide_eq_false_iff_not]
      refine ⟨⟨⟨?_, ?_⟩, ?_⟩, ?_⟩ <;> rintro rfl <;> cases digit
    simp only [skipBlanks, blank, Bool.false_eq_true, if_false]
  rw [draftValue, visible]
  split
  case h_9 =>
    next h =>
      cases h
      simp only [digit?, digit, if_true, Option.isSome_some]
  all_goals
    next h =>
      cases h
      try cases digit

/-- The text of a whole number is read as its sign and its digits. -/
theorem draft_toString (n : Int) : draft (Symbol.ofText (toString n)) =
    draftNumber (decide (n < 0)) ((Nat.toDigits 10 n.natAbs).map .char) := by
  cases n with
  | ofNat n =>
    have text : (toString (Int.ofNat n)).toList = Nat.toDigits 10 n := Nat.toList_repr
    obtain ⟨c, rest, digits⟩ : ∃ c rest, Nat.toDigits 10 n = c :: rest :=
      List.exists_cons_of_ne_nil Nat.toDigits_ne_nil
    have digit : c.isDigit = true :=
      Nat.isDigit_of_mem_toDigits (b := 10) (n := n) (by decide) (by decide)
        (digits ▸ List.mem_cons_self ..)
    have sign : decide (Int.ofNat n < 0) = false := decide_eq_false (by simp)
    rw [draft, Symbol.ofText, text, sign, show (Int.ofNat n).natAbs = n from rfl, digits, List.map_cons,
      draftValue_digit _ digit]
  | negSucc n =>
    have sign : decide (Int.negSucc n < 0) = true := decide_eq_true (Int.negSucc_lt_zero n)
    rw [draft, Symbol.ofText, Numeral.toList_toString_negSucc, sign, List.map_cons]
    rfl

/-- **A whole number is read back from its text.** -/
theorem parse_toString (w : Whole) : parse (toString w.val) = .ok (.number (.whole w)) := by
  have fits : Whole.ofInt? w.val = some w := by
    rw [Whole.ofInt?, dif_pos ⟨w.lower, w.upper⟩]
  have signed : (if decide (w.val < 0) then -(w.val.natAbs : Int) else w.val.natAbs) = w.val := by
    by_cases negative : w.val < 0
    · rw [decide_eq_true negative, if_pos rfl]
      omega
    · rw [decide_eq_false negative, if_neg Bool.false_ne_true]
      omega
  have notMinusZero : decide (w.val < 0) = true → w.val.natAbs ≠ 0 := fun negative => by
    have := of_decide_eq_true negative
    omega
  have draft : draft (Symbol.ofText (toString w.val)) = ⟨.number (.ok (.whole w)), some []⟩ := by
    rw [draft_toString, draftNumber_toDigits notMinusZero (signed.symm ▸ fits)]
  rw [parse, parseSymbols, draft]
  rfl

end Json

end RpcBridge
