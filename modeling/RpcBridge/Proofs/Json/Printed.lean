import RpcBridge.Json.Misfit
import RpcBridge.Proofs.Client.Depth
import RpcBridge.Proofs.Json.Tokens

/-!
# Proofs/Json/Printed — a printed value is read back

A text *shows* a value if a reader that starts in front of it takes the value and stops behind it,
whatever follows that does not go on with a number (`Shows`).  That a container is shown follows
from its parts: behind each of them stands a comma or a line break, so that no number goes on, and
what a reader takes for a part does not start with a closing bracket.

* `shows_array`, `shows_object` — containers of values that are shown;
* `shows_prettyAt` — every printed value is shown, on whatever level it starts;
* `exists_readText_pretty` — what a typed reader makes of a printed value.
-/

namespace RpcBridge

namespace Json

/-! ## Blanks -/

/-- Blanks in front of a text are skipped. -/
theorem skipBlanks_append {blanks : List Symbol} (blank : skipBlanks blanks = [])
    (rest : List Symbol) : skipBlanks (blanks ++ rest) = skipBlanks rest := by
  induction blanks with
  | nil => rfl
  | cons c blanks ih =>
    cases c with
    | stray b => cases blank
    | char c =>
      rw [List.cons_append]
      rw [skipBlanks] at blank ⊢
      split at blank
      · next is =>
        rw [if_pos is]
        exact ih blank
      · cases blank

/-- A number ends at a blank, at a comma and at a closing bracket. -/
theorem endsNumber_of_visible {s rest : List Symbol} {c : Char} (h : c ∈ [',', ']', '\x7d'])
    (visible : skipBlanks s = .char c :: rest) : EndsNumber s := by
  have each : ∀ c ∈ [' ', '\n', '\t', '\r', ',', ']', '\x7d'],
      digit? (.char c) = none ∧ Symbol.char c ≠ .char '.' ∧ Symbol.char c ≠ .char 'e' ∧
        Symbol.char c ≠ .char 'E' := by
    simp [digit?]
  cases s with
  | nil => rintro _ ⟨⟩
  | cons d s =>
    rintro _ ⟨⟩
    cases d with
    | stray b => cases visible
    | char d =>
      rw [skipBlanks] at visible
      split at visible
      · next blank =>
        simp only [Bool.or_eq_true, decide_eq_true_eq] at blank
        rcases blank with ((rfl | rfl) | rfl) | rfl <;> exact each _ (by decide)
      · cases visible
        exact each c (List.mem_append_right [' ', '\n', '\t', '\r'] h)

/-! ## Texts that show a value -/

/-- A text that is read as a value, whatever follows that does not go on with a number. -/
def Shows (text : List Symbol) (j : Json) : Prop :=
  ∀ fuel rest, 2 * text.length < fuel → EndsNumber rest → ∃ d after,
    draftValue fuel (text ++ rest) = ⟨d, some after⟩ ∧ skipBlanks after = skipBlanks rest ∧
      ∀ levels, j.depth ≤ levels → d.read levels = .ok j

/-- The text of a member of an object. -/
def memberText (name : String) (text : List Symbol) : List Symbol :=
  .char '"' :: (escaped name ++ .char '"' :: .char ':' :: .char ' ' :: text)

/-- The text of a member whose value is shown. -/
def ShowsMember (text : List Symbol) (m : String × Json) : Prop :=
  ∃ value, text = memberText m.1 value ∧ Shows value m.2

theorem memberText_append (name : String) (text rest : List Symbol) :
    memberText name text ++ rest = .char '"' ::
      (escaped name ++ .char '"' :: .char ':' :: .char ' ' :: (text ++ rest)) := by
  simp [memberText]

/-- A member's text is at least four symbols longer than its value's. -/
theorem length_memberText (name : String) (text : List Symbol) :
    text.length + 4 ≤ (memberText name text).length := by
  simp only [memberText, List.length_cons, List.length_append]
  omega

/-- The other parts of a container behind its first one, each behind a comma. -/
def following (blanks : List Symbol) (texts : List (List Symbol)) : List Symbol :=
  texts.flatMap fun t => .char ',' :: (blanks ++ t)

/-- What follows the first item is a comma, blanks, the next item, and what follows it. -/
theorem following_cons_append (blanks t : List Symbol) (texts : List (List Symbol))
    (rest : List Symbol) : following blanks (t :: texts) ++ rest =
      .char ',' :: (blanks ++ (t ++ (following blanks texts ++ rest))) := by
  simp [following]

theorem length_following_cons (blanks t : List Symbol) (texts : List (List Symbol)) :
    (following blanks (t :: texts)).length =
      1 + blanks.length + t.length + (following blanks texts).length := by
  simp [following]
  omega

/-- A number before a comma, or before what ends a number, is over. -/
theorem endsNumber_following {rest : List Symbol} (blanks : List Symbol)
    (texts : List (List Symbol)) (ends : EndsNumber rest) :
    EndsNumber (following blanks texts ++ rest) := by
  cases texts with
  | nil => exact ends
  | cons t texts =>
    rw [following_cons_append]
    exact endsNumber_of_visible (by decide) rfl

/-- What is read as a value does not start with a closing bracket. -/
theorem visible_of_draftValue {fuel : Nat} {s after : List Symbol} {d : Draft}
    (h : draftValue fuel s = ⟨d, some after⟩) :
    ∃ c rest, skipBlanks s = c :: rest ∧ c ≠ .char ']' := by
  cases fuel with
  | zero => cases h
  | succ fuel =>
    rw [draftValue] at h
    cases visible : skipBlanks s with
    | nil =>
      rw [visible] at h
      cases h
    | cons c rest =>
      refine ⟨c, rest, rfl, ?_⟩
      rintro rfl
      rw [visible] at h
      cases h

section Steps

variable {fuel : Nat} {s start after rest : List Symbol} {d : Draft}

/-- A closing bracket ends the items. -/
theorem draftItems_close (closed : skipBlanks s = .char ']' :: rest) (first : Bool) :
    draftItems (fuel + 1) first s = ⟨([], none), some rest⟩ := by
  rw [draftItems, closed]
  rfl

/-- A closing brace ends the members. -/
theorem draftMembers_close (closed : skipBlanks s = .char '\x7d' :: rest) (first : Bool) :
    draftMembers (fuel + 1) first s = ⟨([], none), some rest⟩ := by
  rw [draftMembers, closed]
  rfl

variable {ds : List Draft} {ms : List (Except Fault String × Draft)}

/-- The first item needs no comma. -/
theorem draftItems_first (value : draftValue fuel s = ⟨d, some after⟩)
    (others : draftItems fuel false after = ⟨(ds, none), some rest⟩) :
    draftItems (fuel + 1) true s = ⟨(d :: ds, none), some rest⟩ := by
  obtain ⟨c, more, visible, unclosed⟩ := visible_of_draftValue value
  rw [draftItems, visible]
  simp only [value, others]
  split
  · next h => cases h
  · next h =>
    cases h
    exact absurd rfl unclosed
  · rfl
  · rfl

/-- Every further item comes after a comma. -/
theorem draftItems_next (comma : skipBlanks s = .char ',' :: start)
    (value : draftValue fuel start = ⟨d, some after⟩)
    (others : draftItems fuel false after = ⟨(ds, none), some rest⟩) :
    draftItems (fuel + 1) false s = ⟨(d :: ds, none), some rest⟩ := by
  obtain ⟨c, more, visible, unclosed⟩ := visible_of_draftValue value
  rw [draftItems, comma]
  simp only [Bool.false_eq_true, if_false, visible, value, others]
  split
  · next h => cases h
  · next h =>
    cases h
    exact absurd rfl unclosed
  · rfl

variable {name : String} {more : List Symbol}

/-- The first member needs no comma. -/
theorem draftMembers_first
    (key : skipBlanks s = .char '"' :: (escaped name ++ .char '"' :: .char ':' :: start))
    (value : draftValue fuel start = ⟨d, some after⟩)
    (others : draftMembers fuel false after = ⟨(ms, none), some rest⟩) :
    draftMembers (fuel + 1) true s = ⟨((.ok name, d) :: ms, none), some rest⟩ := by
  rw [draftMembers, key]
  simp only [if_true, draftString_escaped]
  rw [skipBlanks, if_neg (by decide)]
  simp only [value, others]

/-- Every further member comes after a comma. -/
theorem draftMembers_next (comma : skipBlanks s = .char ',' :: more)
    (key : skipBlanks more = .char '"' :: (escaped name ++ .char '"' :: .char ':' :: start))
    (value : draftValue fuel start = ⟨d, some after⟩)
    (others : draftMembers fuel false after = ⟨(ms, none), some rest⟩) :
    draftMembers (fuel + 1) false s = ⟨((.ok name, d) :: ms, none), some rest⟩ := by
  rw [draftMembers, comma]
  simp only [Bool.false_eq_true, if_false, key, draftString_escaped]
  rw [skipBlanks, if_neg (by decide)]
  simp only [value, others]

/-- An opening bracket starts the items of an array. -/
theorem draftValue_array (each : draftItems fuel true s = ⟨(ds, none), some rest⟩) :
    ∃ place, draftValue (fuel + 1) (.char '[' :: s) = ⟨.array place ds none, some rest⟩ := by
  refine ⟨.into (.char '[' :: s), ?_⟩
  have visible : skipBlanks (.char '[' :: s) = .char '[' :: s := rfl
  simp only [draftValue, visible, each]

/-- An opening brace starts the members of an object. -/
theorem draftValue_object (each : draftMembers fuel true s = ⟨(ms, none), some rest⟩) :
    ∃ place,
      draftValue (fuel + 1) (.char '\x7b' :: s) = ⟨.object place ms none, some rest⟩ := by
  refine ⟨.into (.char '\x7b' :: s), ?_⟩
  have visible : skipBlanks (.char '\x7b' :: s) = .char '\x7b' :: s := rfl
  simp only [draftValue, visible, each]

/-- A space before a value is skipped. -/
theorem draftValue_space : draftValue fuel (.char ' ' :: s) = draftValue fuel s :=
  have skipped : skipBlanks (.char ' ' :: s) = skipBlanks s := rfl
  draftValue_congr skipped fuel

end Steps

/-! ## Containers -/

section Containers

variable {blanks : List Symbol} (blank : skipBlanks blanks = []) {texts : List (List Symbol)}
  {fuel : Nat} {s closing rest : List Symbol}

include blank

/-- The items after the first are read one by one, up to the closing bracket. -/
theorem draftItems_following {js : List Json} (shown : List.Forall₂ Shows texts js)
    (enough : 2 * (following blanks texts).length < fuel)
    (closed : skipBlanks closing = .char ']' :: rest)
    (here : skipBlanks s = skipBlanks (following blanks texts ++ closing)) :
    ∃ ds, draftItems fuel false s = ⟨(ds, none), some rest⟩ ∧
      ∀ levels, (∀ j ∈ js, j.depth ≤ levels) → readItems levels ds = .ok js := by
  induction shown generalizing fuel s with
  | nil =>
    obtain ⟨fuel, rfl⟩ := Nat.exists_eq_add_of_lt enough
    exact ⟨[], draftItems_close (here.trans closed) false, fun _ _ => by rw [readItems]⟩
  | @cons t j texts js head _ ih =>
    obtain ⟨fuel, rfl⟩ : ∃ f, fuel = f + 1 := Nat.exists_eq_add_of_le' (by omega)
    rw [length_following_cons] at enough
    rw [following_cons_append] at here
    obtain ⟨d, after, value, behind, read⟩ := head fuel (following blanks texts ++ closing)
      (by omega) (endsNumber_following blanks texts (endsNumber_of_visible (by decide) closed))
    obtain ⟨ds, others, readOthers⟩ := @ih fuel after (by omega) behind
    rw [← draftValue_congr (skipBlanks_append blank _)] at value
    refine ⟨d :: ds, draftItems_next here value others, fun levels flat => ?_⟩
    obtain ⟨first, flat⟩ := List.forall_mem_cons.1 flat
    rw [readItems, read levels first, ok_bind, readOthers levels flat]
    rfl

/-- The members after the first are read one by one, up to the closing brace. -/
theorem draftMembers_following {ms : Members} (shown : List.Forall₂ ShowsMember texts ms)
    (enough : 2 * (following blanks texts).length < fuel)
    (closed : skipBlanks closing = .char '\x7d' :: rest)
    (here : skipBlanks s = skipBlanks (following blanks texts ++ closing)) :
    ∃ ds, draftMembers fuel false s = ⟨(ds, none), some rest⟩ ∧
      ∀ levels, (∀ m ∈ ms, m.2.depth ≤ levels) → readMembers levels ds = .ok ms := by
  induction shown generalizing fuel s with
  | nil =>
    obtain ⟨fuel, rfl⟩ := Nat.exists_eq_add_of_lt enough
    exact ⟨[], draftMembers_close (here.trans closed) false, fun _ _ => by rw [readMembers]⟩
  | @cons t m texts ms head _ ih =>
    obtain ⟨fuel, rfl⟩ : ∃ f, fuel = f + 1 := Nat.exists_eq_add_of_le' (by omega)
    obtain ⟨text, rfl, shown⟩ := head
    have longer := length_memberText m.1 text
    rw [length_following_cons] at enough
    rw [following_cons_append, memberText_append] at here
    obtain ⟨d, after, value, behind, read⟩ := shown fuel (following blanks texts ++ closing)
      (by omega) (endsNumber_following blanks texts (endsNumber_of_visible (by decide) closed))
    obtain ⟨ds, others, readOthers⟩ := @ih fuel after (by omega) behind
    rw [← draftValue_space] at value
    refine ⟨(.ok m.1, d) :: ds, draftMembers_next here (skipBlanks_append blank _) value others,
      fun levels flat => ?_⟩
    obtain ⟨first, flat⟩ := List.forall_mem_cons.1 flat
    rw [readMembers, ok_bind, read levels first, ok_bind, readOthers levels flat]
    rfl

/-- **An array of values that are shown is shown.** -/
theorem shows_array {t : List Symbol} {j : Json} {js : List Json} (first : Shows t j)
    (others : List.Forall₂ Shows texts js) (closes : skipBlanks closing = []) :
    Shows (.char '[' :: (blanks ++ (t ++ (following blanks texts ++ (closing ++ [.char ']'])))))
      (.array (j :: js)) := by
  intro fuel rest enough _
  simp only [List.length_cons, List.length_append] at enough
  obtain ⟨fuel, rfl⟩ : ∃ f, fuel = f + 2 := Nat.exists_eq_add_of_le' (by omega)
  have closed : skipBlanks (closing ++ .char ']' :: rest) = .char ']' :: rest :=
    skipBlanks_append closes _
  obtain ⟨d, after, value, behind, read⟩ := first fuel
    (following blanks texts ++ (closing ++ .char ']' :: rest)) (by omega)
    (endsNumber_following blanks texts (endsNumber_of_visible (by decide) closed))
  obtain ⟨ds, items, readOthers⟩ :=
    draftItems_following blank others (by omega : _ < fuel) closed behind
  rw [← draftValue_congr (skipBlanks_append blank _)] at value
  obtain ⟨place, whole⟩ := draftValue_array (draftItems_first value items)
  refine ⟨.array place (d :: ds) none, rest, ?_, rfl, fun levels deep => ?_⟩
  · simpa only [List.cons_append, List.append_assoc, List.nil_append] using whole
  · obtain ⟨levels, rfl⟩ : ∃ l, levels = l + 1 :=
      Nat.exists_eq_add_of_le' (Nat.le_trans (depth_array_pos _) deep)
    obtain ⟨flat, flats⟩ := List.forall_mem_cons.1 (depth_array_le_iff.1 deep)
    rw [Draft.read, readItems, read levels flat, ok_bind, readOthers levels flats]
    rfl

/-- **An object of members whose values are shown is shown.** -/
theorem shows_object {t : List Symbol} {m : String × Json} {ms : Members} (first : ShowsMember t m)
    (others : List.Forall₂ ShowsMember texts ms) (closes : skipBlanks closing = []) :
    Shows (.char '\x7b' :: (blanks ++ (t ++ (following blanks texts ++
      (closing ++ [.char '\x7d']))))) (.object (m :: ms)) := by
  intro fuel rest enough _
  obtain ⟨text, rfl, first⟩ := first
  have longer := length_memberText m.1 text
  simp only [List.length_cons, List.length_append] at enough
  obtain ⟨fuel, rfl⟩ : ∃ f, fuel = f + 2 := Nat.exists_eq_add_of_le' (by omega)
  have closed : skipBlanks (closing ++ .char '\x7d' :: rest) = .char '\x7d' :: rest :=
    skipBlanks_append closes _
  obtain ⟨d, after, value, behind, read⟩ := first fuel
    (following blanks texts ++ (closing ++ .char '\x7d' :: rest)) (by omega)
    (endsNumber_following blanks texts (endsNumber_of_visible (by decide) closed))
  obtain ⟨ds, members, readOthers⟩ :=
    draftMembers_following blank others (by omega : _ < fuel) closed behind
  rw [← draftValue_space] at value
  have key := skipBlanks_append blank (memberText m.1 text ++
    (following blanks texts ++ (closing ++ .char '\x7d' :: rest)))
  rw [memberText_append] at key
  obtain ⟨place, whole⟩ := draftValue_object (draftMembers_first key value members)
  refine ⟨.object place ((.ok m.1, d) :: ds) none, rest, ?_, rfl, fun levels deep => ?_⟩
  · simpa only [List.cons_append, List.append_assoc, List.nil_append, memberText] using whole
  · obtain ⟨levels, rfl⟩ : ∃ l, levels = l + 1 :=
      Nat.exists_eq_add_of_le' (Nat.le_trans (depth_object_pos _) deep)
    obtain ⟨flat, flats⟩ := List.forall_mem_cons.1 (depth_object_le_iff.1 deep)
    rw [Draft.read, readMembers, ok_bind, read levels flat, ok_bind, readOthers levels flats]
    rfl

end Containers

/-! ## Values without parts -/

/-- A text shows a value when the reader drafts it in one step and the draft reads as the value. -/
theorem shows_of_step {text : List Symbol} {j : Json} {d : Draft}
    (step : ∀ fuel rest, draftValue (fuel + 1) (text ++ rest) = ⟨d, some rest⟩)
    (read : ∀ levels, j.depth ≤ levels → d.read levels = .ok j) : Shows text j := by
  intro fuel rest enough _
  obtain ⟨fuel, rfl⟩ := Nat.exists_eq_add_of_lt enough
  exact ⟨d, rest, step _ rest, rfl, read⟩

theorem shows_null : Shows (Symbol.ofText "null") .null :=
  shows_of_step (fun _ _ => rfl) fun _ _ => rfl

theorem shows_bool (b : Bool) : Shows (Symbol.ofText (Json.bool b).compact) (.bool b) := by
  cases b with
  | false => exact shows_of_step (fun _ _ => rfl) fun _ _ => rfl
  | true => exact shows_of_step (fun _ _ => rfl) fun _ _ => rfl

theorem shows_string (s : String) : Shows (Symbol.ofText (quote s)) (.string s) := by
  rw [ofText_quote]
  refine shows_of_step (d := .string (.ok s)) (fun fuel rest => ?_) fun _ _ => rfl
  have visible (t : List Symbol) : skipBlanks (.char '"' :: t) = .char '"' :: t := rfl
  simp only [List.cons_append, List.append_assoc, List.nil_append, draftValue, visible,
    draftString_escaped]

/-- A number that reads back is shown by its text. -/
theorem shows_number {n : JsonNumber} (h : n.ReadsBack) :
    Shows (Symbol.ofText n.toText) (.number n) := by
  intro fuel rest enough ends
  obtain ⟨fuel, rfl⟩ := Nat.exists_eq_add_of_lt enough
  obtain ⟨r, value, blank⟩ := exists_rest_of_readsBack h _ ends
  exact ⟨_, r ++ rest, value, skipBlanks_append blank rest, fun _ _ => rfl⟩

theorem shows_empty_array : Shows (Symbol.ofText "[]") (.array []) := by
  intro fuel rest enough _
  obtain ⟨fuel, rfl⟩ : ∃ f, fuel = f + 2 :=
    Nat.exists_eq_add_of_le' (Nat.le_trans (by decide) enough)
  have closed : skipBlanks (.char ']' :: rest) = .char ']' :: rest := rfl
  obtain ⟨place, value⟩ := draftValue_array (@draftItems_close fuel _ rest closed true)
  refine ⟨_, rest, value, rfl, fun levels deep => ?_⟩
  obtain ⟨levels, rfl⟩ : ∃ l, levels = l + 1 :=
    Nat.exists_eq_add_of_le' (Nat.le_trans (depth_array_pos _) deep)
  rfl

theorem shows_empty_object : Shows (Symbol.ofText "\x7b\x7d") (.object []) := by
  intro fuel rest enough _
  obtain ⟨fuel, rfl⟩ : ∃ f, fuel = f + 2 :=
    Nat.exists_eq_add_of_le' (Nat.le_trans (by decide) enough)
  have closed : skipBlanks (.char '\x7d' :: rest) = .char '\x7d' :: rest := rfl
  obtain ⟨place, value⟩ := draftValue_object (@draftMembers_close fuel _ rest closed true)
  refine ⟨_, rest, value, rfl, fun levels deep => ?_⟩
  obtain ⟨levels, rfl⟩ : ∃ l, levels = l + 1 :=
    Nat.exists_eq_add_of_le' (Nat.le_trans (depth_object_pos _) deep)
  rfl

/-! ## Printed values -/

/-- A value all of whose numbers are read from their text. -/
inductive ReadsBack : Json → Prop where
  | null : ReadsBack .null
  | bool (b : Bool) : ReadsBack (.bool b)
  | number {n : JsonNumber} (back : n.ReadsBack) : ReadsBack (.number n)
  | string (s : String) : ReadsBack (.string s)
  | array {items : List Json} (inner : ∀ j ∈ items, j.ReadsBack) : ReadsBack (.array items)
  | object {members : Members} (inner : ∀ m ∈ members, m.2.ReadsBack) :
      ReadsBack (.object members)

/-- The items are printed one by one. -/
theorem prettyItems_eq (level : Nat) (items : List Json) :
    prettyItems level items = items.map (prettyAt level) := by
  induction items with
  | nil => rfl
  | cons j rest ih => rw [prettyItems, ih, List.map_cons]

/-- The members are printed one by one, each after its quoted name. -/
theorem prettyMembers_eq (level : Nat) (members : Members) :
    prettyMembers level members =
      members.map fun m => quote m.1 ++ ": " ++ m.2.prettyAt level := by
  induction members with
  | nil => rfl
  | cons m rest ih => rw [prettyMembers, ih, List.map_cons]

theorem ofText_append (s t : String) :
    Symbol.ofText (s ++ t) = Symbol.ofText s ++ Symbol.ofText t := by
  simp [Symbol.ofText]

theorem skipBlanks_replicate (n : Nat) : skipBlanks (List.replicate n (.char ' ')) = [] := by
  induction n with
  | zero => rfl
  | succ n ih => exact ih

/-- A line break and its indentation are blanks. -/
theorem skipBlanks_lineBreak (level : Nat) :
    skipBlanks (Symbol.ofText (lineBreak level)) = [] := by
  have blanks := skipBlanks_replicate (2 * level)
  rw [lineBreak, ofText_append]
  simpa [Symbol.ofText, skipBlanks] using blanks

/-- Lines joined by commas are the first line and what follows it. -/
theorem ofText_intercalate (blanks line : String) (lines : List String) :
    Symbol.ofText (("," ++ blanks).intercalate (line :: lines)) =
      Symbol.ofText line ++ following (Symbol.ofText blanks) (lines.map Symbol.ofText) := by
  induction lines generalizing line with
  | nil => simp [following]
  | cons next lines ih =>
    rw [String.intercalate_cons_cons, ofText_append, ofText_append, ofText_append, ih,
      List.map_cons, List.append_assoc, ← List.append_nil (following _ (_ :: _)),
      following_cons_append, List.append_nil]
    rfl

/-- A bracketed block is its opening, its first line, what follows, and its closing. -/
theorem ofText_bracketLines {opening closing : String} {o c : Symbol}
    (opens : Symbol.ofText opening = [o]) (closes : Symbol.ofText closing = [c]) (level : Nat)
    (line : String) (lines : List String) :
    Symbol.ofText (bracketLines level opening closing (line :: lines)) =
      o :: (Symbol.ofText (lineBreak (level + 1)) ++ (Symbol.ofText line ++
        (following (Symbol.ofText (lineBreak (level + 1))) (lines.map Symbol.ofText) ++
          (Symbol.ofText (lineBreak level) ++ [c])))) := by
  simp only [bracketLines, List.isEmpty_cons, Bool.false_eq_true, if_false, ofText_append,
    ofText_intercalate, List.append_assoc, opens, closes, List.cons_append, List.nil_append]

/-- A quoted name, a colon and a text that shows a value show the member. -/
theorem showsMember_line (name : String) {text : String} {j : Json}
    (shown : Shows (Symbol.ofText text) j) :
    ShowsMember (Symbol.ofText (quote name ++ ": " ++ text)) (name, j) := by
  refine ⟨Symbol.ofText text, ?_, shown⟩
  rw [ofText_append, ofText_append, ofText_quote, memberText]
  simp [Symbol.ofText]

/-- **A printed value is shown**, on whatever level it starts. -/
theorem shows_prettyAt {j : Json} (back : j.ReadsBack) (level : Nat) :
    Shows (Symbol.ofText (j.prettyAt level)) j := by
  induction j generalizing level with
  | null => exact shows_null
  | bool b => exact shows_bool b
  | number n =>
    cases back with
    | number back => exact shows_number back
  | string s => exact shows_string s
  | array items ih =>
    cases back with
    | array inner =>
      rw [prettyAt, prettyItems_eq]
      have each : ∀ j ∈ items, Shows (Symbol.ofText (j.prettyAt (level + 1))) j :=
        fun j hj => ih j hj (inner j hj) _
      have opens : Symbol.ofText "[" = [.char '['] := rfl
      have closes : Symbol.ofText "]" = [.char ']'] := rfl
      cases items with
      | nil => exact shows_empty_array
      | cons j rest =>
        obtain ⟨first, others⟩ := List.forall_mem_cons.1 each
        rw [List.map_cons, ofText_bracketLines opens closes, List.map_map]
        refine shows_array (skipBlanks_lineBreak _) first ?_ (skipBlanks_lineBreak _)
        simpa only [List.forall₂_map_left_iff, List.forall₂_same, Function.comp_apply] using others
  | object members ih =>
    cases back with
    | object inner =>
      rw [prettyAt, prettyMembers_eq]
      have each : ∀ m ∈ members, ShowsMember
          (Symbol.ofText (quote m.1 ++ ": " ++ m.2.prettyAt (level + 1))) m :=
        fun m hm => showsMember_line m.1 (ih m hm (inner m hm) _)
      have opens : Symbol.ofText "\x7b" = [.char '\x7b'] := rfl
      have closes : Symbol.ofText "\x7d" = [.char '\x7d'] := rfl
      cases members with
      | nil => exact shows_empty_object
      | cons m rest =>
        obtain ⟨first, others⟩ := List.forall_mem_cons.1 each
        rw [List.map_cons, ofText_bracketLines opens closes, List.map_map]
        refine shows_object (skipBlanks_lineBreak _) first ?_ (skipBlanks_lineBreak _)
        simpa only [List.forall₂_map_left_iff, List.forall₂_same, Function.comp_apply] using others

/-- **A typed reader reads a printed value as it reads its draft**, and from the draft any reader
that may go deep enough takes the value. -/
theorem exists_readText_pretty {j : Json} (back : j.ReadsBack) :
    ∃ d : Draft, (∀ levels, j.depth ≤ levels → d.read levels = .ok j) ∧
      ∀ {α : Type} (read : Draft → Except ReadError α), readText read j.pretty = read d := by
  have ends : EndsNumber [] := by rintro _ ⟨⟩
  obtain ⟨d, after, value, blank, deep⟩ := shows_prettyAt back 0
    (2 * (Symbol.ofText j.pretty).length + 2) [] (Nat.lt_add_of_pos_right Nat.two_pos) ends
  rw [List.append_nil] at value
  refine ⟨d, deep, fun {α} read => ?_⟩
  have closed : trailing? (some after) = none := by
    rw [trailing?, Option.map_some, blank]
    rfl
  change draft (Symbol.ofText j.pretty) = _ at value
  rw [readText, value]
  dsimp only
  rw [closed]
  exact bind_pure _

end Json

end RpcBridge
