import Mathlib.Data.List.TakeWhile
import RpcBridge.Proofs.Client.Emitted
import RpcBridge.Proofs.Number.Numeral

/-!
# Proofs/Client/Listing — reading the names off a declaration

A declaration lists names: an enum its members, an interface its fields, a template its parameters.
Here they are read off its text, character by character.  A name is as long as letters and digits
follow one another, and what stands behind it is passed over, up to the next comma outside of
brackets and strings.

* `Declaration.listed`, `Declaration.parameters` — the names that are read;
* `Cursor.Leads`, `Cursor.Passes` — what the reader finds in a piece of text, and where it stands
  behind it;
* `passes_typeExpr`, `passes_literal` — types and enum literals are passed over;
* `listed_declaration`, `parameters_declaration` — the declaration of what can be rendered lists
  the names of its definition.
-/

namespace RpcBridge.Client

/-! ## The reader -/

/-- Where the reader of a list stands. -/
inductive Cursor where
  /-- In front of the opening bracket, or of the blank behind a comma. -/
  | front
  /-- In a name, behind some of its letters. -/
  | name (letters : List Char)
  /-- Behind a name, with a number of brackets opened since. -/
  | rest (opened : Nat)
  | string (opened : Nat)
  /-- In a string, behind a backslash. -/
  | escape (opened : Nat)

namespace Cursor

/-- Where the reader stands behind a character that is not part of a name. -/
def behind (opened : Nat) (c : Char) : Cursor :=
  if c = '"' then .string opened
  else if c = ',' ∧ opened = 0 then .front
  else if c ∈ ['<', '[', '\x7b'] then .rest (opened + 1)
  else if c ∈ ['>', ']', '\x7d'] then .rest (opened - 1)
  else .rest opened

/-- Where the reader stands behind a character. -/
def next : Cursor → Char → Cursor
  | .front, _ => .name []
  | .name letters, c => if continuesIdentifier c then .name (letters ++ [c]) else behind 0 c
  | .rest opened, c => behind opened c
  | .string opened, c =>
    if c = '"' then .rest opened else if c = '\\' then .escape opened else .string opened
  | .escape opened, _ => .string opened

/-- The name that ends in front of a character. -/
def ended? : Cursor → Char → Option String
  | .name letters, c =>
    if letters = [] ∨ continuesIdentifier c then none else some (String.ofList letters)
  | _, _ => none

/-- The names that are read in a text. -/
def names : Cursor → List Char → List String
  | _, [] => []
  | r, c :: text => (r.ended? c).toList ++ (r.next c).names text

end Cursor

/-- The names that the body of a declaration lists. -/
def Declaration.listed (E : Declaration) : List String := Cursor.front.names E.body.toList

/-- The parameters that the name of a declaration lists. -/
def Declaration.parameters (E : Declaration) : List String :=
  Cursor.front.names (E.name.toList.dropWhile (· ≠ '<'))

example : (Declaration.mk "enum" "Mood" "\x7bGOOD = \"a, b: c\", BAD = -1\x7d").listed =
    ["GOOD", "BAD"] := by decide

/-! ## Over a piece of text -/

namespace Cursor

/-- Over a text the reader gets from one place to another, and finds some names on the way. -/
def Leads (r : Cursor) (text : List Char) (found : List String) (r' : Cursor) : Prop :=
  ∀ more, r.names (text ++ more) = found ++ r'.names more

section Leads

variable {r r' r'' : Cursor} {s t : List Char} {found found' : List String}

/-- Reading nothing lists nothing. -/
theorem Leads.nil : r.Leads [] [] r := fun _ => rfl

/-- Over one character the reader makes one step. -/
theorem Leads.single (r : Cursor) (c : Char) : r.Leads [c] (r.ended? c).toList (r.next c) :=
  fun _ => rfl

/-- What is found over two texts is found over the one and then over the other. -/
theorem Leads.append (h : r.Leads s found r') (h' : r'.Leads t found' r'') :
    r.Leads (s ++ t) (found ++ found') r'' := by
  intro more
  rw [List.append_assoc, h, h', List.append_assoc]

/-- One character is read, and the rest from where it leaves the reader. -/
theorem Leads.cons {c : Char} (h : r.Leads [c] [] r') (h' : r'.Leads t found r'') :
    r.Leads (c :: t) found r'' := h.append h'

end Leads

/-- A text that is passed over behind a name, with that many brackets open. -/
def PassesAt (opened : Nat) (text : String) : Prop :=
  (rest opened).Leads text.toList [] (rest opened)

/-- A text that is passed over behind a name, whatever is open. -/
def Passes (text : String) : Prop := ∀ opened, PassesAt opened text

section Passes

variable {opened : Nat} {s t : String}

/-- What passes in two pieces at one depth passes as a whole. -/
theorem PassesAt.append (hs : PassesAt opened s) (ht : PassesAt opened t) :
    PassesAt opened (s ++ t) := by
  rw [PassesAt, String.toList_append]
  exact Leads.append hs ht

/-- What passes in two pieces passes as a whole. -/
theorem Passes.append (hs : Passes s) (ht : Passes t) : Passes (s ++ t) :=
  fun opened => (hs opened).append (ht opened)

/-- Texts with a separator that is passed over as well. -/
theorem PassesAt.intercalate {separator : String} {texts : List String}
    (apart : PassesAt opened separator) (each : ∀ t ∈ texts, PassesAt opened t) :
    PassesAt opened (separator.intercalate texts) := by
  induction texts with
  | nil => exact Leads.nil
  | cons t rest ih =>
    rw [List.forall_mem_cons] at each
    cases rest with
    | nil => exact each.1
    | cons u rest =>
      rw [String.intercalate_cons_cons]
      exact (each.1.append apart).append (ih each.2)

/-- The characters at which the reader does anything else than going on. -/
def marks : List Char := ['"', ',', '<', '>', '[', ']', '\x7b', '\x7d']

/-- A character that marks nothing leaves the reader where it is. -/
theorem behind_plain {c : Char} (h : c ∉ marks) : behind opened c = rest opened := by
  simp only [marks, List.mem_cons, List.not_mem_nil, or_false, not_or] at h
  simp [behind, h]

/-- A text without marks is passed over. -/
theorem Passes.plain (h : s.toList.all (· ∉ marks) = true) : Passes s := by
  intro opened
  rw [PassesAt]
  generalize s.toList = text at h
  induction text with
  | nil => exact .nil
  | cons c text ih =>
    rw [List.all_cons, Bool.and_eq_true, decide_eq_true_eq] at h
    have here : (rest opened).Leads [c] [] (rest opened) := by
      have step := Leads.single (rest opened) c
      rwa [show (rest opened).next c = rest opened from behind_plain h.1] at step
    exact here.cons (ih h.2)

/-- **A text in brackets is passed over** if it is with one bracket more. -/
theorem Passes.bracketed {o c : String} (opens : o ∈ ["<", "[", "\x7b"])
    (closes : c ∈ [">", "]", "\x7d"]) (inner : ∀ opened, PassesAt (opened + 1) s) :
    Passes (o ++ s ++ c) := by
  intro opened
  have first : (rest opened).Leads o.toList [] (rest (opened + 1)) := by
    simp only [List.mem_cons, List.not_mem_nil, or_false] at opens
    rcases opens with rfl | rfl | rfl <;> exact Leads.single (rest opened) _
  have last : (rest (opened + 1)).Leads c.toList [] (rest opened) := by
    simp only [List.mem_cons, List.not_mem_nil, or_false] at closes
    rcases closes with rfl | rfl | rfl <;> exact Leads.single (rest (opened + 1)) _
  rw [PassesAt, String.toList_append, String.toList_append]
  exact (first.append (inner opened)).append last

/-- Texts with commas between them, in brackets. -/
theorem passesAt_separated {texts : List String} (each : ∀ t ∈ texts, Passes t) (opened : Nat) :
    PassesAt (opened + 1) (", ".intercalate texts) := by
  refine .intercalate ?_ fun t ht => each t ht _
  have comma : (rest (opened + 1)).Leads [','] [] (rest (opened + 1)) := Leads.single _ _
  exact comma.cons (Leads.single (rest (opened + 1)) ' ')

end Passes

end Cursor

open Cursor

/-! ## Types and literals -/

/-- All letters of an identifier may go on an identifier, the first one too. -/
theorem continues_of_isIdentifier {name : String} (h : isIdentifier name = true) :
    ∀ c ∈ name.toList, continuesIdentifier c = true := by
  obtain ⟨first, others, letters, starts, continues⟩ := isIdentifier_iff.1 h
  rw [letters]
  refine List.forall_mem_cons.2 ⟨continuesIdentifier_iff.2 (Or.inl starts), fun c hc => ?_⟩
  exact continuesIdentifier_iff.2 (continues c hc)

/-- An identifier ends in front of the parameters of a template. -/
theorem ne_of_isIdentifier {name : String} (h : isIdentifier name = true) :
    ∀ c ∈ name.toList, c ≠ '<' := by
  rintro _ hc rfl
  exact absurd (continues_of_isIdentifier h _ hc) (by decide)

/-- What may stand in an identifier does not mark anything. -/
theorem not_mem_marks {c : Char} (h : continuesIdentifier c = true) : c ∉ marks := by
  have apart : marks.all (fun c => !continuesIdentifier c) = true := by decide
  intro marked
  have stops := List.all_eq_true.1 apart c marked
  rw [h] at stops
  cases stops

/-- An identifier passes without opening anything. -/
theorem passes_of_isIdentifier {name : String} (h : isIdentifier name = true) : Passes name :=
  .plain <| List.all_eq_true.2 fun c hc =>
    decide_eq_true (not_mem_marks (continues_of_isIdentifier h c hc))

/-- An array type is passed over with its element. -/
theorem passes_array {element : String} (h : Passes element) :
    Passes ("Array<" ++ element ++ ">") := by
  have split : "Array<" ++ element ++ ">" = "Array" ++ ("<" ++ element ++ ">") := by
    rw [← String.append_assoc, ← String.append_assoc]
    rfl
  have word : Passes "Array" := .plain (by decide)
  rw [split]
  exact word.append (.bracketed (o := "<") (c := ">") (by simp) (by simp) fun _ => h _)

/-- An applied template is passed over with its arguments. -/
theorem passes_applied {name : String} {args : List String} (named : isIdentifier name = true)
    (each : ∀ t ∈ args, Passes t) : Passes (name ++ "<" ++ ", ".intercalate args ++ ">") := by
  have split : name ++ "<" ++ ", ".intercalate args ++ ">" =
      name ++ ("<" ++ ", ".intercalate args ++ ">") := by
    rw [← String.append_assoc, ← String.append_assoc]
  rw [split]
  exact (passes_of_isIdentifier named).append
    (.bracketed (o := "<") (c := ">") (by simp) (by simp) (passesAt_separated each))

/-- A dictionary type is passed over: its key stands in brackets inside of braces. -/
theorem passes_dictionary {key value : String} (keys : Passes key) (values : Passes value) :
    Passes ("\x7b [k: " ++ key ++ "]: " ++ value ++ " \x7d") := by
  have split : "\x7b [k: " ++ key ++ "]: " ++ value ++ " \x7d" =
      "\x7b" ++ (" " ++ ("[" ++ ("k: " ++ key) ++ "]") ++ (": " ++ value ++ " ")) ++ "\x7d" := by
    rw [← String.toList_inj]
    simp
  have blank : Passes " " := .plain (by decide)
  have bound : Passes ("k: " ++ key) := .append (.plain (by decide)) keys
  have typed : Passes (": " ++ value ++ " ") := .append (.append (.plain (by decide)) values) blank
  have index : Passes ("[" ++ ("k: " ++ key) ++ "]") :=
    .bracketed (by simp) (by simp) fun _ => bound _
  rw [split]
  exact .bracketed (by simp) (by simp) fun _ => ((blank.append index).append typed) _

/-- The texts of a list of types are taken one by one. -/
theorem TypeExpr.texts_eq_map (es : List TypeExpr) : texts es = es.map toText := by
  induction es with
  | nil => rfl
  | cons e rest ih => rw [texts, List.map_cons, ih]

/-- **The type of what can be rendered is passed over.** -/
theorem passes_typeExpr {d : Descriptor} (h : d.Renderable) : Passes d.typeExpr.toText := by
  have all {ds : List Descriptor} (each : ∀ d ∈ ds, Passes d.typeExpr.toText) :
      ∀ t ∈ TypeExpr.texts (Descriptor.typeExprs ds), Passes t := by
    rw [TypeExpr.texts_eq_map, Descriptor.typeExprs_eq_map, List.map_map]
    exact List.forall_mem_map.2 each
  have scalar (kind : ScalarKind) : Passes (TypeExpr.ofScalar kind).toText := by
    cases kind with
    | anyList =>
      have split : (TypeExpr.ofScalar .anyList).toText = "Array<" ++ "any" ++ ">" := rfl
      have any : Passes "any" := .plain (by decide)
      rw [split]
      exact passes_array any
    | _ => exact .plain (by decide)
  induction h with
  | scalar kind => exact scalar kind
  | temporal kind => exact Passes.plain (s := "Date") (by decide)
  | enum named => exact passes_of_isIdentifier named
  | param named => exact passes_of_isIdentifier named
  | list _ ih => exact passes_array ih
  | variadic _ ih => exact passes_array ih
  | tuple _ ih => exact .bracketed (by simp) (by simp) (passesAt_separated (all ih))
  | mapping _ _ ihKey ihValue => exact passes_dictionary ihKey ihValue
  | optional _ ih => exact ih.append (.plain (by decide))
  | union _ _ ih =>
    have bar : Passes " | " := .plain (by decide)
    exact fun opened => .intercalate (bar opened) fun t ht => all ih t ht opened
  | wrapper _ ih => exact ih
  | record named => exact passes_of_isIdentifier named
  | @template name params fields named bound =>
    refine passes_applied named ?_
    rw [TypeExpr.texts_eq_map, List.map_map]
    exact List.forall_mem_map.2 fun p hp => passes_of_isIdentifier (bound p hp)
  | application _ origin _ _ ih =>
    exact passes_applied (Descriptor.Renderable.template_iff.1 origin).1 (all ih)
  | plain _ ih => exact ih

/-- A string literal is passed over, whatever it spells. -/
theorem leads_spelled {inner chars : List Char} (h : Json.Spells inner chars) (opened : Nat) :
    (string opened).Leads inner [] (string opened) := by
  have plain {c : Char} (quote : c ≠ '"') (slash : c ≠ '\\') :
      (string opened).Leads [c] [] (string opened) := by
    have step := Leads.single (string opened) c
    rwa [show (string opened).next c = string opened by simp [next, quote, slash]] at step
  have digit (i : Fin 16) : (string opened).Leads [Nat.digitChar i] [] (string opened) := by
    refine plain ?_ ?_ <;> revert i <;> decide
  have escaped (e : Char) : (string opened).Leads ['\\', e] [] (string opened) :=
    (Leads.single (string opened) '\\').append (Leads.single (escape opened) e)
  induction h with
  | nil => exact .nil
  | plain quote slash _ _ ih => exact (plain quote slash).cons ih
  | short _ _ ih => exact (escaped _).append ih
  | code i j k l _ _ ih =>
    exact (escaped 'u').append
      ((digit i).cons ((digit j).cons ((digit k).cons ((digit l).cons ih))))

/-- A quoted text is passed over, also one with commas and brackets in it. -/
theorem passes_quote (text : String) : Passes (Json.quote text) := by
  obtain ⟨inner, spelled, literal⟩ := Json.isLiteral_quote text
  intro opened
  have opens : (rest opened).Leads ['"'] [] (string opened) := Leads.single _ _
  have closes : (string opened).Leads ['"'] [] (rest opened) := Leads.single _ _
  rw [PassesAt, literal]
  exact opens.cons ((leads_spelled spelled opened).append closes)

/-- The characters of a number. -/
def Numeric (c : Char) : Prop := c.isDigit = true ∨ c = '.' ∨ c = '-'

/-- The digits of a number are numeric. -/
theorem numeric_toDigits (n : Nat) : ∀ c ∈ Nat.toDigits 10 n, Numeric c := fun c hc =>
  Or.inl (List.all_eq_true.1 (Numeral.isDigit_toDigits n) c hc)

/-- Zeros are numeric. -/
theorem numeric_zeros (n : Nat) : ∀ c ∈ Number.Layout.zeros n, Numeric c := fun _ hc =>
  Or.inl (List.eq_of_mem_replicate hc ▸ rfl)

/-- A number that is written positionally has digits and a point. -/
theorem numeric_positionalText {digits : List Char} (h : ∀ c ∈ digits, Numeric c) (point : Int) :
    ∀ c ∈ (Number.Layout.plain.positionalText digits point).toList, Numeric c := by
  have zero : Numeric '0' := Or.inl rfl
  have dot : Numeric '.' := Or.inr (Or.inl rfl)
  unfold Number.Layout.positionalText
  split
  · have start : ∀ c ∈ "0.".toList, Numeric c := by simp [zero, dot]
    have digits : ∀ c ∈ (String.ofList (Number.Layout.zeros (-point).toNat ++ digits)).toList,
        Numeric c := by
      rw [String.toList_ofList]
      exact List.forall_mem_append.2 ⟨numeric_zeros _, h⟩
    rw [String.toList_append]
    exact List.forall_mem_append.2 ⟨start, digits⟩
  · dsimp only
    split
    · rw [String.toList_append, String.toList_ofList, List.forall_mem_append,
        List.forall_mem_append]
      exact ⟨⟨h, numeric_zeros _⟩, nofun⟩
    · rw [String.toList_ofList, List.forall_mem_append, List.forall_mem_cons]
      exact ⟨fun c hc => h c (List.mem_of_mem_take hc), dot,
        fun c hc => h c (List.mem_of_mem_drop hc)⟩

/-- A decimal's text is numeric. -/
theorem numeric_decimalText (d : Number.Decimal) :
    ∀ c ∈ (Number.Layout.plain.decimalText d).toList, Numeric c := by
  refine numeric_positionalText (fun c hc => ?_) _
  have kept := (List.dropWhile_sublist _).subset (List.mem_reverse.1 hc)
  exact numeric_toDigits d.digits c (List.mem_reverse.1 kept)

/-- The characters of a number mark nothing. -/
theorem passes_of_numeric {text : String} (h : ∀ c ∈ text.toList, Numeric c) : Passes text := by
  refine .plain (List.all_eq_true.2 fun c hc => decide_eq_true ?_)
  rcases h c hc with digit | rfl | rfl
  · exact not_mem_marks (continuesIdentifier_iff.2 (Or.inr (isDigit_iff.1 digit)))
  · decide
  · decide

/-- A number is passed over. -/
theorem passes_number (x : Double) : Passes x.toText := by
  have signed (negative : Bool) : Passes (if negative then "-" else "") := by
    cases negative <;> exact .plain (by decide)
  cases x with
  | nan => exact Passes.plain (s := "NaN") (by decide)
  | infinity negative =>
    cases negative
    · exact Passes.plain (s := "inf") (by decide)
    · exact Passes.plain (s := "-inf") (by decide)
  | finite x =>
    refine (signed x.negative).append ?_
    split
    · exact Passes.plain (by decide)
    · exact passes_of_numeric (numeric_decimalText _)

/-- A whole number is passed over, with its sign. -/
theorem passes_whole (n : Int) : Passes (toString n) := by
  cases n with
  | ofNat n =>
    have digits : (toString (Int.ofNat n)).toList = Nat.toDigits 10 n := Nat.toList_repr
    exact passes_of_numeric (digits ▸ numeric_toDigits n)
  | negSucc n =>
    have sign : Passes "-" := .plain (by decide)
    have digits : (toString (n + 1)).toList = Nat.toDigits 10 (n + 1) := Nat.toList_repr
    exact sign.append (passes_of_numeric (digits ▸ numeric_toDigits (n + 1)))

/-- **The literal of an enum is passed over.** -/
theorem passes_literal (l : EnumLiteral) : Passes l.toText := by
  cases l with
  | int n => exact passes_whole n.toInt
  | float x => exact passes_number x
  | text s => exact passes_quote s

/-! ## Entries -/

/-- A name with a text behind it, as a list has them. -/
structure Entry (e : String × String) : Prop where
  named : isIdentifier e.1 = true
  passes : Passes e.2
  apart : ∀ c ∈ e.2.toList.head?, continuesIdentifier c = false

/-- Letters and digits that go on a name. -/
theorem leads_letters {letters more : List Char}
    (continues : ∀ c ∈ more, continuesIdentifier c = true) :
    (Cursor.name letters).Leads more [] (.name (letters ++ more)) := by
  induction more generalizing letters with
  | nil =>
    rw [List.append_nil]
    exact .nil
  | cons c more ih =>
    rw [List.forall_mem_cons] at continues
    have here : (Cursor.name letters).Leads [c] [] (.name (letters ++ [c])) := by
      have step := Leads.single (Cursor.name letters) c
      simpa [ended?, next, continues.1] using step
    have there := @ih (letters ++ [c]) continues.2
    rw [List.append_assoc, List.singleton_append] at there
    exact here.cons there

/-- A name ends at a character that does not go on with it. -/
theorem names_of_ends {letters : List Char} {c : Char} {more : List Char} (some : letters ≠ [])
    (ends : continuesIdentifier c = false) :
    (Cursor.name letters).names (c :: more) =
      String.ofList letters :: (rest 0).names (c :: more) := by
  simp [Cursor.names, ended?, next, some, ends]

/-- **The name of an entry is read**, up to the character behind the entry. -/
theorem Entry.leads {e : String × String} (h : Entry e) {c : Char}
    (ends : continuesIdentifier c = false) :
    (Cursor.name []).Leads ((e.1 ++ e.2).toList ++ [c]) [e.1] (behind 0 c) := by
  intro more
  have letters : e.1.toList ≠ [] := by
    obtain ⟨first, others, letters, -⟩ := isIdentifier_iff.1 h.named
    rw [letters]
    exact List.cons_ne_nil _ _
  have after : (rest 0).names (e.2.toList ++ c :: more) = (behind 0 c).names more := h.passes 0 _
  rw [String.toList_append, List.append_assoc, List.append_assoc,
    leads_letters (continues_of_isIdentifier h.named), List.nil_append, List.nil_append,
    List.singleton_append, List.singleton_append, ← after]
  cases text : e.2.toList with
  | nil => rw [List.nil_append, names_of_ends letters ends, String.ofList_toList]
  | cons d others =>
    have apart := h.apart d (by rw [text]; rfl)
    rw [List.cons_append, names_of_ends letters apart, String.ofList_toList]

/-- **The names of entries in brackets are read**, one after the other. -/
theorem names_entries {es : List (String × String)} (each : ∀ e ∈ es, Entry e) {c : Char}
    (closes : continuesIdentifier c = false) (o : Char) :
    front.names (o :: ((", ".intercalate (es.map fun e => e.1 ++ e.2)).toList ++ [c])) =
      es.map (·.1) := by
  change (Cursor.name []).names _ = _
  induction es with
  | nil => exact List.append_nil _
  | cons e others ih =>
    rw [List.forall_mem_cons] at each
    cases others with
    | nil =>
      have last := each.1.leads closes []
      rwa [List.append_nil] at last
    | cons e' others =>
      have comma : continuesIdentifier ',' = false := by decide
      have first := each.1.leads comma
        (' ' :: ((", ".intercalate ((e' :: others).map fun e => e.1 ++ e.2)).toList ++ [c]))
      rw [List.map_cons, List.map_cons, String.intercalate_cons_cons, String.toList_append,
        String.toList_append]
      simp only [List.append_assoc] at first ⊢
      rw [List.map_cons, ← ih each.2]
      exact first

/-! ## Declarations -/

section Declarations

variable {d : Descriptor} {m : Definition}

/-- A member of an enum is an entry, with its literal behind the name. -/
theorem entry_member {m : EnumMember} (named : isIdentifier m.name = true) :
    Entry (m.name, " = " ++ m.value.toText) where
  named := named
  passes := .append (.plain (by decide)) (passes_literal m.value)
  apart := by simp; decide

/-- A field of an interface is an entry, with its type behind the name. -/
theorem entry_field {f : Field} (named : isIdentifier f.1 = true) (typed : f.2.Renderable) :
    Entry (f.1, ": " ++ f.2.typeExpr.toText) where
  named := named
  passes := .append (.plain (by decide)) (passes_typeExpr typed)
  apart := by simp; decide

/-- The entries of an interface are its fields. -/
theorem entries_fields {fields : List Field} (listed : ∀ f ∈ fields, isIdentifier f.1 = true)
    (inner : ∀ f ∈ fields, f.2.Renderable) {name : String} {params? : Option (List String)} :
    ∀ e ∈ (Definition.ofFields name params? (Descriptor.fieldTypes fields)).entries, Entry e := by
  rw [Definition.ofFields, Descriptor.fieldTypes_eq_map, List.map_map]
  exact List.forall_mem_map.2 fun f hf => entry_field (listed f hf) (inner f hf)

/-- A parameter of a template is an entry with nothing behind the name. -/
theorem entry_param {p : String} (named : isIdentifier p = true) : Entry (p, "") where
  named := named
  passes := .plain rfl
  apart := nofun

/-- **The declaration of what can be rendered lists the names of its definition.** -/
theorem listed_declaration (h : d.Renderable) (defines : d.definition? = some m) :
    m.declaration.listed = m.entries.map (·.1) := by
  have each : ∀ e ∈ m.entries, Entry e := by
    cases h with
    | enum _ members =>
      cases defines
      exact List.forall_mem_map.2 fun member hm => entry_member (members member hm)
    | record _ listed inner =>
      cases defines
      exact entries_fields listed inner
    | template _ _ listed inner =>
      cases defines
      exact entries_fields listed inner
    | _ => cases defines
  have closes : continuesIdentifier '\x7d' = false := by decide
  rw [← names_entries each closes '\x7b', Declaration.listed]
  congr 1
  simp [Definition.declaration, braced]

/-- The declaration of what can be rendered lists the parameters of its definition. -/
theorem parameters_declaration (h : d.Renderable) (defines : d.definition? = some m) :
    m.declaration.parameters = m.params?.getD [] := by
  have plain {name : String} (named : isIdentifier name = true) :
      front.names (name.toList.dropWhile (· ≠ '<')) = [] := by
    rw [List.dropWhile_eq_nil_iff.2 fun c hc => decide_eq_true (ne_of_isIdentifier named c hc)]
    rfl
  cases h with
  | enum named =>
    cases defines
    exact plain named
  | record named =>
    cases defines
    exact plain named
  | @template name params fields named bound =>
    cases defines
    have closes : continuesIdentifier '>' = false := by decide
    have each : ∀ e ∈ params.map fun p => (p, ""), Entry e :=
      List.forall_mem_map.2 fun p hp => entry_param (bound p hp)
    have read := names_entries each closes '<'
    simp only [List.map_map, Function.comp_def, String.append_empty, List.map_id'] at read
    have apart : ∀ c ∈ name.toList, decide (c ≠ '<') = true := fun c hc =>
      decide_eq_true (ne_of_isIdentifier named c hc)
    change front.names ((Descriptor.declaredName name params).toList.dropWhile (· ≠ '<')) = params
    rw [Descriptor.declaredName, String.append_assoc, String.append_assoc, String.toList_append,
      List.dropWhile_append_of_pos apart]
    simpa using read
  | _ => cases defines

end Declarations

end RpcBridge.Client
