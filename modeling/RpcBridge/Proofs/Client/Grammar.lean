import RpcBridge.Proofs.Client.Fragments
import RpcBridge.Proofs.Client.Scoping

/-!
# Proofs/Client/Grammar — the form of generated lines

Generated code is a list of lines, put together from the lines of its parts.  It follows a small
grammar: an assignment or a declaration on a line of its own, and a block between a line that opens
it and a line that closes it, indented by four spaces for each block around it.

The paths in it start at the two places that a conversion goes between, or at a temporary.  As long
as these two have no braces and no line break in them, neither has any path, so the blocks can be
told from the text alone: what is open in front of a line is what has been opened there and not yet
closed.

* `IsBlock` — the lines of a block, at some depth;
* `isBlock_of_convert` — generated code is a block;
* `IsBlock.laid` — how far its lines are indented;
* `wellFormed_of_code` — both, of what is generated for a descriptor.
-/

namespace RpcBridge.Client

/-! ## The grammar -/

/-- The name of a temporary. -/
inductive IsTemp : String → Prop where
  | name (t : Temp) (lettered : t.Lettered) : IsTemp t.name

section Grammar

variable (source target : String)

/-- A path that starts at one of two places, or at a temporary. -/
inductive IsPath : String → Prop where
  | source : IsPath source
  | target : IsPath target
  | temp {t : String} (ht : IsTemp t) : IsPath t
  | field {p name : String} (hp : IsPath p) (hname : Identifier name) : IsPath (p ++ "." ++ name)
  | item {p : String} (hp : IsPath p) (i : Nat) : IsPath (p ++ "[" ++ toString i ++ "]")
  | slot {p t : String} (hp : IsPath p) (ht : IsTemp t) : IsPath (p ++ "[" ++ t ++ "]")

/-- What is assigned: what a path holds, as it is or converted, or an empty container. -/
inductive IsOperand : String → Prop where
  | path {p : String} (hp : IsPath source target p) : IsOperand p
  | emptyObject : IsOperand "\x7b\x7d"
  | emptyArray : IsOperand "[]"
  | dateToText {p : String} (hp : IsPath source target p) : IsOperand ("dateToStr(" ++ p ++ ")")
  | dateFromText {p : String} (hp : IsPath source target p) : IsOperand ("strToDate(" ++ p ++ ")")
  | instantToText {p : String} (hp : IsPath source target p) : IsOperand (p ++ ".toISOString()")
  | instantFromText {p : String} (hp : IsPath source target p) :
    IsOperand ("new Date(" ++ p ++ ")")

/-- A statement that fits on a line. -/
inductive IsSimple : String → Prop where
  | assign {p e : String} (hp : IsPath source target p) (he : IsOperand source target e) :
    IsSimple (p ++ " = " ++ e)
  | declare {t : String} (ht : IsTemp t) : IsSimple ("let " ++ t ++ ": any;")

/-- The line that opens a block. -/
inductive IsHeader : String → Prop where
  | forKeys {t p : String} (ht : IsTemp t) (hp : IsPath source target p) :
    IsHeader ("for (var " ++ t ++ " in " ++ p ++ ") \x7b")
  | unlessUndefined {p : String} (hp : IsPath source target p) :
    IsHeader ("if (" ++ p ++ " !== undefined) \x7b")
  | unlessNull {p q : String} (hp : IsPath source target p) (hq : IsPath source target q) :
    IsHeader ("if (" ++ p ++ " === null) \x7b " ++ q ++ " = undefined; \x7d else \x7b")

/-- The line that closes a block. -/
def closing : String := "\x7d"

/-- A line behind four spaces for each of a number of blocks. -/
def indented (depth : Nat) (text : String) : String :=
  String.ofList (List.replicate (4 * depth) ' ') ++ text

/-- The lines of a block that stands in a number of others. -/
inductive IsBlock : Nat → List String → Prop where
  | empty (depth : Nat) : IsBlock depth []
  | simple {depth : Nat} {text : String} {rest : List String} (h : IsSimple source target text)
    (others : IsBlock depth rest) : IsBlock depth (indented depth text :: rest)
  | nested {depth : Nat} {text : String} {body rest : List String}
    (h : IsHeader source target text) (inner : IsBlock (depth + 1) body)
    (others : IsBlock depth rest) :
    IsBlock depth (indented depth text :: body ++ indented depth closing :: rest)

end Grammar

/-! ## Blocks out of blocks -/

section Blocks

variable {source target : String} {depth : Nat} {front rest lines : List String}

theorem indented_zero (text : String) : indented 0 text = text := String.empty_append

theorem indented_succ (depth : Nat) (text : String) :
    "    " ++ indented depth text = indented (depth + 1) text := by
  rw [← String.toList_inj]
  simp [indented, Nat.mul_add, Nat.add_comm _ 4, List.replicate_add]

/-- Blocks of one depth stand one after the other. -/
theorem IsBlock.append (first : IsBlock source target depth front)
    (second : IsBlock source target depth rest) : IsBlock source target depth (front ++ rest) := by
  induction first with
  | empty => exact second
  | simple h _ ih => exact .simple h (ih second)
  | nested h inner _ _ ih =>
    rw [List.append_assoc, List.cons_append]
    exact .nested h inner (ih second)

/-- A block one level deeper. -/
theorem IsBlock.deeper (h : IsBlock source target depth lines) :
    IsBlock source target (depth + 1) (Statement.deeper lines) := by
  induction h with
  | empty => exact .empty _
  | simple h _ ih =>
    rw [Statement.deeper, List.map_cons, indented_succ]
    exact .simple h ih
  | nested h _ _ ihInner ih =>
    rw [Statement.deeper, List.map_append, List.map_cons, List.map_cons, indented_succ,
      indented_succ]
    exact .nested h ihInner ih

end Blocks

/-! ## Statements -/

section Statements

variable {S T : String} {direction : Direction} {source target : Place} {n m : Nat}
  {body front rest : List Statement} {code : Code}

/-- Statements whose lines are a block. -/
def Formed (S T : String) (body : List Statement) : Prop :=
  IsBlock S T 0 (Statement.printAll body)

/-- The lines of statements one after the other stand one after the other. -/
theorem printAll_append (front rest : List Statement) :
    Statement.printAll (front ++ rest) = Statement.printAll front ++ Statement.printAll rest := by
  induction front with
  | nil => rfl
  | cons s front ih =>
    rw [List.cons_append, Statement.printAll, Statement.printAll, ih, List.append_assoc]

section Places

variable {p : Place} {t : Temp}

/-- The name of a temporary is a path. -/
theorem isPath_temp (lettered : t.Lettered) : IsPath S T (Place.temp t).toText :=
  .temp (.name t lettered)

/-- A path may go on with the name of a field. -/
theorem isPath_field {name : String} (hp : IsPath S T p.toText) (hname : Identifier name) :
    IsPath S T (Place.field p name).toText := .field hp hname

theorem isPath_item (hp : IsPath S T p.toText) (i : Nat) : IsPath S T (Place.item p i).toText :=
  .item hp i

/-- A path may go on with a temporary in brackets. -/
theorem isPath_slot (hp : IsPath S T p.toText) (lettered : t.Lettered) :
    IsPath S T (Place.slot p t).toText := .slot hp (.name t lettered)

theorem isOperand_place (hp : IsPath S T p.toText) : IsOperand S T (Operand.place p).toText :=
  .path hp

/-- Each conversion makes an operand of a path. -/
theorem isOperand_converted (c : Conversion) (hp : IsPath S T p.toText) :
    IsOperand S T (Operand.converted c p).toText := by
  cases c with
  | dateToText => exact .dateToText hp
  | dateFromText => exact .dateFromText hp
  | instantToText => exact .instantToText hp
  | instantFromText => exact .instantFromText hp

end Places

theorem Formed.none : Formed S T [] := .empty 0

/-- Well formed statements may stand one after the other. -/
theorem Formed.append (first : Formed S T front) (second : Formed S T rest) :
    Formed S T (front ++ rest) := by
  rw [Formed, printAll_append]
  exact IsBlock.append first second

/-- An assignment is well formed if its target is a path and its value an operand. -/
theorem formed_assign {value : Operand} (htarget : IsPath S T target.toText)
    (hvalue : IsOperand S T value.toText) : Formed S T [.assign target value] := by
  rw [Formed, Statement.printAll, Statement.print, ← indented_zero (_ ++ _)]
  exact .simple (.assign htarget hvalue) (.empty 0)

/-- A declaration is well formed. -/
theorem formed_declare {t : Temp} (lettered : t.Lettered) : Formed S T [.declare t] := by
  rw [Formed, Statement.printAll, Statement.print, ← indented_zero (_ ++ _)]
  exact .simple (.declare (.name t lettered)) (.empty 0)

/-- A header, the lines of a block one level deeper, and what closes it. -/
theorem formed_nested {s : Statement} {header : String} (h : IsHeader S T header)
    (prints : s.print = header :: Statement.deeper (Statement.printAll body) ++ ["\x7d"])
    (inner : Formed S T body) : Formed S T [s] := by
  rw [Formed, Statement.printAll, Statement.printAll, List.append_nil, prints,
    ← indented_zero header]
  exact IsBlock.nested h inner.deeper (.empty 0)

/-- A loop over keys is well formed if its body is, one level deeper. -/
theorem formed_forKeys {t : Temp} (lettered : t.Lettered) (hsource : IsPath S T source.toText)
    (inner : Formed S T body) : Formed S T [.forKeys t source body] :=
  formed_nested (.forKeys (.name t lettered) hsource) (by rw [Statement.print]) inner

/-! ## Conversions -/

/-- A copy is well formed, or nothing. -/
theorem formed_copy (hsource : IsPath S T source.toText) (htarget : IsPath S T target.toText) :
    Formed S T (Code.copy source target).body := by
  unfold Code.copy
  split
  · exact .none
  · exact formed_assign htarget (isOperand_place hsource)

/-- A fresh container is well formed on the way out, and nothing on the way back. -/
theorem formed_fresh (htarget : IsPath S T target.toText) {container : Operand}
    (hcontainer : IsOperand S T container.toText) :
    Formed S T (Code.fresh direction target container) := by
  cases direction with
  | out => exact formed_assign htarget hcontainer
  | back => exact .none

/-- A value that has been moved is assigned first and then converted. -/
theorem formed_ofMoved {inPlace : Code} (hsource : IsPath S T source.toText)
    (htarget : IsPath S T target.toText) (inner : Formed S T inPlace.body) :
    Formed S T (Code.ofMoved source target inPlace).body := by
  unfold Code.ofMoved
  split
  · exact (formed_assign htarget (isOperand_place hsource)).append inner
  · exact formed_copy hsource htarget

/-- The loop over a dictionary is well formed behind the declaration of the prepared key. -/
theorem formed_ofMapping {key prepared : Temp} {keys values : Code} (hkey : key.Lettered)
    (hprepared : prepared.Lettered) (hsource : IsPath S T source.toText)
    (htarget : IsPath S T target.toText) (hkeys : Formed S T keys.body)
    (hvalues : Formed S T values.body) :
    Formed S T (Code.ofMapping direction key prepared source target keys values).body := by
  unfold Code.ofMapping
  split
  · exact (formed_declare hprepared).append ((formed_fresh htarget .emptyObject).append
      (formed_forKeys hkey hsource (hkeys.append hvalues)))
  · exact formed_copy hsource htarget

/-- **Generated code is a block**, with paths that start where those of its places do. -/
theorem isBlock_of_convert {s : Shape} (hsource : IsPath S T source.toText)
    (htarget : IsPath S T target.toText)
    (h : Yields (convert direction s source target) n code m) : Formed S T code.body := by
  induction s generalizing source target n code m with
  | scalar =>
    rw [(convert_scalar h).1]
    exact formed_copy hsource htarget
  | enum =>
    rw [(convert_enum h).1]
    exact formed_copy hsource htarget
  | temporal =>
    rw [(convert_temporal h).1]
    exact formed_assign htarget (isOperand_converted _ hsource)
  | list element ih =>
    obtain ⟨inner, generated, rfl⟩ := convert_list h
    have index : Temp.Lettered ⟨"i", n⟩ := .inl rfl
    have body := ih (isPath_slot hsource index) (isPath_slot htarget index) generated
    unfold Code.ofList
    split
    · exact (formed_fresh htarget .emptyArray).append (formed_forKeys index hsource body)
    · exact formed_copy hsource htarget
  | mapping key value ihKey ihValue =>
    have here : Temp.Lettered ⟨"k", n⟩ := .inr rfl
    have there : Temp.Lettered ⟨"k", n + 1⟩ := .inr rfl
    have ofSource := isPath_slot hsource here
    have ofTarget := isPath_slot htarget there
    obtain ⟨keys, between, walked, generated, walk⟩ := convert_mapping h
    have hkeys := ihKey (isPath_temp here) (isPath_temp there) generated
    rcases walk with ⟨-, values, rfl⟩ | ⟨-, values, rfl⟩
    · exact formed_ofMapping here there hsource htarget hkeys (ihValue ofSource ofTarget values)
    · exact formed_ofMapping here there hsource htarget hkeys
        (formed_ofMoved ofSource ofTarget (ihValue ofTarget ofTarget values))
  | tuple items ih =>
    obtain ⟨inner, generated, rfl⟩ := convert_tuple h
    have body := convertItems_walk (P := fun _ body _ => Formed S T body) (fun _ => .none)
      Formed.append (fun s hs i _ _ _ => ih s hs (isPath_item hsource i) (isPath_item htarget i))
      generated
    rcases body_ofTuple direction source target inner with copied | built
    · rw [copied]
      exact formed_copy hsource htarget
    · rw [built]
      exact (formed_fresh htarget .emptyArray).append body
  | optional inner ih =>
    obtain ⟨present, generated, rfl⟩ := convert_optional h
    have body := ih hsource htarget generated
    cases direction with
    | out => exact formed_nested (.unlessUndefined hsource) (by rw [Statement.print]) body
    | back => exact formed_nested (.unlessNull hsource htarget) (by rw [Statement.print]) body
  | record name fields ih =>
    obtain ⟨inner, generated, rfl⟩ := convert_record h
    have named (f : String × Shape) (hf : f ∈ fields) : Identifier f.1 :=
      isIdentifier_iff.1 (checkIdentifier_iff.1 (checked_of_convertFields generated f hf))
    refine (formed_fresh htarget .emptyObject).append ?_
    exact convertFields_walk (P := fun _ body _ => Formed S T body) (fun _ => .none) Formed.append
      (fun f hf _ _ _ => ih f hf (isPath_field hsource (named f hf))
        (isPath_field htarget (named f hf))) generated
  | wrapper _ _ inner ih => exact ih hsource htarget (convert_wrapper h)
  | opened _ _ fields ih =>
    obtain ⟨field, inner, rfl, generated⟩ := convert_opened h
    exact ih _ (List.mem_singleton.2 rfl) hsource htarget generated
  | bareTemplate => exact (convert_bareTemplate h).elim
  | blocked => exact (convert_blocked h).elim

end Statements

/-! ## Braces -/

/-- A text without braces and line breaks. -/
def Plain (text : String) : Prop :=
  ∀ c ∈ text.toList, c ≠ '\x7b' ∧ c ≠ '\x7d' ∧ c ≠ '\n'

-- named, since a search for it may come upon one that goes through all characters there are
instance (text : String) : Decidable (Plain text) :=
  List.decidableBAll (fun c => c ≠ '\x7b' ∧ c ≠ '\x7d' ∧ c ≠ '\n') text.toList

/-- How many more blocks a text opens than it closes. -/
def opened (text : String) : Int := text.toList.count '\x7b' - text.toList.count '\x7d'

/-- How many blocks are open behind some lines. -/
def openBehind : List String → Int
  | [] => 0
  | line :: rest => opened line + openBehind rest

/-- A text on one line that opens some blocks more than it closes. -/
structure Opens (text : String) (blocks : Int) : Prop where
  opened : opened text = blocks
  whole : '\n' ∉ text.toList

section Braces

variable {a b : String} {m n : Int}

/-- Plain texts may be joined. -/
theorem Plain.append (ha : Plain a) (hb : Plain b) : Plain (a ++ b) := by
  intro c hc
  rw [String.toList_append] at hc
  exact (List.mem_append.1 hc).elim (ha c) (hb c)

/-- A plain text opens nothing. -/
theorem Plain.opens (h : Plain a) : Opens a 0 where
  opened := by
    rw [Client.opened, List.count_eq_zero_of_not_mem fun hc => (h _ hc).1 rfl,
      List.count_eq_zero_of_not_mem fun hc => (h _ hc).2.1 rfl]
    rfl
  whole hc := (h _ hc).2.2 rfl

/-- What two texts open adds up. -/
theorem Opens.append (ha : Opens a m) (hb : Opens b n) : Opens (a ++ b) (m + n) where
  opened := by
    rw [← ha.opened, ← hb.opened]
    simp only [Client.opened, String.toList_append, List.count_append]
    omega
  whole hc := by
    rw [String.toList_append] at hc
    exact (List.mem_append.1 hc).elim ha.whole hb.whole

/-- Indentation opens nothing. -/
theorem opens_indented (depth : Nat) (h : Opens a n) : Opens (indented depth a) n := by
  have spaces : Plain (String.ofList (List.replicate (4 * depth) ' ')) := by
    intro c hc
    rw [String.toList_ofList] at hc
    rw [List.eq_of_mem_replicate hc]
    decide
  have := spaces.opens.append h
  rwa [Int.zero_add] at this

/-- A number has no braces. -/
theorem plain_number (n : Nat) : Plain (toString n) := by
  have digits : (toString n).toList = Nat.toDigits 10 n := Nat.toList_repr
  intro c hc
  rw [digits] at hc
  have digit : c.isDigit = true := List.all_eq_true.1 (Numeral.isDigit_toDigits n) c hc
  refine ⟨?_, ?_, ?_⟩
  all_goals
    rintro rfl
    cases digit

/-- A temporary has no braces. -/
theorem IsTemp.plain {t : String} (h : IsTemp t) : Plain t := by
  obtain ⟨t, lettered⟩ := h
  refine Plain.append ?_ (plain_number _)
  rcases lettered with letter | letter
  · rw [letter]
    decide
  · rw [letter]
    decide

/-- An identifier has no braces. -/
theorem plain_identifier {name : String} (h : Identifier name) : Plain name := by
  obtain ⟨first, rest, chars, letter, others⟩ := h
  intro c hc
  have named : startsIdentifier c = true ∨ continuesIdentifier c = true := by
    rw [chars] at hc
    rcases List.mem_cons.1 hc with rfl | hc
    · exact .inl (startsIdentifier_iff.2 letter)
    · exact .inr (continuesIdentifier_iff.2 (others c hc))
  refine ⟨?_, ?_, ?_⟩ <;>
    · rintro rfl
      exact absurd named (by decide)

end Braces

section Lines

variable {source target p text : String}

/-- A path has no braces if its source and its target have none. -/
theorem IsPath.plain (hsource : Plain source) (htarget : Plain target)
    (h : IsPath source target p) : Plain p := by
  induction h with
  | source => exact hsource
  | target => exact htarget
  | temp ht => exact ht.plain
  | field _ hname ih =>
    exact (ih.append (by decide : Plain ".")).append (plain_identifier hname)
  | item _ i ih =>
    exact ((ih.append (by decide : Plain "[")).append (plain_number i)).append
      (by decide : Plain "]")
  | slot _ ht ih =>
    exact ((ih.append (by decide : Plain "[")).append ht.plain).append (by decide : Plain "]")

/-- An operand opens no block: an empty container is closed at once. -/
theorem IsOperand.opens (hsource : Plain source) (htarget : Plain target)
    (h : IsOperand source target text) : Opens text 0 := by
  have plain {p : String} (hp : IsPath source target p) : Plain p := hp.plain hsource htarget
  have call {front p back : String} (hfront : Plain front) (hp : IsPath source target p)
      (hback : Plain back) : Opens (front ++ p ++ back) 0 :=
    ((hfront.append (plain hp)).append hback).opens
  cases h with
  | path hp => exact (plain hp).opens
  | emptyObject => exact ⟨rfl, by decide⟩
  | emptyArray => exact ⟨rfl, by decide⟩
  | dateToText hp => exact call (by decide) hp (by decide)
  | dateFromText hp => exact call (by decide) hp (by decide)
  | instantToText hp => exact ((plain hp).append (by decide)).opens
  | instantFromText hp => exact call (by decide) hp (by decide)

/-- A statement on a line of its own opens no block. -/
theorem IsSimple.opens (hsource : Plain source) (htarget : Plain target)
    (h : IsSimple source target text) : Opens text 0 := by
  cases h with
  | assign hp he =>
    have assigned : Plain " = " := by decide
    exact ((hp.plain hsource htarget).append assigned).opens.append (he.opens hsource htarget)
  | declare ht =>
    exact (((by decide : Plain "let ").append ht.plain).append (by decide : Plain ": any;")).opens

/-- A header opens one block. -/
theorem IsHeader.opens (hsource : Plain source) (htarget : Plain target)
    (h : IsHeader source target text) : Opens text 1 := by
  have plain {p : String} (hp : IsPath source target p) : Plain p := hp.plain hsource htarget
  cases h with
  | forKeys ht hp =>
    have front := (((by decide : Plain "for (var ").append ht.plain).append
      (by decide : Plain " in ")).append (plain hp)
    exact front.opens.append ⟨rfl, by decide⟩
  | unlessUndefined hp =>
    exact ((by decide : Plain "if (").append (plain hp)).opens.append ⟨rfl, by decide⟩
  | unlessNull hp hq =>
    -- the braces around the assignment, then the one that stays open
    have front := ((by decide : Plain "if (").append (plain hp)).opens
    have first : Opens " === null) \x7b " 1 := ⟨rfl, by decide⟩
    have rest : Opens " = undefined; \x7d else \x7b" 0 := ⟨rfl, by decide⟩
    exact ((front.append first).append (plain hq).opens).append rest

/-- The line that closes a block takes one back. -/
theorem opens_closing : Opens closing (-1) := ⟨rfl, by decide⟩

/-- Only what closes a block closes more than it opens. -/
theorem Opens.ne_closing {blocks : Nat} (h : Opens text blocks) : text ≠ closing := by
  rintro rfl
  have := h.opened.symm.trans opens_closing.opened
  omega

end Lines

/-! ## Indentation -/

/-- A line of the grammar. -/
inductive IsLine (source target : String) : String → Prop where
  | simple {text : String} (h : IsSimple source target text) : IsLine source target text
  | header {text : String} (h : IsHeader source target text) : IsLine source target text
  | closing : IsLine source target closing

/-- A line behind four spaces for each block around it, if some blocks are open in front of it.
What closes a block stands outside of it. -/
def IndentedBy (source target : String) (blocks : Int) (line : String) : Prop :=
  ∃ depth text, IsLine source target text ∧ line = indented depth text ∧
    (depth : Int) = blocks - if text = closing then 1 else 0

/-- Lines that are indented by the blocks around them, if some blocks are open in front of them. -/
def Laid (source target : String) (blocks : Int) : List String → Prop
  | [] => True
  | line :: rest =>
    IndentedBy source target blocks line ∧ Laid source target (blocks + opened line) rest

section Indentation

variable {source target : String} {blocks : Int} {front rest lines : List String}

/-- What lines open adds up. -/
theorem openBehind_append (front rest : List String) :
    openBehind (front ++ rest) = openBehind front + openBehind rest := by
  induction front with
  | nil => rw [List.nil_append, openBehind, Int.zero_add]
  | cons line front ih => rw [List.cons_append, openBehind, openBehind, ih, Int.add_assoc]

/-- Lines are laid out one after the other, the later ones at the depth that the first ones leave.
-/
theorem Laid.append (first : Laid source target blocks front)
    (second : Laid source target (blocks + openBehind front) rest) :
    Laid source target blocks (front ++ rest) := by
  induction front generalizing blocks with
  | nil =>
    rw [openBehind, Int.add_zero] at second
    exact second
  | cons line front ih =>
    rw [openBehind, ← Int.add_assoc] at second
    exact ⟨first.1, ih first.2 second⟩

/-- Every line is indented by the blocks that the lines in front of it leave open. -/
theorem Laid.at {line : String} {after : List String}
    (h : Laid source target blocks (front ++ line :: after)) :
    IndentedBy source target (blocks + openBehind front) line := by
  induction front generalizing blocks with
  | nil =>
    rw [openBehind, Int.add_zero]
    exact h.1
  | cons first front ih =>
    rw [openBehind, ← Int.add_assoc]
    exact ih h.2

/-- Lines that close what they open, each whole and indented as the blocks around it demand. -/
structure Tidy (source target : String) (blocks : Int) (lines : List String) : Prop where
  laid : Laid source target blocks lines
  closed : openBehind lines = 0
  whole : ∀ line ∈ lines, '\n' ∉ line.toList

/-- Tidy lines stand one after the other. -/
theorem Tidy.append (first : Tidy source target blocks front)
    (second : Tidy source target blocks rest) : Tidy source target blocks (front ++ rest) where
  laid := first.laid.append (by rw [first.closed, Int.add_zero]; exact second.laid)
  closed := by rw [openBehind_append, first.closed, second.closed, Int.add_zero]
  whole := List.forall_mem_append.2 ⟨first.whole, second.whole⟩

/-- **The lines of a block are indented by the blocks around them.** -/
theorem IsBlock.tidy {depth : Nat} (hsource : Plain source) (htarget : Plain target)
    (h : IsBlock source target depth lines) : Tidy source target depth lines := by
  induction h with
  | empty => exact ⟨trivial, rfl, List.forall_mem_nil _⟩
  | @simple depth text rest h _ ih =>
    have line := opens_indented depth (h.opens hsource htarget)
    refine ⟨⟨?_, ?_⟩, ?_, List.forall_mem_cons.2 ⟨line.whole, ih.whole⟩⟩
    · refine ⟨depth, text, .simple h, rfl, ?_⟩
      rw [if_neg (Opens.ne_closing (h.opens hsource htarget)), Int.sub_zero]
    · rw [line.opened, Int.add_zero]
      exact ih.laid
    · rw [openBehind, line.opened, ih.closed, Int.add_zero]
  | @nested depth text body rest h _ _ ihInner ih =>
    have header := opens_indented depth (h.opens hsource htarget)
    have close := opens_indented depth opens_closing
    -- what closes the block stands behind the header and the body, and brings the depth back
    have behind : ((depth + 1 : Nat) : Int) + openBehind body + -1 = depth := by
      rw [ihInner.closed]
      omega
    refine ⟨⟨?_, ?_⟩, ?_, ?_⟩
    · refine ⟨depth, text, .header h, rfl, ?_⟩
      rw [if_neg (Opens.ne_closing (h.opens hsource htarget)), Int.sub_zero]
    · rw [header.opened]
      refine ihInner.laid.append ⟨⟨depth, closing, .closing, rfl, ?_⟩, ?_⟩
      · rw [if_pos rfl]
        omega
      · rw [close.opened, behind]
        exact ih.laid
    · rw [List.cons_append, openBehind, openBehind_append, openBehind, header.opened,
        close.opened, ihInner.closed, ih.closed]
      rfl
    · rw [List.cons_append, List.forall_mem_cons, List.forall_mem_append, List.forall_mem_cons]
      exact ⟨header.whole, ihInner.whole, close.whole, ih.whole⟩

end Indentation

/-! ## Descriptors -/

/-- Lines that follow the grammar, each whole and indented by four spaces for each block that is
open in front of it. -/
structure WellFormed (source target : String) (lines : List String) : Prop where
  block : IsBlock source target 0 lines
  whole : ∀ line ∈ lines, '\n' ∉ line.toList
  closed : openBehind lines = 0
  indented : ∀ before line after, lines = before ++ line :: after →
    IndentedBy source target (openBehind before) line

/-- **Generated lines are well formed**, whatever is converted, in whichever direction, between
whatever places: they follow the grammar, and they are indented by the blocks around them. -/
theorem wellFormed_of_code {direction : Direction} {d : Descriptor} {source target : Place}
    {r next : Resolver} {code : Code} (hsource : Plain source.toText)
    (htarget : Plain target.toText)
    (h : Yields (Resolver.code direction d source target) r code next) :
    WellFormed source.toText target.toText code.lines.lines := by
  have block : IsBlock source.toText target.toText 0 code.lines.lines :=
    isBlock_of_convert .source .target (yields_generating h)
  have tidy := block.tidy hsource htarget
  refine ⟨block, tidy.whole, tidy.closed, ?_⟩
  intro before line after split
  have laid := tidy.laid
  rw [split] at laid
  have indented := laid.at
  rwa [Int.natCast_zero, Int.zero_add] at indented

/-- Lists of instants that may be absent, by dates: one loop stands in another, and a guard in
that. -/
theorem wellFormed_of_code_mapping :
    ∃ d code next,
      d = Descriptor.mapping (.temporal .date) (.list (.optional (.temporal .dateTime))) ∧
      Yields (Resolver.code .back d Caller.data Caller.data) .empty code next ∧
      code.lines.lines = ["let k1: any;",
        "for (var k0 in data) \x7b",
        "    k1 = strToDate(k0)",
        "    data[k1] = data[k0]",
        "    for (var i2 in data[k1]) \x7b",
        "        if (data[k1][i2] === null) \x7b data[k1][i2] = undefined; \x7d else \x7b",
        "            data[k1][i2] = new Date(data[k1][i2])",
        "        \x7d",
        "    \x7d",
        "\x7d"] ∧
      WellFormed "data" "data" code.lines.lines := by
  obtain ⟨d, hd⟩ : ∃ d, d =
    Descriptor.mapping (.temporal .date) (.list (.optional (.temporal .dateTime))) := ⟨_, rfl⟩
  obtain ⟨code, next, generated, lines⟩ : ∃ code next,
      Yields (Resolver.code .back d Caller.data Caller.data) .empty code next ∧
      code.lines.lines = _ := by
    rw [hd]
    exact ⟨_, _, rfl, rfl⟩
  have named : Plain Caller.data.toText := by decide
  exact ⟨d, code, next, hd, generated, lines, wellFormed_of_code named named generated⟩

end RpcBridge.Client
