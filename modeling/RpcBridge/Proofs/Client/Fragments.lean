import RpcBridge.Proofs.Client.Definitions

/-!
# Proofs/Client/Fragments — what the text of a client is made of

The text of a client does not tell which parts of it the generator has made up and which it has
taken from the procedures.  A list of fragments does: each of them is a word of the generator, a
name, a quoted text or a number.  What stands behind the runtime of a client is written here as such
a list, construct by construct, and has the same text.

* `Json.isLiteral_quote` — a quoted text is a JSON string literal that stands for the text;
* `isIdentifier_iff` — what an identifier is, letter by letter;
* `TypeExpr.toText_eq_fragments`, `toText_declared`, `Statement.printAll_eq_fragments`,
  `Artifact.render_eq_fragments` — types, declarations, statements and clients are the texts of
  their fragments.
-/

namespace RpcBridge

/-! ## String literals -/

namespace Json

/-- The letters behind a backslash, each with the character it stands for. -/
def escapes : List (Char × Char) :=
  [('"', '"'), ('\\', '\\'), ('/', '/'), ('b', '\x08'), ('f', '\x0c'), ('n', '\n'), ('r', '\r'),
    ('t', '\t')]

/-- A text between the quotes of a JSON string, and the characters it stands for.  Quotes,
backslashes and control characters do not stand as they are. -/
inductive Spells : List Char → List Char → Prop where
  | nil : Spells [] []
  | plain {c : Char} {text chars : List Char} (quote : c ≠ '"') (slash : c ≠ '\\')
    (large : 0x20 ≤ c.toNat) (rest : Spells text chars) : Spells (c :: text) (c :: chars)
  | short {e c : Char} {text chars : List Char} (known : (e, c) ∈ escapes)
    (rest : Spells text chars) : Spells ('\\' :: e :: text) (c :: chars)
  | code {c : Char} {text chars : List Char} (i j k l : Fin 16)
    (value : c.toNat = 0x1000 * i + 0x100 * j + 0x10 * k + l) (rest : Spells text chars) :
    Spells ('\\' :: 'u' :: Nat.digitChar i :: Nat.digitChar j :: Nat.digitChar k ::
      Nat.digitChar l :: text) (c :: chars)

/-- A JSON string literal that stands for a text. -/
def IsLiteral (literal text : String) : Prop :=
  ∃ inner, Spells inner text.toList ∧ literal.toList = '"' :: (inner ++ ['"'])

/-- What a character is escaped as spells the character. -/
theorem spells_escapeChar (c : Char) {text chars : List Char} (rest : Spells text chars) :
    Spells (escapeChar c ++ text) (c :: chars) := by
  unfold escapeChar
  iterate 7
    split
    · next h =>
      subst h
      exact .short (by decide) rest
  split
  · next small =>
    have bound : c.toNat / 16 % 16 < 16 ∧ c.toNat % 16 < 16 := by omega
    exact .code 0 0 ⟨_, bound.1⟩ ⟨_, bound.2⟩ (by simp; omega) rest
  · next quote slash _ _ _ _ _ large => exact .plain quote slash (Nat.le_of_not_lt large) rest

/-- **A quoted text is a JSON string literal** that stands for the text. -/
theorem isLiteral_quote (text : String) : IsLiteral (quote text) text := by
  refine ⟨text.toList.flatMap escapeChar, ?_, by simp [quote]⟩
  induction text.toList with
  | nil => exact .nil
  | cons c chars ih =>
    rw [List.flatMap_cons]
    exact spells_escapeChar c ih

end Json

namespace Client

/-! ## Identifiers -/

/-- A letter, an underscore or a dollar sign. -/
def IsLetter (c : Char) : Prop :=
  ('A' ≤ c ∧ c ≤ 'Z') ∨ ('a' ≤ c ∧ c ≤ 'z') ∨ c = '_' ∨ c = '$'

/-- One letter, then any number of letters and digits. -/
def Identifier (name : String) : Prop :=
  ∃ c rest, name.toList = c :: rest ∧ IsLetter c ∧ ∀ d ∈ rest, IsLetter d ∨ ('0' ≤ d ∧ d ≤ '9')

/-- A range of characters, as the standard tests have it. -/
theorem range_iff {a b c : Char} :
    (decide (c.val ≥ a.val) && decide (c.val ≤ b.val)) = true ↔ a ≤ c ∧ c ≤ b := by
  rw [Bool.and_eq_true, decide_eq_true_iff, decide_eq_true_iff]
  rfl

theorem isUpper_iff {c : Char} : c.isUpper = true ↔ 'A' ≤ c ∧ c ≤ 'Z' := decide_eq_true_iff

theorem isLower_iff {c : Char} : c.isLower = true ↔ 'a' ≤ c ∧ c ≤ 'z' := range_iff

theorem isDigit_iff {c : Char} : c.isDigit = true ↔ '0' ≤ c ∧ c ≤ '9' := range_iff

/-- The test for a first letter accepts letters. -/
theorem startsIdentifier_iff {c : Char} : startsIdentifier c = true ↔ IsLetter c := by
  have split : startsIdentifier c = (c.isUpper || c.isLower || c == '_' || c == '$') := rfl
  simp only [split, Bool.or_eq_true, beq_iff_eq, isUpper_iff, isLower_iff, or_assoc]
  rfl

/-- The test for a further letter accepts letters and digits. -/
theorem continuesIdentifier_iff {c : Char} :
    continuesIdentifier c = true ↔ IsLetter c ∨ ('0' ≤ c ∧ c ≤ '9') := by
  have split : continuesIdentifier c = (startsIdentifier c || c.isDigit) := by
    have first : continuesIdentifier c = (c.isAlpha || c.isDigit || c == '_' || c == '$') := rfl
    rw [first, startsIdentifier, Bool.or_right_comm c.isAlpha, Bool.or_right_comm _ c.isDigit]
  rw [split, Bool.or_eq_true, startsIdentifier_iff, isDigit_iff]

/-- **The check of a name accepts identifiers and nothing else.** -/
theorem isIdentifier_iff {name : String} : isIdentifier name = true ↔ Identifier name := by
  unfold isIdentifier Identifier
  cases name.toList with
  | nil => simp
  | cons c rest =>
    simp only [Bool.and_eq_true, List.all_eq_true, startsIdentifier_iff, continuesIdentifier_iff,
      List.cons.injEq]
    constructor
    · rintro ⟨first, others⟩
      exact ⟨c, rest, ⟨rfl, rfl⟩, first, others⟩
    · rintro ⟨_, _, ⟨rfl, rfl⟩, first, others⟩
      exact ⟨first, others⟩

/-! ## Fragments -/

/-- A piece of generated text, by where it comes from. -/
inductive Fragment where
  /-- A text of the generator. -/
  | word (text : String)
  /-- A name as it is. -/
  | verbatim (name : String)
  /-- A text as a JSON string. -/
  | quoted (text : String)
  | count (n : Nat)
  | whole (n : Int64)
  | real (x : Double)

namespace Fragment

/-- The text of a fragment. -/
def text : Fragment → String
  | .word text => text
  | .verbatim name => name
  | .quoted text => Json.quote text
  | .count n => toString n
  | .whole n => toString n.toInt
  | .real x => x.toText

@[simp] theorem text_word (w : String) : (word w).text = w := rfl

@[simp] theorem text_verbatim (name : String) : (verbatim name).text = name := rfl

@[simp] theorem text_quoted (s : String) : (quoted s).text = Json.quote s := rfl

@[simp] theorem text_count (n : Nat) : (count n).text = toString n := rfl

/-- The text of fragments one after the other. -/
def textOf (fs : List Fragment) : String := String.join (fs.map text)

/-- Fragments with a word between every two of them. -/
def separated (separator : String) (fss : List (List Fragment)) : List Fragment :=
  [.word separator].intercalate fss

variable {fs gs : List Fragment}

@[simp] theorem textOf_nil : textOf [] = "" := rfl

@[simp] theorem textOf_cons (f : Fragment) : textOf (f :: fs) = f.text ++ textOf fs :=
  String.join_cons

/-- The text of fragments one after the other. -/
@[simp] theorem textOf_append : textOf (fs ++ gs) = textOf fs ++ textOf gs := by
  rw [textOf, List.map_append, String.join_append]
  rfl

/-- The separator stands between the texts. -/
@[simp] theorem textOf_separated (separator : String) (fss : List (List Fragment)) :
    textOf (separated separator fss) = separator.intercalate (fss.map textOf) := by
  unfold separated
  induction fss with
  | nil => rfl
  | cons fs rest ih =>
    cases rest with
    | nil => simp
    | cons gs rest =>
      rw [List.intercalate_cons_cons, List.map_cons, List.map_cons, String.intercalate_cons_cons,
        textOf_append, textOf_append, ih]
      simp

/-- Texts with nothing between them. -/
theorem textOf_flatMap {α : Type} (f : α → List Fragment) (as : List α) :
    textOf (as.flatMap f) = "".intercalate (as.map fun a => textOf (f a)) := by
  induction as with
  | nil => rfl
  | cons a rest ih =>
    rw [List.flatMap_cons, textOf_append, ih]
    cases rest with
    | nil => simp
    | cons b rest =>
      rw [List.map_cons, List.map_cons, List.map_cons, String.intercalate_cons_cons,
        String.append_empty]

end Fragment

open Fragment (textOf separated textOf_nil textOf_cons textOf_append textOf_separated
  textOf_flatMap)

/-! ## Types and declarations -/

namespace TypeExpr

mutual

/-- The fragments of a type expression. -/
def fragments : TypeExpr → List Fragment
  | .word text => [.word text]
  | .named name => [.verbatim name]
  | .param name => [.verbatim name]
  | .applied name args => .verbatim name :: .word "<" :: separated ", " (allFragments args) ++
      [.word ">"]
  | .array element => .word "Array<" :: element.fragments ++ [.word ">"]
  | .tuple items => .word "[" :: separated ", " (allFragments items) ++ [.word "]"]
  | .dictionary key value =>
    .word "\x7b [k: " :: key.fragments ++ .word "]: " :: value.fragments ++ [.word " \x7d"]
  | .orUndefined inner => inner.fragments ++ [.word " | undefined"]
  | .union members => separated " | " (allFragments members)

/-- The fragments of type expressions, one by one. -/
def allFragments : List TypeExpr → List (List Fragment)
  | [] => []
  | e :: rest => e.fragments :: allFragments rest

end

theorem allFragments_eq_map (es : List TypeExpr) : allFragments es = es.map fragments := by
  induction es with
  | nil => rfl
  | cons e rest ih => rw [allFragments, ih, List.map_cons]

mutual

/-- **A type is the text of its fragments.** -/
theorem toText_eq_fragments : ∀ e : TypeExpr, e.toText = textOf e.fragments
  | .word _ | .named _ | .param _ => by simp [toText, fragments]
  | .applied name args => by
    simp [toText, fragments, texts_eq_fragments args, String.append_assoc]
  | .array element => by
    simp [toText, fragments, toText_eq_fragments element, String.append_assoc]
  | .tuple items => by
    simp [toText, fragments, texts_eq_fragments items, String.append_assoc]
  | .dictionary key value => by
    simp [toText, fragments, toText_eq_fragments key, toText_eq_fragments value,
      String.append_assoc]
  | .orUndefined inner => by
    simp [toText, fragments, toText_eq_fragments inner]
  | .union members => by
    simp [toText, fragments, texts_eq_fragments members]

/-- The texts of types are those of their fragments. -/
theorem texts_eq_fragments : ∀ es : List TypeExpr, texts es = (allFragments es).map textOf
  | [] => rfl
  | e :: rest => by
    rw [texts, allFragments, List.map_cons, toText_eq_fragments e, texts_eq_fragments rest]

end

end TypeExpr

/-- The fragment of an enum literal: a text is quoted. -/
def Fragment.ofLiteral : EnumLiteral → Fragment
  | .int n => .whole n
  | .float x => .real x
  | .text s => .quoted s

@[simp] theorem Fragment.text_ofLiteral (l : EnumLiteral) : (ofLiteral l).text = l.toText := by
  cases l <;> rfl

/-- A declaration of a keyword: its name and, in braces, its entries. -/
def Fragment.declaration (keyword : String) (name : List Fragment)
    (entries : List (List Fragment)) : List Fragment :=
  [.word "export ", .word keyword, .word " "] ++ name ++ [.word " ", .word "\x7b"] ++
    separated ", " entries ++ [.word "\x7d"]

/-- The fragments of fields with their types. -/
def Fragment.ofFields (fields : List Field) : List (List Fragment) :=
  fields.map fun f => .verbatim f.1 :: .word ": " :: f.2.typeExpr.fragments

end Client

open Client Fragment

/-- The fragments of what a descriptor itself declares. -/
def Descriptor.declared : Descriptor → List Fragment
  | .enum e => declaration "enum" [.verbatim e.name]
      (e.members.map fun m => [.verbatim m.name, .word " = ", .ofLiteral m.value])
  | .record name fields false =>
    declaration "interface" [.verbatim name] (Fragment.ofFields fields)
  | .template name params fields =>
    declaration "interface" (.verbatim name :: .word "<" ::
      separated ", " (params.map fun p => [.verbatim p]) ++ [.word ">"]) (Fragment.ofFields fields)
  | _ => []

namespace Client

/-- An interpolated text is the text. -/
theorem toString_text (text : String) : toString text = text := rfl

/-- The text of a declaration, from those of its name and its entries. -/
theorem textOf_declaration {keyword name : String} {fs : List Fragment} {texts : List String}
    {entries : List (List Fragment)} (named : name = textOf fs)
    (listed : texts = entries.map textOf) :
    (Declaration.mk keyword name (braced texts)).toText =
      textOf (Fragment.declaration keyword fs entries) := by
  simp [Declaration.toText, Fragment.declaration, braced, named, listed,
    toString_text, String.append_assoc]

/-- The fields of an interface are the texts of their fragments. -/
theorem map_ofFields (fields : List Field) :
    ((Descriptor.fieldTypes fields).map fun f => f.1 ++ (": " ++ f.2.toText)) =
      (Fragment.ofFields fields).map textOf := by
  simp [Descriptor.fieldTypes_eq_map, Fragment.ofFields, Function.comp_def,
    TypeExpr.toText_eq_fragments]

/-- **A declaration is the text of its fragments.** -/
theorem toText_declared {d : Descriptor} {m : Definition} (h : d.definition? = some m) :
    m.declaration.toText = textOf d.declared := by
  unfold Descriptor.definition? at h
  split at h <;> cases h
  · next e =>
    refine textOf_declaration (by simp; rfl) ?_
    simp [Definition.ofEnum, Function.comp_def]
  · next name fields =>
    refine textOf_declaration (by simp; rfl) ?_
    rw [← map_ofFields, Definition.ofFields, List.map_map]
    rfl
  · next name params fields =>
    refine textOf_declaration ?_ ?_
    · simp [Function.comp_def, Definition.declaredName, Definition.ofFields,
        Descriptor.declaredName, String.append_assoc]
    · rw [← map_ofFields, Definition.ofFields, List.map_map]
      rfl

/-! ## Statements -/

/-- The fragments of the name of a temporary. -/
def Temp.fragments (t : Temp) : List Fragment := [.word t.letter, .count t.number]

/-- The fragments of a place: roots and temporaries are words of the generator, fields are not. -/
def Place.fragments : Place → List Fragment
  | .root name => [.word name]
  | .temp t => t.fragments
  | .field p name => p.fragments ++ [.word ".", .verbatim name]
  | .item p i => p.fragments ++ [.word "[", .count i, .word "]"]
  | .slot p t => p.fragments ++ .word "[" :: t.fragments ++ [.word "]"]

/-- The fragments of a converted value. -/
def Conversion.fragments (source : List Fragment) : Conversion → List Fragment
  | .dateToText => .word "dateToStr(" :: source ++ [.word ")"]
  | .dateFromText => .word "strToDate(" :: source ++ [.word ")"]
  | .instantToText => source ++ [.word ".toISOString()"]
  | .instantFromText => .word "new Date(" :: source ++ [.word ")"]

/-- The fragments of an operand. -/
def Operand.fragments : Operand → List Fragment
  | .place p => p.fragments
  | .emptyObject => [.word "\x7b\x7d"]
  | .emptyArray => [.word "[]"]
  | .converted c p => c.fragments p.fragments

/-- The name of a temporary is the text of its fragments. -/
theorem Temp.name_eq_fragments (t : Temp) : t.name = textOf t.fragments := by
  simp [name, fragments]

/-- A place is the text of its fragments. -/
theorem Place.toText_eq_fragments (p : Place) : p.toText = textOf p.fragments := by
  induction p with
  | root name => simp [toText, fragments]
  | temp t => rw [toText, fragments, Temp.name_eq_fragments]
  | field p name ih => simp [toText, fragments, ih, String.append_assoc]
  | item p i ih => simp [toText, fragments, ih, String.append_assoc]
  | slot p t ih =>
    simp [toText, fragments, ih, Temp.name_eq_fragments, String.append_assoc]

/-- An operand is the text of its fragments. -/
theorem Operand.toText_eq_fragments (o : Operand) : o.toText = textOf o.fragments := by
  cases o with
  | place p => exact p.toText_eq_fragments
  | emptyObject => rfl
  | emptyArray => rfl
  | converted c p =>
    cases c <;> simp [toText, fragments, Conversion.apply, Conversion.fragments, Fragment.text,
      Place.toText_eq_fragments, String.append_assoc]

namespace Statement

/-- Lines of fragments, one level deeper. -/
def indented (lines : List (List Fragment)) : List (List Fragment) :=
  lines.map (.word "    " :: ·)

mutual

/-- The fragments of a statement, line by line. -/
def fragments : Statement → List (List Fragment)
  | .assign target value => [target.fragments ++ .word " = " :: value.fragments]
  | .declare t => [.word "let " :: t.fragments ++ [.word ": any;"]]
  | .forKeys t p body =>
    (.word "for (var " :: t.fragments ++ .word " in " :: p.fragments ++ [.word ") \x7b"]) ::
      indented (allFragments body) ++ [[.word "\x7d"]]
  | .unlessUndefined p body =>
    (.word "if (" :: p.fragments ++ [.word " !== undefined) \x7b"]) ::
      indented (allFragments body) ++ [[.word "\x7d"]]
  | .unlessNull source target body =>
    (.word "if (" :: source.fragments ++ .word " === null) \x7b " :: target.fragments ++
      [.word " = undefined; \x7d else \x7b"]) :: indented (allFragments body) ++ [[.word "\x7d"]]

/-- The fragments of statements one after the other. -/
def allFragments : List Statement → List (List Fragment)
  | [] => []
  | s :: rest => s.fragments ++ allFragments rest

end

/-- Lines that stand one level deeper are those of indented fragments. -/
theorem deeper_eq (lines : List (List Fragment)) :
    deeper (lines.map textOf) = (indented lines).map textOf := by
  simp [deeper, indented]

theorem allFragments_append (front rest : List Statement) :
    allFragments (front ++ rest) = allFragments front ++ allFragments rest := by
  induction front with
  | nil => rfl
  | cons s front ih => rw [List.cons_append, allFragments, allFragments, ih, List.append_assoc]

mutual

/-- The lines of a statement are the texts of its fragments. -/
theorem print_eq_fragments : ∀ s : Statement, s.print = s.fragments.map textOf
  | .assign target value => by
    simp [print, fragments, Place.toText_eq_fragments,
      Operand.toText_eq_fragments, String.append_assoc]
  | .declare t => by
    simp [print, fragments, Temp.name_eq_fragments, String.append_assoc]
  | .forKeys t p body => by
    rw [print, fragments, printAll_eq_fragments body, deeper_eq]
    simp [Temp.name_eq_fragments, Place.toText_eq_fragments, String.append_assoc]
  | .unlessUndefined p body => by
    rw [print, fragments, printAll_eq_fragments body, deeper_eq]
    simp [Place.toText_eq_fragments, String.append_assoc]
  | .unlessNull source target body => by
    rw [print, fragments, printAll_eq_fragments body, deeper_eq]
    simp [Place.toText_eq_fragments, String.append_assoc]

/-- **Statements are the texts of their fragments**, line by line. -/
theorem printAll_eq_fragments :
    ∀ body : List Statement, printAll body = (allFragments body).map textOf
  | [] => rfl
  | s :: rest => by
    rw [printAll, allFragments, List.map_append, print_eq_fragments s, printAll_eq_fragments rest]

end

end Statement

/-! ## Clients -/

/-- A function: its header up to the opening brace, and the lines of its body. -/
def Fragment.function (signature : List Fragment) (body : List (List Fragment)) : List Fragment :=
  signature ++ .word " \x7b\n" ::
    body.flatMap (fun line => .word "    " :: line ++ [.word "\n"]) ++ [.word "\x7d"]

/-- A function is the text of its fragments if its header and its lines are. -/
theorem textOf_function {f : Function} {signature : List Fragment} {body : List (List Fragment)}
    (header : f.signature = textOf signature) (lines : f.body = body.map textOf) :
    f.toText = textOf (Fragment.function signature body) := by
  rw [Function.toText, Fragment.function, header, lines]
  simp [textOf_flatMap, Function.comp_def, String.append_assoc]

namespace Caller

/-- The fragments of the name of the function that converts parameters. -/
def prepareNameFragments (c : Caller) : List Fragment :=
  [.word "_", .verbatim c.procedure, .word "ParamsToPrimitive"]

/-- The fragments of the name of the function that converts a result. -/
def restoreNameFragments (c : Caller) : List Fragment :=
  [.word "_", .verbatim c.procedure, .word "PrimitiveToResult"]

/-- The fragments of the function that converts parameters. -/
def prepareFragments (c : Caller) : List Fragment :=
  Fragment.function
    (.word "function " :: c.prepareNameFragments ++ .word "(params: " :: c.input.fragments ++
      [.word "): any"])
    ([.word "let preparedParams: any;"] :: Statement.allFragments c.prepareBody ++
      [[.word "return preparedParams;"]])

/-- The fragments of the function that converts a result. -/
def restoreFragments (c : Caller) : List Fragment :=
  Fragment.function
    (.word "function " :: c.restoreNameFragments ++ .word "(data: any): " :: c.output.fragments)
    (Statement.allFragments c.restoreBody ++ [[.word "return data;"]])

/-- The fragments of the function that makes the call. -/
def stubFragments (c : Caller) : List Fragment :=
  Fragment.function
    ([.word "export function ", .word "call", .verbatim c.procedure, .word "(params: "] ++
      c.input.fragments ++ .word "): AbortableRequest<" :: c.output.fragments ++ [.word ">"])
    [.word "return abortableFetch<" :: c.input.fragments ++ .word ", " :: c.output.fragments ++
      [.word ">(", .quoted c.procedure, .word ", params, "] ++ c.prepareNameFragments ++
      .word ", " :: c.restoreNameFragments ++ [.word ");"]]

theorem prepareName_eq (c : Caller) : c.prepareName = textOf c.prepareNameFragments := by
  simp [prepareName, prepareNameFragments, toString_text, String.append_assoc]

theorem restoreName_eq (c : Caller) : c.restoreName = textOf c.restoreNameFragments := by
  simp [restoreName, restoreNameFragments, toString_text, String.append_assoc]

/-- The function that prepares parameters is the text of its fragments. -/
theorem toText_prepare (c : Caller) : c.prepareFunction.toText = textOf c.prepareFragments := by
  refine textOf_function ?_ ?_
  · simp [prepareFunction, prepareName_eq, TypeExpr.toText_eq_fragments,
      toString_text, String.append_assoc]
  · simp [prepareFunction, Statement.printAll_eq_fragments]

/-- The function that restores a result is the text of its fragments. -/
theorem toText_restore (c : Caller) : c.restoreFunction.toText = textOf c.restoreFragments := by
  refine textOf_function ?_ ?_
  · simp [restoreFunction, restoreName_eq, TypeExpr.toText_eq_fragments,
      toString_text, String.append_assoc]
  · simp [restoreFunction, Statement.printAll_eq_fragments]

/-- The function that makes the call is the text of its fragments. -/
theorem toText_stub (c : Caller) : c.stub.toText = textOf c.stubFragments := by
  refine textOf_function ?_ ?_
  · simp [stub, TypeExpr.toText_eq_fragments, toString_text, String.append_assoc]
  · simp [stub, prepareName_eq, restoreName_eq, TypeExpr.toText_eq_fragments,
      toString_text, String.append_assoc]

end Caller

namespace Artifact

/-- The fragments of the line that sets the default address. -/
def urlFragments (url : String) : List Fragment :=
  [.word "rpcConfig.url = ", .quoted url, .word ";"]

/-- The fragments of a client behind the runtime, with declarations of the given descriptors. -/
def fragments (a : Artifact) (declared : List Descriptor) : List Fragment :=
  ((a.url?.map urlFragments).toList ++ declared.map Descriptor.declared ++
    (a.callers.map (·.prepareFragments) ++ a.callers.map (·.restoreFragments) ++
      a.callers.map (·.stubFragments))).flatMap fun piece =>
    .word "\n" :: piece ++ [.word "\n"]

/-- The line of the default address quotes the address. -/
theorem urlLine_eq_fragments (url : String) : urlLine url = textOf (urlFragments url) := by
  have parts : urlLine url = "rpcConfig.url = " ++ Json.quote url ++ ";" := rfl
  simp [parts, urlFragments, String.append_assoc]

/-- **A client is the text of its fragments**, behind the runtime. -/
theorem render_eq_fragments {a : Artifact} {declared : List Descriptor}
    (h : a.enums.map (·.toText) ++ a.interfaces.map (·.toText) =
      (declared.map Descriptor.declared).map textOf) :
    a.render = Text.trimEnd a.prelude ++ "\n" ++ textOf (a.fragments declared) := by
  have pieces : a.pieces = (((a.url?.map urlFragments).toList ++
      declared.map Descriptor.declared ++ (a.callers.map (·.prepareFragments) ++
        a.callers.map (·.restoreFragments) ++ a.callers.map (·.stubFragments))).map textOf) := by
    have url : (a.url?.map urlLine).toList = ((a.url?.map urlFragments).toList).map textOf := by
      cases a.url? with
      | none => rfl
      | some url => simp [urlLine_eq_fragments]
    have functions : a.functions.map (·.toText) = (a.callers.map (·.prepareFragments) ++
        a.callers.map (·.restoreFragments) ++ a.callers.map (·.stubFragments)).map textOf := by
      simp [Artifact.functions, prepareFunctions, restoreFunctions, stubs, Function.comp_def,
        Caller.toText_prepare, Caller.toText_restore, Caller.toText_stub]
    rw [Artifact.pieces, List.append_assoc _ _ (a.interfaces.map _), h, url, functions,
      ← List.map_append, ← List.map_append]
  rw [render, pieces, fragments, textOf_flatMap]
  simp [Function.comp_def, String.append_assoc]

end Artifact

end Client

end RpcBridge
