import RpcBridge.Proofs.Client.Fragments
import RpcBridge.Proofs.Client.Order

/-!
# Proofs/Client/Emitted — what reaches the text of a client

A name is written into a client as it is, and so it is checked first, wherever it stands in a type:
what has been checked is an identifier.  Any other text of a procedure is written as a JSON string.
What is left are words of the generator and numbers, so a client is made of identifiers, literals
and words that do not depend on the procedures.

* `Descriptor.names`, `Emits` — the names that are written as they are;
* `Fragment.vocabulary` — the words of the generator;
* `admits_typeExpr`, `admits_declared`, `admits_of_convert` — types, declarations and statements
  are made of them;
* `emitted_of_exportClient` — a whole client is.
-/

namespace RpcBridge

open Client

/-! ## Names that are taken over -/

namespace Descriptor

/-- The names that are taken over from a descriptor itself.  A transparent record has none. -/
def names : Descriptor → List String
  | .enum e => e.name :: e.members.map (·.name)
  | .param name => [name]
  | .record name fields false => name :: fields.map (·.1)
  | .template name params fields => name :: (params ++ fields.map (·.1))
  | _ => []

/-- A part of a part is a part. -/
theorem OccursIn.trans {p q d : Descriptor} (h : p.OccursIn q) (h' : q.OccursIn d) :
    p.OccursIn d := by
  induction h' with
  | here => exact h
  | record hf _ ih => exact .record hf ih
  | template hf _ ih => exact .template hf ih
  | origin _ ih => exact .origin ih
  | argument hd _ ih => exact .argument hd ih
  | list _ ih => exact .list ih
  | tuple hd _ ih => exact .tuple hd ih
  | variadic hd _ ih => exact .variadic hd ih
  | key _ ih => exact .key ih
  | value _ ih => exact .value ih
  | optional _ ih => exact .optional ih
  | union hd _ ih => exact .union hd ih

/-- What can be rendered consists of what can be rendered. -/
theorem Renderable.part {q d : Descriptor} (h : q.OccursIn d) (hd : d.Renderable) :
    q.Renderable := by
  induction h with
  | here => exact hd
  | @record name fields transparent f hf _ ih =>
    cases transparent with
    | true =>
      -- what is wrapped is rendered in place of the wrapper
      obtain ⟨field, inner, rfl, wrapped⟩ := Renderable.wrapper_iff.1 hd
      obtain rfl := List.mem_singleton.1 hf
      exact ih wrapped
    | false => exact ih ((Renderable.record_iff.1 hd).2.2 f hf)
  | template hf _ ih => exact ih ((Renderable.template_iff.1 hd).2.2.2 _ hf)
  | origin _ ih =>
    cases hd with
    | application _ origin => exact ih origin
    | plain origin => exact ih origin
  | argument harg _ ih =>
    cases hd with
    | application _ _ inner => exact ih (inner _ harg)
    | plain => cases harg
  | list _ ih => exact ih (Renderable.list_iff.1 hd)
  | tuple hitem _ ih => exact ih (Renderable.tuple_iff.1 hd _ hitem)
  | variadic hitem _ ih =>
    obtain ⟨item, rfl, inner⟩ := Renderable.variadic_iff.1 hd
    obtain rfl := List.mem_singleton.1 hitem
    exact ih inner
  | key _ ih => exact ih (Renderable.mapping_iff.1 hd).1
  | value _ ih => exact ih (Renderable.mapping_iff.1 hd).2
  | optional _ ih => exact ih (Renderable.optional_iff.1 hd)
  | union hmember _ ih => exact ih ((Renderable.union_iff.1 hd).2 _ hmember)

/-- **The names of what can be rendered are identifiers.** -/
theorem Renderable.identifier {d : Descriptor} (h : d.Renderable) {n : String} (hn : n ∈ d.names) :
    Identifier n := by
  rw [← isIdentifier_iff]
  cases h with
  | enum named members =>
    rcases List.mem_cons.1 hn with rfl | hn
    · exact named
    · obtain ⟨m, hm, rfl⟩ := List.mem_map.1 hn
      exact members m hm
  | param named =>
    obtain rfl := List.mem_singleton.1 hn
    exact named
  | record named listed =>
    rcases List.mem_cons.1 hn with rfl | hn
    · exact named
    · obtain ⟨f, hf, rfl⟩ := List.mem_map.1 hn
      exact listed f hf
  | template named bound listed =>
    rcases List.mem_cons.1 hn with rfl | hn
    · exact named
    · rcases List.mem_append.1 hn with hn | hn
      · exact bound n hn
      · obtain ⟨f, hf, rfl⟩ := List.mem_map.1 hn
        exact listed f hf
  | _ => cases hn

/-- The fields of a record in a shape are names of a part of the descriptor. -/
theorem exists_names_of_shape {d : Descriptor} {name : String} {fields : List (String × Shape)}
    (h : (Shape.record name fields).OccursIn d.shape) {f : String × Shape} (hf : f ∈ fields) :
    ∃ p : Descriptor, p.OccursIn d ∧ f.1 ∈ p.names := by
  obtain ⟨p, occurs, comes⟩ := exists_part_of_shape h
  have listed : f.1 ∈ p.fieldNames := comes.names.subset (List.mem_map.2 ⟨f, hf, rfl⟩)
  refine ⟨p, occurs, ?_⟩
  cases p with
  | record name' fields' transparent =>
    cases transparent with
    | true => exact absurd rfl (comes.record name fields rfl name' fields')
    | false => exact List.mem_cons_of_mem _ listed
  | template => exact List.mem_cons_of_mem _ (List.mem_append_right _ listed)
  | _ => cases listed

end Descriptor

namespace Client

/-- A name that a client takes over: of a procedure, or from a part of a type. -/
def Emits (procedures : List Procedure) (n : String) : Prop :=
  (∃ p ∈ procedures, p.name = n) ∨
    ∃ d : Descriptor, d.OccursAmong procedures ∧ n ∈ d.names

/-- A text that a client quotes: the name of a procedure, a literal of an enum, or the address. -/
def Quotes (options : ExportOptions) (procedures : List Procedure) (s : String) : Prop :=
  (∃ p ∈ procedures, p.name = s) ∨ options.url? = some s ∨
    ∃ e : EnumDef, (Descriptor.enum e).OccursAmong procedures ∧ ∃ m ∈ e.members, m.value = .text s

/-- Every part of procedures that can be exported can be rendered. -/
theorem Exportable.renderable {procedures : List Procedure} {d : Descriptor}
    (h : Exportable procedures) (among : d.OccursAmong procedures) : d.Renderable := by
  obtain ⟨p, hp, occurs | occurs⟩ := among
  · exact .part occurs (h.alone p hp).input
  · exact .part occurs (h.alone p hp).output

/-- **A name that a client takes over is an identifier.** -/
theorem identifier_of_emits {options : ExportOptions} {procedures : List Procedure} {a : Artifact}
    (h : exportClient options procedures = .ok a) {n : String} (hn : Emits procedures n) :
    Identifier n := by
  have exportable := exists_exportClient.1 ⟨a, h⟩
  rcases hn with ⟨p, hp, rfl⟩ | ⟨d, ⟨p, hp, occurs⟩, hn⟩
  · exact isIdentifier_iff.1 (exportable.alone p hp).named
  · exact (exportable.renderable ⟨p, hp, occurs⟩).identifier hn

/-! ## Fragments that are admitted -/

namespace Fragment

/-- The words of the generator. -/
def vocabulary : List String :=
  -- types
  ["string", "number", "boolean", "any", "Array<any>", "undefined", "Date", "Array<", "<", ">",
    "[", "]", ", ", "\x7b [k: ", "]: ", " \x7d", " | undefined", " | ",
  -- declarations
    "export ", "enum", "interface", " ", "\x7b", "\x7d", " = ", ": ",
  -- statements
    "params", "preparedParams", "data", "i", "k", ".", "\x7b\x7d", "[]", "dateToStr(", "strToDate(",
    ")", ".toISOString()", "new Date(", "let ", ": any;", "for (var ", " in ", ") \x7b", "if (",
    " !== undefined) \x7b", " === null) \x7b ", " = undefined; \x7d else \x7b", "    ",
  -- functions
    "function ", "export function ", "_", "call", "ParamsToPrimitive", "PrimitiveToResult",
    "(params: ", "(data: any): ", "): any", "): AbortableRequest<", " \x7b\n",
    "let preparedParams: any;", "return preparedParams;", "return data;",
    "return abortableFetch<", ">(", ", params, ", ");", "rpcConfig.url = ", ";", "\n"]

/-- A fragment that is a word of the generator, a number, or one of the given names or texts. -/
def Admitted (names quotes : String → Prop) : Fragment → Prop
  | .word w => w ∈ vocabulary
  | .verbatim n => names n
  | .quoted s => quotes s
  | .count _ | .whole _ | .real _ => True

/-- Fragments that are all admitted. -/
def Admits (names quotes : String → Prop) (fs : List Fragment) : Prop :=
  ∀ f ∈ fs, f.Admitted names quotes

variable {names quotes : String → Prop} {f : Fragment} {fs gs : List Fragment}

/-- A word is admitted when it belongs to the vocabulary. -/
@[simp] theorem admitted_word {w : String} : (word w).Admitted names quotes ↔ w ∈ vocabulary :=
  Iff.rfl

/-- A name is admitted when it is among the admitted names. -/
@[simp] theorem admitted_verbatim {n : String} : (verbatim n).Admitted names quotes ↔ names n :=
  Iff.rfl

/-- A quoted text is admitted when it is among the admitted texts. -/
@[simp] theorem admitted_quoted {s : String} : (quoted s).Admitted names quotes ↔ quotes s :=
  Iff.rfl

/-- A number is always admitted. -/
@[simp] theorem admitted_count {n : Nat} : (count n).Admitted names quotes := trivial

@[simp] theorem admits_nil : Admits names quotes [] := List.forall_mem_nil _

@[simp] theorem admits_cons :
    Admits names quotes (f :: fs) ↔ f.Admitted names quotes ∧ Admits names quotes fs :=
  List.forall_mem_cons

@[simp] theorem admits_append :
    Admits names quotes (fs ++ gs) ↔ Admits names quotes fs ∧ Admits names quotes gs :=
  List.forall_mem_append

/-- Fragments that come from a list are admitted if they are for each of its elements. -/
theorem admits_flatMap {α : Type} {f : α → List Fragment} {as : List α}
    (each : ∀ a ∈ as, Admits names quotes (f a)) : Admits names quotes (as.flatMap f) := by
  intro g hg
  obtain ⟨a, ha, hg⟩ := List.mem_flatMap.1 hg
  exact each a ha g hg

/-- A separator that is a known word may stand between admitted fragments. -/
theorem admits_separated {separator : String} {fss : List (List Fragment)}
    (known : separator ∈ vocabulary) (each : ∀ fs ∈ fss, Admits names quotes fs) :
    Admits names quotes (separated separator fss) := by
  unfold separated
  induction fss with
  | nil => exact admits_nil
  | cons fs rest ih =>
    rw [List.forall_mem_cons] at each
    cases rest with
    | nil => simpa using each.1
    | cons gs rest =>
      rw [List.intercalate_cons_cons, admits_append, admits_append]
      exact ⟨⟨each.1, admits_cons.2 ⟨known, admits_nil⟩⟩, ih each.2⟩

end Fragment

/-! ## Types and declarations -/

open Fragment

variable {names quotes : String → Prop}

/-- The type of a scalar is a word, or two. -/
theorem admits_ofScalar (kind : ScalarKind) :
    Admits names quotes (TypeExpr.ofScalar kind).fragments := by
  cases kind <;> simp [TypeExpr.ofScalar, TypeExpr.fragments, vocabulary]

/-- **A type is made of words and of the names of its descriptor.** -/
theorem admits_typeExpr {d : Descriptor} (h : d.Renderable)
    (named : ∀ p : Descriptor, p.OccursIn d → ∀ n ∈ p.names, names n) :
    Admits names quotes d.typeExpr.fragments := by
  have separator : ", " ∈ vocabulary := by simp [vocabulary]
  have all {ds : List Descriptor}
      (each : ∀ d ∈ ds, Admits names quotes d.typeExpr.fragments) :
      ∀ fs ∈ TypeExpr.allFragments (Descriptor.typeExprs ds), Admits names quotes fs := by
    rw [TypeExpr.allFragments_eq_map, Descriptor.typeExprs_eq_map, List.map_map]
    exact List.forall_mem_map.2 each
  induction h with
  | scalar kind => exact admits_ofScalar kind
  | temporal kind => simp [Descriptor.typeExpr, TypeExpr.fragments, vocabulary]
  | @enum e =>
    have here := named _ .here e.name (List.mem_cons_self ..)
    simpa [Descriptor.typeExpr, TypeExpr.fragments] using here
  | @param name =>
    have here := named _ .here name (List.mem_singleton_self _)
    simpa [Descriptor.typeExpr, TypeExpr.fragments] using here
  | list _ ih =>
    have inner := ih fun p hp => named p (.list hp)
    simp [Descriptor.typeExpr, TypeExpr.fragments, inner, vocabulary]
  | variadic _ ih =>
    have inner := ih fun p hp => named p (.variadic (List.mem_singleton_self _) hp)
    simp [Descriptor.typeExpr, Descriptor.typeExprs, TypeExpr.fragments, inner, vocabulary]
  | tuple _ ih =>
    have inner := admits_separated separator
      (all fun d hd => ih d hd fun p hp => named p (.tuple hd hp))
    simp [Descriptor.typeExpr, TypeExpr.fragments, inner, vocabulary]
  | mapping _ _ ihKey ihValue =>
    have keys := ihKey fun p hp => named p (.key hp)
    have values := ihValue fun p hp => named p (.value hp)
    simp [Descriptor.typeExpr, TypeExpr.fragments, keys, values, vocabulary]
  | optional _ ih =>
    have inner := ih fun p hp => named p (.optional hp)
    simp [Descriptor.typeExpr, TypeExpr.fragments, inner, vocabulary]
  | union _ _ ih =>
    exact admits_separated (by simp [vocabulary])
      (all fun d hd => ih d hd fun p hp => named p (.union hd hp))
  | wrapper _ ih =>
    exact ih fun p hp => named p (.record (List.mem_singleton_self _) hp)
  | @record name =>
    have here := named _ .here name (List.mem_cons_self ..)
    simpa [Descriptor.typeExpr, TypeExpr.fragments] using here
  | @template name params =>
    have here := named _ .here name (List.mem_cons_self ..)
    have bound : ∀ p ∈ params, names p := fun p hp =>
      named _ .here p (List.mem_cons_of_mem _ (List.mem_append_left _ hp))
    have inner : Admits names quotes
        (separated ", " (TypeExpr.allFragments (params.map .param))) := by
      refine admits_separated separator ?_
      rw [TypeExpr.allFragments_eq_map, List.map_map]
      exact List.forall_mem_map.2 fun p hp => by simpa [TypeExpr.fragments] using bound p hp
    simp [Descriptor.typeExpr, TypeExpr.fragments, here, inner, vocabulary]
  | @application name _ _ args _ _ _ _ ihArgs =>
    have origin := named _ (.origin .here) name (List.mem_cons_self ..)
    have inner := admits_separated separator
      (all fun d hd => ihArgs d hd fun p hp => named p (.argument hd hp))
    simp [Descriptor.typeExpr, TypeExpr.fragments, origin, inner, vocabulary]
  | plain _ ih => exact ih fun p hp => named p (.origin hp)

/-- A declaration is admitted if its keyword is a known word and its name and entries are admitted.
-/
theorem admits_declaration {keyword : String} {fs : List Fragment}
    {entries : List (List Fragment)} (known : keyword ∈ vocabulary)
    (named : Admits names quotes fs) (each : ∀ e ∈ entries, Admits names quotes e) :
    Admits names quotes (declaration keyword fs entries) := by
  have inner : Admits names quotes (separated ", " entries) :=
    admits_separated (by simp [vocabulary]) each
  simp only [declaration, admits_append, admits_cons, admitted_word, named, inner, known]
  simp [vocabulary]

/-- The fields of a declaration are made of words and of names. -/
theorem admits_ofFields {fields : List Field} (listed : ∀ f ∈ fields, names f.1)
    (types : ∀ f ∈ fields, Admits names quotes f.2.typeExpr.fragments) :
    ∀ e ∈ Fragment.ofFields fields, Admits names quotes e := by
  refine List.forall_mem_map.2 fun f hf => ?_
  simp [listed f hf, types f hf, vocabulary]

/-- A literal is a number, or a text that is quoted. -/
theorem admits_ofLiteral {l : EnumLiteral} (known : ∀ s, l = .text s → quotes s) :
    (ofLiteral l).Admitted names quotes := by
  cases l with
  | int | float => trivial
  | text s => exact known s rfl

/-- **A declaration is made of words, of the names of its descriptor and of the literals of an
enum.** -/
theorem admits_declared {d : Descriptor} (h : d.Renderable)
    (named : ∀ p : Descriptor, p.OccursIn d → ∀ n ∈ p.names, names n)
    (quoted : ∀ e : EnumDef, d = .enum e → ∀ m ∈ e.members, ∀ s, m.value = .text s → quotes s) :
    Admits names quotes d.declared := by
  have here := named d .here
  cases h with
  | @enum e =>
    refine admits_declaration (by simp [vocabulary]) ?_ (List.forall_mem_map.2 fun m hm => ?_)
    · simpa using here e.name (List.mem_cons_self ..)
    · have member := here m.name (List.mem_cons_of_mem _ (List.mem_map_of_mem hm))
      have literal : (ofLiteral m.value).Admitted names quotes :=
        admits_ofLiteral (quoted e rfl m hm)
      simp [member, literal, vocabulary]
  | @record name fields _ _ inner =>
    refine admits_declaration (by simp [vocabulary]) ?_ (admits_ofFields ?_ fun f hf =>
      admits_typeExpr (inner f hf) fun p hp => named p (.record hf hp))
    · simpa using here name (List.mem_cons_self ..)
    · exact fun f hf => here f.1 (List.mem_cons_of_mem _ (List.mem_map_of_mem hf))
  | @template name params fields _ _ _ inner =>
    have bound : Admits names quotes (separated ", " (params.map fun p => [.verbatim p])) := by
      refine admits_separated (by simp [vocabulary]) (List.forall_mem_map.2 fun p hp => ?_)
      simpa using here p (List.mem_cons_of_mem _ (List.mem_append_left _ hp))
    refine admits_declaration (by simp [vocabulary]) ?_ (admits_ofFields ?_ fun f hf =>
      admits_typeExpr (inner f hf) fun p hp => named p (.template hf hp))
    · have own := here name (List.mem_cons_self ..)
      simp [own, bound, vocabulary]
    · exact fun f hf => here f.1
        (List.mem_cons_of_mem _ (List.mem_append_right _ (List.mem_map_of_mem hf)))
  | _ => exact admits_nil

/-! ## Statements -/

/-- Lines that are all admitted. -/
def AdmitsLines (names quotes : String → Prop) (lines : List (List Fragment)) : Prop :=
  ∀ line ∈ lines, Admits names quotes line

section Lines

variable {line : List Fragment} {lines more : List (List Fragment)}

@[simp] theorem admitsLines_nil : AdmitsLines names quotes [] := List.forall_mem_nil _

@[simp] theorem admitsLines_cons : AdmitsLines names quotes (line :: lines) ↔
    Admits names quotes line ∧ AdmitsLines names quotes lines := List.forall_mem_cons

@[simp] theorem admitsLines_append : AdmitsLines names quotes (lines ++ more) ↔
    AdmitsLines names quotes lines ∧ AdmitsLines names quotes more := List.forall_mem_append

/-- Indenting lines does not change whether they are admitted. -/
@[simp] theorem admitsLines_indented :
    AdmitsLines names quotes (Statement.indented lines) ↔ AdmitsLines names quotes lines := by
  have known : "    " ∈ vocabulary := by simp [vocabulary]
  simp [AdmitsLines, Statement.indented, known]

end Lines

/-- Statements whose lines are all admitted. -/
def AdmitsBody (names quotes : String → Prop) (body : List Statement) : Prop :=
  AdmitsLines names quotes (Statement.allFragments body)

section Statements

variable {direction : Direction} {source target : Place} {n m : Nat} {code : Code} {t : Temp}
  {s : Statement} {body front rest : List Statement}

theorem admitsBody_nil : AdmitsBody names quotes [] := admitsLines_nil

theorem admitsBody_cons : AdmitsBody names quotes (s :: rest) ↔
    AdmitsLines names quotes s.fragments ∧ AdmitsBody names quotes rest := admitsLines_append

/-- Statements one after the other are admitted if both parts are. -/
theorem AdmitsBody.append (first : AdmitsBody names quotes front)
    (second : AdmitsBody names quotes rest) : AdmitsBody names quotes (front ++ rest) := by
  rw [AdmitsBody, Statement.allFragments_append]
  exact admitsLines_append.2 ⟨first, second⟩

/-- The name of an index is a word and a number. -/
theorem admits_index (n : Nat) : Admits names quotes (Temp.mk "i" n).fragments := by
  simp [Temp.fragments, vocabulary]

/-- The name of a key is a word and a number. -/
theorem admits_key (n : Nat) : Admits names quotes (Temp.mk "k" n).fragments := by
  simp [Temp.fragments, vocabulary]

/-- A field of an admitted place is admitted if its name is. -/
theorem admits_field {name : String} (known : names name)
    (h : Admits names quotes source.fragments) :
    Admits names quotes (source.field name).fragments := by
  simp [Place.fragments, h, known, vocabulary]

/-- An item of an admitted place is admitted. -/
theorem admits_item {i : Nat} (h : Admits names quotes source.fragments) :
    Admits names quotes (source.item i).fragments := by
  simp [Place.fragments, h, vocabulary]

/-- A slot of an admitted place is admitted with the temporary in it. -/
theorem admits_slot (temp : Admits names quotes t.fragments)
    (h : Admits names quotes source.fragments) :
    Admits names quotes (source.slot t).fragments := by
  simp [Place.fragments, h, temp, vocabulary]

/-- A converted value is admitted: the conversions are words around the value. -/
theorem admits_converted {c : Conversion} (h : Admits names quotes source.fragments) :
    Admits names quotes (Operand.converted c source).fragments := by
  cases c <;> simp [Operand.fragments, Conversion.fragments, h, vocabulary]

/-- An assignment is admitted if both of its sides are. -/
theorem admitsBody_assign {value : Operand} (htarget : Admits names quotes target.fragments)
    (hvalue : Admits names quotes value.fragments) :
    AdmitsBody names quotes [.assign target value] := by
  simp [admitsBody_cons, admitsBody_nil, Statement.fragments, htarget, hvalue, vocabulary]

/-- A loop over keys is admitted with what it repeats. -/
theorem admitsBody_forKeys (temp : Admits names quotes t.fragments)
    (hsource : Admits names quotes source.fragments) (inner : AdmitsBody names quotes body) :
    AdmitsBody names quotes [.forKeys t source body] := by
  rw [AdmitsBody] at inner
  simp [admitsBody_cons, admitsBody_nil, Statement.fragments, temp, hsource, inner, vocabulary]

/-- A test for undefined is admitted with what stands under it. -/
theorem admitsBody_unlessUndefined (hsource : Admits names quotes source.fragments)
    (inner : AdmitsBody names quotes body) :
    AdmitsBody names quotes [.unlessUndefined source body] := by
  rw [AdmitsBody] at inner
  simp [admitsBody_cons, admitsBody_nil, Statement.fragments, hsource, inner, vocabulary]

/-- A test for null is admitted with what stands under it. -/
theorem admitsBody_unlessNull (hsource : Admits names quotes source.fragments)
    (htarget : Admits names quotes target.fragments) (inner : AdmitsBody names quotes body) :
    AdmitsBody names quotes [.unlessNull source target body] := by
  rw [AdmitsBody] at inner
  simp [admitsBody_cons, admitsBody_nil, Statement.fragments, hsource, htarget, inner, vocabulary]

/-- Declaring an admitted temporary is admitted. -/
theorem admitsBody_declare (temp : Admits names quotes t.fragments) :
    AdmitsBody names quotes [.declare t] := by
  simp [admitsBody_cons, admitsBody_nil, Statement.fragments, temp, vocabulary]

/-- A copy is an assignment, or nothing. -/
theorem admitsBody_copy (hsource : Admits names quotes source.fragments)
    (htarget : Admits names quotes target.fragments) :
    AdmitsBody names quotes (Code.copy source target).body := by
  unfold Code.copy
  split
  · exact admitsBody_nil
  · exact admitsBody_assign htarget hsource

/-- A fresh container is a word. -/
theorem admitsBody_fresh {container : Operand} (htarget : Admits names quotes target.fragments)
    (word : Admits names quotes container.fragments) :
    AdmitsBody names quotes (Code.fresh direction target container) := by
  cases direction with
  | out => exact admitsBody_assign htarget word
  | back => exact admitsBody_nil

theorem admits_emptyObject : Admits names quotes Operand.emptyObject.fragments := by
  simp [Operand.fragments, vocabulary]

theorem admits_emptyArray : Admits names quotes Operand.emptyArray.fragments := by
  simp [Operand.fragments, vocabulary]

/-- A value that has been moved is converted in its new slot, or copied. -/
theorem admitsBody_ofMoved {inPlace : Code} (hsource : Admits names quotes source.fragments)
    (htarget : Admits names quotes target.fragments)
    (inner : AdmitsBody names quotes inPlace.body) :
    AdmitsBody names quotes (Code.ofMoved source target inPlace).body := by
  unfold Code.ofMoved
  split
  · have moved : AdmitsBody names quotes [.assign target (.place source)] :=
      admitsBody_assign htarget hsource
    exact moved.append inner
  · exact admitsBody_copy hsource htarget

/-- The loop over a dictionary is admitted with the keys and the values in it. -/
theorem admitsBody_ofMapping {keys values : Code} (key prepared : Nat)
    (hsource : Admits names quotes source.fragments)
    (htarget : Admits names quotes target.fragments) (hkeys : AdmitsBody names quotes keys.body)
    (hvalues : AdmitsBody names quotes values.body) :
    AdmitsBody names quotes
      (Code.ofMapping direction ⟨"k", key⟩ ⟨"k", prepared⟩ source target keys values).body := by
  unfold Code.ofMapping
  split
  · have container : AdmitsBody names quotes (Code.fresh direction target .emptyObject) :=
      admitsBody_fresh htarget admits_emptyObject
    have loop := admitsBody_forKeys (admits_key key) hsource (hkeys.append hvalues)
    exact (admitsBody_declare (admits_key prepared)).append (container.append loop)
  · exact admitsBody_copy hsource htarget

/-- The statements for a shape are admitted wherever those for its place are. -/
def AdmitsConverted (names quotes : String → Prop) (direction : Direction) (s : Shape) : Prop :=
  ∀ {source target : Place} {n m : Nat} {code : Code}, Admits names quotes source.fragments →
    Admits names quotes target.fragments → Yields (convert direction s source target) n code m →
    AdmitsBody names quotes code.body

/-- An array is admitted with its element, which is converted at an index. -/
theorem admitsConverted_list {element : Shape}
    (each : AdmitsConverted names quotes direction element) :
    AdmitsConverted names quotes direction (.list element) := by
  intro source target n m code hsource htarget h
  obtain ⟨inner, generated, rfl⟩ := convert_list h
  have body := each (admits_slot (admits_index n) hsource) (admits_slot (admits_index n) htarget)
    generated
  unfold Code.ofList
  split
  · exact (admitsBody_fresh htarget admits_emptyArray).append
      (admitsBody_forKeys (admits_index n) hsource body)
  · exact admitsBody_copy hsource htarget

/-- Values whose keys are converted on the way back are read where they have been moved to. -/
theorem admitsConverted_mapping {key value : Shape}
    (keys : AdmitsConverted names quotes direction key)
    (values : AdmitsConverted names quotes direction value) :
    AdmitsConverted names quotes direction (.mapping key value) := by
  intro source target n m code hsource htarget h
  obtain ⟨key, between, walked, generated, walk⟩ := convert_mapping h
  have ofSource := admits_slot (admits_key n) hsource
  have ofTarget := admits_slot (admits_key (n + 1)) htarget
  have hkeys := keys (admits_key n) (admits_key (n + 1)) generated
  rcases walk with ⟨-, value, rfl⟩ | ⟨-, value, rfl⟩
  · exact admitsBody_ofMapping n (n + 1) hsource htarget hkeys (values ofSource ofTarget value)
  · exact admitsBody_ofMapping n (n + 1) hsource htarget hkeys
      (admitsBody_ofMoved ofSource ofTarget (values ofTarget ofTarget value))

/-- A tuple is admitted with its items, behind a fresh array. -/
theorem admitsConverted_tuple {items : List Shape}
    (each : ∀ s ∈ items, AdmitsConverted names quotes direction s) :
    AdmitsConverted names quotes direction (.tuple items) := by
  intro source target n m code hsource htarget h
  obtain ⟨inner, generated, rfl⟩ := convert_tuple h
  have body := convertItems_walk (P := fun _ body _ => AdmitsBody names quotes body)
    (fun _ => admitsBody_nil) AdmitsBody.append
    (fun s hs => each s hs (admits_item hsource) (admits_item htarget)) generated
  rcases body_ofTuple direction source target inner with copied | built
  · rw [copied]
    exact admitsBody_copy hsource htarget
  · rw [built]
    exact (admitsBody_fresh htarget admits_emptyArray).append body

/-- An optional type is admitted under a test for undefined or for null. -/
theorem admitsConverted_optional {inner : Shape}
    (present : AdmitsConverted names quotes direction inner) :
    AdmitsConverted names quotes direction (.optional inner) := by
  intro source target n m code hsource htarget h
  obtain ⟨there, generated, rfl⟩ := convert_optional h
  have body := present hsource htarget generated
  cases direction with
  | out => exact admitsBody_unlessUndefined hsource body
  | back => exact admitsBody_unlessNull hsource htarget body

/-- A record is admitted with its fields, whose names are admitted. -/
theorem admitsConverted_record {name : String} {fields : List (String × Shape)}
    (known : ∀ f ∈ fields, names f.1)
    (each : ∀ f ∈ fields, AdmitsConverted names quotes direction f.2) :
    AdmitsConverted names quotes direction (.record name fields) := by
  intro source target n m code hsource htarget h
  obtain ⟨inner, generated, rfl⟩ := convert_record h
  refine (admitsBody_fresh htarget admits_emptyObject).append ?_
  exact convertFields_walk (P := fun _ body _ => AdmitsBody names quotes body)
    (fun _ => admitsBody_nil) AdmitsBody.append
    (fun f hf _ _ _ converted => each f hf (admits_field (known f hf) hsource)
      (admits_field (known f hf) htarget) converted) generated

/-- **Generated statements are made of words, numbers and the names of fields.** -/
theorem admits_of_convert {s : Shape}
    (named : ∀ name fields, (Shape.record name fields).OccursIn s → ∀ f ∈ fields, names f.1) :
    AdmitsConverted names quotes direction s := by
  induction s with
  | scalar =>
    intro source target n m code hsource htarget h
    rw [(convert_scalar h).1]
    exact admitsBody_copy hsource htarget
  | enum =>
    intro source target n m code hsource htarget h
    rw [(convert_enum h).1]
    exact admitsBody_copy hsource htarget
  | temporal =>
    intro source target n m code hsource htarget h
    rw [(convert_temporal h).1]
    exact admitsBody_assign htarget (admits_converted hsource)
  | list _ ih =>
    exact admitsConverted_list (ih fun name fields hr => named name fields (.list hr))
  | mapping _ _ ihKey ihValue =>
    exact admitsConverted_mapping (ihKey fun name fields hr => named name fields (.key hr))
      (ihValue fun name fields hr => named name fields (.value hr))
  | tuple _ ih =>
    exact admitsConverted_tuple fun s hs => ih s hs fun name fields hr =>
      named name fields (.tuple hs hr)
  | optional _ ih =>
    exact admitsConverted_optional (ih fun name fields hr => named name fields (.optional hr))
  | record name fields ih =>
    exact admitsConverted_record (named name fields .here) fun f hf => ih f hf fun name' fields' hr =>
      named name' fields' (.record hf hr)
  | wrapper _ _ inner ih =>
    intro source target n m code hsource htarget h
    exact ih (fun name fields hr => named name fields (.wrapper hr)) hsource htarget
      (convert_wrapper h)
  | opened _ _ fields ih =>
    intro source target n m code hsource htarget h
    obtain ⟨field, inner, rfl, generated⟩ := convert_opened h
    have one := List.mem_singleton_self (field, inner)
    exact ih _ one (fun name fields hr => named name fields (.opened one hr)) hsource htarget
      generated
  | bareTemplate => exact fun _ _ h => (convert_bareTemplate h).elim
  | blocked => exact fun _ _ h => (convert_blocked h).elim

end Statements

/-! ## Functions -/

/-- What a caller is made of, all of it admitted. -/
structure Caller.Admitted (names quotes : String → Prop) (c : Caller) : Prop where
  name : names c.procedure
  method : quotes c.procedure
  input : Admits names quotes c.input.fragments
  output : Admits names quotes c.output.fragments
  prepare : AdmitsBody names quotes c.prepare.body
  restore : AdmitsBody names quotes c.restore.body

/-- A function is admitted if its signature and its lines are. -/
theorem admits_function {signature : List Fragment} {body : List (List Fragment)}
    (header : Admits names quotes signature) (lines : AdmitsLines names quotes body) :
    Admits names quotes (Fragment.function signature body) := by
  have inner : Admits names quotes
      (body.flatMap fun line => .word "    " :: line ++ [.word "\n"]) :=
    admits_flatMap fun line hline => by simp [lines line hline, vocabulary]
  rw [Fragment.function, admits_append, admits_append, admits_cons]
  exact ⟨⟨header, by simp [vocabulary], inner⟩, by simp [vocabulary]⟩

namespace Caller.Admitted

variable {c : Caller}

/-- The name of the preparing function is made from that of the procedure. -/
theorem prepareName (h : c.Admitted names quotes) :
    Admits names quotes c.prepareNameFragments := by
  simp [prepareNameFragments, h.name, vocabulary]

/-- The name of an admitted caller's restoring function is admitted. -/
theorem restoreName (h : c.Admitted names quotes) :
    Admits names quotes c.restoreNameFragments := by
  simp [restoreNameFragments, h.name, vocabulary]

/-- What the preparing function does is admitted, also if it only copies. -/
theorem prepareBody (h : c.Admitted names quotes) : AdmitsBody names quotes c.prepareBody := by
  unfold Caller.prepareBody
  split
  · exact h.prepare
  · refine admitsBody_assign ?_ ?_
    · simp [preparedParams, Place.fragments, vocabulary]
    · simp [params, Operand.fragments, Place.fragments, vocabulary]

/-- What the restoring function does is admitted, also if it does nothing. -/
theorem restoreBody (h : c.Admitted names quotes) : AdmitsBody names quotes c.restoreBody := by
  unfold Caller.restoreBody
  split
  · exact h.restore
  · exact admitsBody_nil

/-- The preparing function is admitted. -/
theorem prepareFragments (h : c.Admitted names quotes) :
    Admits names quotes c.prepareFragments := by
  have body := h.prepareBody
  rw [AdmitsBody] at body
  refine admits_function ?_ ?_
  · simp [h.prepareName, h.input, vocabulary]
  · simp [body, vocabulary]

/-- The restoring function is admitted. -/
theorem restoreFragments (h : c.Admitted names quotes) :
    Admits names quotes c.restoreFragments := by
  have body := h.restoreBody
  rw [AdmitsBody] at body
  refine admits_function ?_ ?_
  · simp [h.restoreName, h.output, vocabulary]
  · simp [body, vocabulary]

/-- The function that makes the call is admitted: it quotes the name of the procedure. -/
theorem stubFragments (h : c.Admitted names quotes) : Admits names quotes c.stubFragments := by
  refine admits_function ?_ ?_
  · simp [h.name, h.input, h.output, vocabulary]
  · simp [h.method, h.input, h.output, h.prepareName, h.restoreName, vocabulary]

end Caller.Admitted

/-! ## Clients -/

/-- A client is made of its address, its declarations and its functions. -/
theorem admits_fragments {a : Artifact} {declared : List Descriptor}
    (address : ∀ url, a.url? = some url → quotes url)
    (declarations : ∀ d ∈ declared, Admits names quotes d.declared)
    (callers : ∀ c ∈ a.callers, c.Admitted names quotes) :
    Admits names quotes (a.fragments declared) := by
  have ofUrl : ∀ piece ∈ (a.url?.map Artifact.urlFragments).toList,
      Admits names quotes piece := by
    intro piece hpiece
    obtain ⟨url, given, rfl⟩ := Option.map_eq_some_iff.1 (Option.mem_toList.1 hpiece)
    simp [Artifact.urlFragments, address url given, vocabulary]
  have pieces : ∀ piece ∈ (a.url?.map Artifact.urlFragments).toList ++
      declared.map Descriptor.declared ++ (a.callers.map (·.prepareFragments) ++
        a.callers.map (·.restoreFragments) ++ a.callers.map (·.stubFragments)),
      Admits names quotes piece := by
    simp only [List.forall_mem_append]
    refine ⟨⟨ofUrl, ?_⟩, ⟨?_, ?_⟩, ?_⟩
    · exact List.forall_mem_map.2 declarations
    · exact List.forall_mem_map.2 fun c hc => (callers c hc).prepareFragments
    · exact List.forall_mem_map.2 fun c hc => (callers c hc).restoreFragments
    · exact List.forall_mem_map.2 fun c hc => (callers c hc).stubFragments
  refine admits_flatMap fun piece hpiece => ?_
  simp [pieces piece hpiece, vocabulary]

section Exported

variable {options : ExportOptions} {procedures : List Procedure} {a : Artifact}

/-- A part of a part of the procedures. -/
theorem emits_of_part {d p : Descriptor} (among : d.OccursAmong procedures) (h : p.OccursIn d)
    {n : String} (hn : n ∈ p.names) : Emits procedures n := by
  obtain ⟨q, hq, occurs⟩ := among
  exact Or.inr ⟨p, ⟨q, hq, occurs.imp h.trans h.trans⟩, hn⟩

/-- The code of a part of the procedures is made of their names. -/
theorem admits_code {direction : Direction} {d : Descriptor} {source target : Place} {n m : Nat}
    {code : Code} (among : d.OccursAmong procedures)
    (hsource : Admits (Emits procedures) quotes source.fragments)
    (htarget : Admits (Emits procedures) quotes target.fragments)
    (h : Yields (convert direction d.shape source target) n code m) :
    AdmitsBody (Emits procedures) quotes code.body := by
  refine admits_of_convert (fun name fields hr f hf => ?_) hsource htarget h
  obtain ⟨p, hp, listed⟩ := Descriptor.exists_names_of_shape hr hf
  exact emits_of_part among hp listed

/-- The callers of a list of procedures, which is part of the list that is exported. -/
theorem admitted_of_exportProcedures {seen : List String} {r last : Resolver}
    {front : List Procedure} {callers : List Caller} (subset : front ⊆ procedures)
    (h : exportProcedures seen r front = .ok (callers, last)) :
    ∀ c ∈ callers, c.Admitted (Emits procedures) (Quotes options procedures) := by
  induction front generalizing seen r callers with
  | nil =>
    obtain ⟨rfl, -⟩ := exportProcedures_nil.1 h
    exact List.forall_mem_nil _
  | cons p rest ih =>
    rw [List.cons_subset] at subset
    obtain ⟨-, caller, next, others, exported, exportedRest, rfl⟩ := exportProcedures_cons.1 h
    refine List.forall_mem_cons.2 ⟨?_, ih subset.2 exportedRest⟩
    obtain ⟨-, named, ⟨between, input, output⟩, _, prepared, restored⟩ :=
      yields_exportProcedure.1 exported
    obtain ⟨renderable, input, -⟩ := (resolveType_iff _ _ _ _).1 input
    obtain ⟨renderable', output, -⟩ := (resolveType_iff _ _ _ _).1 output
    have inputAmong : p.input.OccursAmong procedures := ⟨p, subset.1, Or.inl .here⟩
    have outputAmong : p.output.OccursAmong procedures := ⟨p, subset.1, Or.inr .here⟩
    refine ⟨?_, ?_, ?_, ?_, ?_, ?_⟩
    · exact Or.inl ⟨p, subset.1, named.symm⟩
    · exact Or.inl ⟨p, subset.1, named.symm⟩
    · rw [input]
      exact admits_typeExpr renderable fun q hq n hn => emits_of_part inputAmong hq hn
    · rw [output]
      exact admits_typeExpr renderable' fun q hq n hn => emits_of_part outputAmong hq hn
    · refine admits_code inputAmong ?_ ?_ prepared
      · simp [Caller.params, Place.fragments, vocabulary]
      · simp [Caller.preparedParams, Place.fragments, vocabulary]
    · refine admits_code outputAmong ?_ ?_ restored
      · simp [Caller.data, Place.fragments, vocabulary]
      · simp [Caller.data, Place.fragments, vocabulary]

/-- The declarations of a client are those of parts of its procedures. -/
theorem exists_declared (h : exportClient options procedures = .ok a) :
    ∃ declared : List Descriptor, (∀ d ∈ declared, d.OccursAmong procedures) ∧
      a.enums.map (·.toText) ++ a.interfaces.map (·.toText) =
        (declared.map Descriptor.declared).map textOf := by
  have each : ∀ E ∈ a.section, ∃ d : Descriptor, d.OccursAmong procedures ∧
      E.toText = textOf d.declared := by
    intro E hE
    obtain ⟨d, m, ⟨among, defines⟩, rfl⟩ := (mem_section h).1 hE
    exact ⟨d, among, toText_declared defines⟩
  rw [← List.map_append]
  change ∃ declared : List Descriptor, _ ∧ a.section.map (·.toText) = _
  -- from here on only the parts that the declarations come from matter
  generalize a.section = declarations at each
  induction declarations with
  | nil => exact ⟨[], List.forall_mem_nil _, rfl⟩
  | cons E rest ih =>
    rw [List.forall_mem_cons] at each
    obtain ⟨d, among, text⟩ := each.1
    obtain ⟨others, amongOthers, texts⟩ := ih each.2
    refine ⟨d :: others, List.forall_mem_cons.2 ⟨among, amongOthers⟩, ?_⟩
    rw [List.map_cons, List.map_cons, List.map_cons, text, texts]

/-- **Only checked names reach the text of a client.**  A name of a procedure, or of a part of its
input or output, is an identifier if the client takes it over.  Behind the runtime, a client is made
of words of the generator and numbers, of these names, and of JSON strings for the address, for the
names of procedures and for the literals of enums. -/
theorem emitted_of_exportClient (h : exportClient options procedures = .ok a) :
    (∀ n, Emits procedures n → Identifier n) ∧
    (∀ s, Json.IsLiteral (Fragment.quoted s).text s) ∧
    ∃ declared : List Descriptor, (∀ d ∈ declared, d.OccursAmong procedures) ∧
      a.render = Text.trimEnd (options.prelude?.getD prelude) ++ "\n" ++
        textOf (a.fragments declared) ∧
      ∀ f ∈ a.fragments declared, f.Admitted (Emits procedures) (Quotes options procedures) := by
  refine ⟨fun n => identifier_of_emits h, Json.isLiteral_quote, ?_⟩
  obtain ⟨declared, among, texts⟩ := exists_declared h
  have exportable := exists_exportClient.1 ⟨a, h⟩
  obtain ⟨callers, last, exported, rfl⟩ := exportClient_eq_ok.1 h
  refine ⟨declared, among, Artifact.render_eq_fragments texts,
    admits_fragments (fun url given => Or.inr (Or.inl given)) (fun d hd => ?_)
      (admitted_of_exportProcedures (List.Subset.refl _) exported)⟩
  have occurs := among d hd
  refine admits_declared (exportable.renderable occurs)
    (fun q hq n hn => emits_of_part occurs hq hn) ?_
  rintro e rfl m hm s text
  exact Or.inr (Or.inr ⟨e, occurs, m, hm, text⟩)

/-- A client for a procedure that takes a dictionary from states to wrapped lines, and gives back a
page of them. -/
theorem emitted_of_exportClient_page :
    ∃ state line page p a, state = Descriptor.enum ⟨"State", [⟨"OPEN", .text "a\"b"⟩]⟩ ∧
      line = Descriptor.record "Line" [("on", .temporal .date)] false ∧
      page = Descriptor.template "Page" ["T"] [("items", .list (.param "T"))] ∧
      p = Procedure.mk "Find" (.mapping state (.record "a wrapper" [("its field", line)] true))
        (.application page [line]) ∧
      exportClient ⟨some "/rpc", none⟩ [p] = .ok a ∧
      (Identifier "Find" ∧ Identifier "OPEN" ∧ Identifier "on" ∧ Identifier "T") ∧
      ∃ declared : List Descriptor, a.render = Text.trimEnd prelude ++ "\n" ++
          textOf (a.fragments declared) ∧
        ∀ f ∈ a.fragments declared, f.Admitted (Emits [p]) (Quotes ⟨some "/rpc", none⟩ [p]) := by
  obtain ⟨state, hstate⟩ :
      ∃ d, d = Descriptor.enum ⟨"State", [⟨"OPEN", .text "a\"b"⟩]⟩ := ⟨_, rfl⟩
  obtain ⟨line, hline⟩ : ∃ d, d = Descriptor.record "Line" [("on", .temporal .date)] false :=
    ⟨_, rfl⟩
  obtain ⟨page, hpage⟩ :
      ∃ d, d = Descriptor.template "Page" ["T"] [("items", .list (.param "T"))] := ⟨_, rfl⟩
  obtain ⟨p, hp⟩ : ∃ p, p = Procedure.mk "Find"
      (.mapping state (.record "a wrapper" [("its field", line)] true))
      (.application page [line]) := ⟨_, rfl⟩
  have accepted : (exportClient ⟨some "/rpc", none⟩ [p]).toBool = true := by
    rw [hp, hstate, hline, hpage]
    rfl
  obtain ⟨a, exported⟩ := exists_artifact accepted
  obtain ⟨identifiers, -, declared, -, text, admitted⟩ := emitted_of_exportClient exported
  have one := List.mem_singleton_self p
  have ofState : Emits [p] "OPEN" := by
    refine Or.inr ⟨state, ⟨p, one, Or.inl ?_⟩, by rw [hstate]; simp [Descriptor.names]⟩
    rw [hp]
    exact .key .here
  have ofLine : Emits [p] "on" := by
    refine Or.inr ⟨line, ⟨p, one, Or.inl ?_⟩, by rw [hline]; simp [Descriptor.names]⟩
    rw [hp]
    exact .value (.record (List.mem_singleton_self _) .here)
  have ofPage : Emits [p] "T" := by
    refine Or.inr ⟨page, ⟨p, one, Or.inr ?_⟩, by rw [hpage]; simp [Descriptor.names]⟩
    rw [hp]
    exact .origin .here
  refine ⟨state, line, page, p, a, hstate, hline, hpage, hp, exported, ⟨?_, ?_, ?_, ?_⟩,
    declared, text, admitted⟩
  · exact identifiers "Find" (Or.inl ⟨p, one, by rw [hp]⟩)
  · exact identifiers "OPEN" ofState
  · exact identifiers "on" ofLine
  · exact identifiers "T" ofPage

end Exported

end Client

end RpcBridge
