import RpcBridge.Client.Artifact
import RpcBridge.Proofs.Descriptor.Parts

/-!
# Proofs/Client/Definitions — what a descriptor defines

Resolving a type renders it and registers declarations in one traversal.  Here the two are apart:
the type expression of a descriptor is a function of the descriptor (`Descriptor.typeExpr`), and so
is the list of what it defines, in the order of the traversal (`Descriptor.definitions`).

* `Descriptor.mem_definitions` — every part that defines something is in the list, and nothing
  else;
* `Descriptor.ordered_definitions` — at every place of the list stands a part whose inner
  definitions stand before it.
-/

namespace RpcBridge

open Client

/-! ## Definitions -/

/-- What a declaration declares: an enum with its members, or an interface with its fields. -/
structure Client.Definition where
  keyword : String
  name : String
  /-- The parameters of a template. -/
  params? : Option (List String)
  /-- The names that are listed, each with the text behind it. -/
  entries : List (String × String)

namespace Client.Definition

/-- The name under which the definition is declared. -/
def declaredName (m : Definition) : String :=
  match m.params? with
  | none => m.name
  | some params => Descriptor.declaredName m.name params

/-- The declaration of a definition. -/
def declaration (m : Definition) : Declaration :=
  ⟨m.keyword, m.declaredName, braced (m.entries.map fun e => e.1 ++ e.2)⟩

/-- The definition of an enum. -/
def ofEnum (e : EnumDef) : Definition :=
  ⟨"enum", e.name, none, e.members.map fun m => (m.name, " = " ++ m.value.toText)⟩

/-- The definition of an interface. -/
def ofFields (name : String) (params? : Option (List String)) (fields : List (String × TypeExpr)) :
    Definition :=
  ⟨"interface", name, params?, fields.map fun f => (f.1, ": " ++ f.2.toText)⟩

theorem body_ofEnum (e : EnumDef) : (ofEnum e).declaration.body = enumBody e := by
  simp only [declaration, ofEnum, enumBody, List.map_map]
  congr 2
  funext m
  exact (String.append_assoc ..).symm

theorem body_ofFields (name : String) (params? : Option (List String))
    (fields : List (String × TypeExpr)) :
    (ofFields name params? fields).declaration.body = interfaceBody fields := by
  simp only [declaration, ofFields, interfaceBody, List.map_map]
  congr 2
  funext f
  exact (String.append_assoc ..).symm

end Client.Definition

namespace Descriptor

mutual

/-- The type expression of a descriptor, whatever has been declared. -/
def typeExpr : Descriptor → TypeExpr
  | .scalar kind => .ofScalar kind
  | .temporal _ => .word "Date"
  | .list element => .array element.typeExpr
  | .variadic items => .array ((typeExprs items).headD default)
  | .tuple items => .tuple (typeExprs items)
  | .mapping key value => .dictionary key.typeExpr value.typeExpr
  | .enum e => .named e.name
  | .optional inner => .orUndefined inner.typeExpr
  | .union members => .union (typeExprs members)
  | .param name => .param name
  | .application (.template name _ _) args => .applied name (typeExprs args)
  | .application origin _ => origin.typeExpr
  | .record name fields transparent =>
    if transparent then ((fieldTypes fields).map (·.2)).headD default else .named name
  | .template name params _ => .applied name (params.map .param)
  | .foreign name => .word name

/-- The type expressions of a list of descriptors. -/
def typeExprs : List Descriptor → List TypeExpr
  | [] => []
  | d :: rest => d.typeExpr :: typeExprs rest

/-- The type expressions of fields. -/
def fieldTypes : List Field → List (String × TypeExpr)
  | [] => []
  | (name, d) :: rest => (name, d.typeExpr) :: fieldTypes rest

end

/-- What a descriptor itself defines. -/
def definition? : Descriptor → Option Definition
  | .enum e => some (.ofEnum e)
  | .record name fields false => some (.ofFields name none (fieldTypes fields))
  | .template name params fields => some (.ofFields name (some params) (fieldTypes fields))
  | _ => none

/-- The fields that a descriptor itself lists. -/
def fields : Descriptor → List Field
  | .record _ fields _ | .template _ _ fields => fields
  | _ => []

/-- A part of a field of a record or template. -/
def NestedIn (q p : Descriptor) : Prop := ∃ f ∈ p.fields, q.OccursIn f.2

mutual

/-- What the parts of a descriptor define, inner parts first. -/
def definitions : Descriptor → List Definition
  | .record name fields transparent =>
    fieldDefinitions fields ++ (definition? (.record name fields transparent)).toList
  | .template name params fields =>
    fieldDefinitions fields ++ [.ofFields name (some params) (fieldTypes fields)]
  | .application origin args => origin.definitions ++ allDefinitions args
  | .list inner | .optional inner => inner.definitions
  | .tuple ds | .variadic ds | .union ds => allDefinitions ds
  | .mapping key value => key.definitions ++ value.definitions
  | .enum e => [.ofEnum e]
  | .scalar _ | .temporal _ | .param _ | .foreign _ => []

/-- What the descriptors of a list define. -/
def allDefinitions : List Descriptor → List Definition
  | [] => []
  | d :: rest => d.definitions ++ allDefinitions rest

/-- What the types of fields define. -/
def fieldDefinitions : List Field → List Definition
  | [] => []
  | (_, d) :: rest => d.definitions ++ fieldDefinitions rest

end

/-! ## Parts and definitions -/

theorem typeExprs_eq_map (ds : List Descriptor) : typeExprs ds = ds.map typeExpr := by
  induction ds with
  | nil => rfl
  | cons d rest ih => rw [typeExprs, List.map_cons, ih]

theorem fieldTypes_eq_map (fields : List Field) :
    fieldTypes fields = fields.map fun f => (f.1, f.2.typeExpr) := by
  induction fields with
  | nil => rfl
  | cons f rest ih => rw [fieldTypes, List.map_cons, ih]

theorem allDefinitions_eq (ds : List Descriptor) :
    allDefinitions ds = ds.flatMap definitions := by
  induction ds with
  | nil => rw [allDefinitions, List.flatMap_nil]
  | cons d rest ih => rw [allDefinitions, List.flatMap_cons, ih]

theorem fieldDefinitions_eq (fields : List Field) :
    fieldDefinitions fields = fields.flatMap fun f => f.2.definitions := by
  induction fields with
  | nil => rw [fieldDefinitions, List.flatMap_nil]
  | cons f rest ih => rw [fieldDefinitions, List.flatMap_cons, ih]

/-- A part defines what the whole defines. -/
theorem definitions_subset {p d : Descriptor} (h : p.OccursIn d) :
    p.definitions ⊆ d.definitions := by
  induction h with
  | here => exact List.Subset.refl _
  | record hf _ ih | template hf _ ih =>
    rw [definitions, fieldDefinitions_eq]
    exact fun m hm => List.mem_append_left _ (List.mem_flatMap.2 ⟨_, hf, ih hm⟩)
  | origin _ ih | key _ ih =>
    rw [definitions]
    exact fun m hm => List.mem_append_left _ (ih hm)
  | argument hd _ ih =>
    rw [definitions, allDefinitions_eq]
    exact fun m hm => List.mem_append_right _ (List.mem_flatMap.2 ⟨_, hd, ih hm⟩)
  | list _ ih | optional _ ih =>
    rw [definitions]
    exact ih
  | tuple hd _ ih | variadic hd _ ih | union hd _ ih =>
    rw [definitions, allDefinitions_eq]
    exact fun m hm => List.mem_flatMap.2 ⟨_, hd, ih hm⟩
  | value _ ih =>
    rw [definitions]
    exact fun m hm => List.mem_append_right _ (ih hm)

theorem definitions_variadic (item : Descriptor) :
    (variadic [item]).definitions = item.definitions := List.append_nil _

/-- A transparent record defines nothing itself. -/
theorem definitions_transparent (name : String) (fields : List Field) :
    (record name fields true).definitions = fieldDefinitions fields := List.append_nil _

theorem definitions_wrapper (name field : String) (d : Descriptor) :
    (record name [(field, d)] true).definitions = d.definitions :=
  (definitions_transparent name _).trans (List.append_nil _)

theorem definitions_application_nil (origin : Descriptor) :
    (application origin []).definitions = origin.definitions := List.append_nil _

theorem mem_definitions_self {p : Descriptor} {m : Definition} (h : p.definition? = some m) :
    m ∈ p.definitions := by
  cases p with
  | record name fields transparent =>
    rw [definitions, h]
    exact List.mem_append_right _ (List.mem_singleton_self m)
  | template name params fields =>
    cases h
    rw [definitions]
    exact List.mem_append_right _ (List.mem_singleton_self _)
  | enum e =>
    cases h
    rw [definitions]
    exact List.mem_singleton_self _
  | _ => cases h

/-- What a part defines is in the list of the whole. -/
theorem mem_definitions_of_occursIn {p d : Descriptor} {m : Definition} (h : p.OccursIn d)
    (defines : p.definition? = some m) : m ∈ d.definitions :=
  definitions_subset h (mem_definitions_self defines)

/-- At every place of a list of definitions stands one of a part that is asked for, and what is
nested in that part stands before it. -/
def Ordered (asked : Descriptor → Prop) (ms : List Definition) : Prop :=
  ∀ before m after, ms = before ++ m :: after → ∃ p, asked p ∧ p.definition? = some m ∧
    ∀ (q : Descriptor) (n : Definition), q.NestedIn p → q.definition? = some n → n ∈ before

namespace Ordered

variable {asked asked' : Descriptor → Prop} {ms ns : List Definition}

theorem mono (h : Ordered asked ms) (weaker : ∀ p, asked p → asked' p) : Ordered asked' ms := by
  intro before m after split
  obtain ⟨p, hp, rest⟩ := h before m after split
  exact ⟨p, weaker p hp, rest⟩

theorem nil : Ordered asked [] := by
  intro before m after split
  cases before <;> cases split

theorem append (first : Ordered asked ms) (second : Ordered asked ns) :
    Ordered asked (ms ++ ns) := by
  intro before m after split
  rcases List.append_eq_append_iff.1 split with ⟨more, rfl, later⟩ | ⟨more, earlier, later⟩
  · obtain ⟨p, hp, defines, nested⟩ := second more m after later
    exact ⟨p, hp, defines, fun q n hq hn => List.mem_append_right _ (nested q n hq hn)⟩
  · cases more with
    | nil =>
      rw [List.append_nil] at earlier
      obtain ⟨p, hp, defines, nested⟩ := second [] m after later.symm
      exact ⟨p, hp, defines, fun q n hq hn => absurd (nested q n hq hn) (List.not_mem_nil)⟩
    | cons m' more =>
      injection later with head tail
      obtain rfl := head
      exact first before m more earlier

theorem flatMap {α : Type} {f : α → List Definition} {as : List α}
    (each : ∀ a ∈ as, Ordered asked (f a)) : Ordered asked (as.flatMap f) := by
  induction as with
  | nil => exact nil
  | cons a rest ih =>
    rw [List.forall_mem_cons] at each
    rw [List.flatMap_cons]
    exact each.1.append (ih each.2)

/-- A record or template, behind what its fields define. -/
theorem snoc {p : Descriptor} {m : Definition} (inner : Ordered asked (fieldDefinitions p.fields))
    (hp : asked p) (defines : p.definition? = some m) :
    Ordered asked (fieldDefinitions p.fields ++ [m]) := by
  intro before m' after split
  rcases List.append_eq_append_iff.1 split with ⟨more, rfl, later⟩ | ⟨more, earlier, later⟩
  · cases more with
    | nil =>
      cases later
      refine ⟨p, hp, defines, fun q n nested hn => ?_⟩
      obtain ⟨f, hf, occurs⟩ := nested
      rw [List.append_nil, fieldDefinitions_eq]
      exact List.mem_flatMap.2 ⟨f, hf, mem_definitions_of_occursIn occurs hn⟩
    | cons m'' more => cases more <;> cases later
  · cases more with
    | nil =>
      cases later
      refine ⟨p, hp, defines, fun q n nested hn => ?_⟩
      obtain ⟨f, hf, occurs⟩ := nested
      rw [List.append_nil] at earlier
      rw [← earlier, fieldDefinitions_eq]
      exact List.mem_flatMap.2 ⟨f, hf, mem_definitions_of_occursIn occurs hn⟩
    | cons m'' more =>
      injection later with head tail
      obtain rfl := head
      exact inner before m' more earlier

end Ordered

/-- **In the list of definitions, what is nested in a record or template stands before it.** -/
theorem ordered_definitions (d : Descriptor) :
    Ordered (fun p => p.OccursIn d) d.definitions := by
  induction d with
  | scalar | temporal | param | foreign =>
    rw [definitions]
    exact .nil
  | enum e =>
    rw [definitions]
    intro before m after split
    cases before with
    | nil =>
      cases split
      refine ⟨.enum e, .here, rfl, fun q n nested => ?_⟩
      obtain ⟨f, hf, -⟩ := nested
      cases hf
    | cons m' before => cases before <;> cases split
  | list _ ih =>
    rw [definitions]
    exact ih.mono fun _ => .list
  | optional _ ih =>
    rw [definitions]
    exact ih.mono fun _ => .optional
  | tuple items ih =>
    rw [definitions, allDefinitions_eq]
    exact .flatMap fun d hd => (ih d hd).mono fun _ => .tuple hd
  | variadic items ih =>
    rw [definitions, allDefinitions_eq]
    exact .flatMap fun d hd => (ih d hd).mono fun _ => .variadic hd
  | union members ih =>
    rw [definitions, allDefinitions_eq]
    exact .flatMap fun d hd => (ih d hd).mono fun _ => .union hd
  | mapping key value ihKey ihValue =>
    rw [definitions]
    exact (ihKey.mono fun _ => .key).append (ihValue.mono fun _ => .value)
  | application origin args ihOrigin ihArgs =>
    rw [definitions, allDefinitions_eq]
    exact (ihOrigin.mono fun _ => .origin).append
      (.flatMap fun d hd => (ihArgs d hd).mono fun _ => .argument hd)
  | record name fields transparent ih =>
    have inner : Ordered (fun p => p.OccursIn (.record name fields transparent))
        (fieldDefinitions fields) := by
      rw [fieldDefinitions_eq]
      exact .flatMap fun f hf => (ih f hf).mono fun _ => .record hf
    cases transparent with
    | true =>
      rw [definitions_transparent]
      exact inner
    | false =>
      rw [definitions]
      exact Ordered.snoc (p := .record name fields false) inner .here rfl
  | template name params fields ih =>
    rw [definitions]
    refine Ordered.snoc (p := .template name params fields) ?_ .here rfl
    rw [Descriptor.fields, fieldDefinitions_eq]
    exact .flatMap fun f hf => (ih f hf).mono fun _ => .template hf

/-- **What is in the list of definitions is what the parts define.** -/
theorem mem_definitions {d : Descriptor} {m : Definition} :
    m ∈ d.definitions ↔ ∃ p : Descriptor, p.OccursIn d ∧ p.definition? = some m := by
  refine ⟨fun h => ?_, ?_⟩
  · obtain ⟨before, after, split⟩ := List.append_of_mem h
    obtain ⟨p, occurs, defines, -⟩ := ordered_definitions d before m after split
    exact ⟨p, occurs, defines⟩
  · rintro ⟨p, occurs, defines⟩
    exact mem_definitions_of_occursIn occurs defines

end Descriptor

end RpcBridge
