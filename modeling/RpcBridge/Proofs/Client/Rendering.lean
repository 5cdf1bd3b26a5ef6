import RpcBridge.Proofs.Client.Definitions
import RpcBridge.Proofs.Client.Generation
import RpcBridge.Proofs.Client.Registration

/-!
# Proofs/Client/Rendering — when a type is resolved

A type is resolved exactly if its descriptor can be rendered at all and what it defines goes with
what has been declared.  Whether it can be rendered is a property of the descriptor
(`Descriptor.Renderable`), and so are the type expression and the list of definitions; only the
conflicts depend on the declarations.

* `Declares` — declarations to which a list of definitions has been added;
* `resolveType_iff` — a type is resolved, taken apart.
-/

namespace RpcBridge

open Client

/-- A descriptor that has a type expression: its names are identifiers, its unions and applications
have a meaning, and nothing in it is foreign. -/
inductive Descriptor.Renderable : Descriptor → Prop where
  | scalar (kind : ScalarKind) : Renderable (.scalar kind)
  | temporal (kind : TemporalKind) : Renderable (.temporal kind)
  | enum {e : EnumDef} (named : isIdentifier e.name = true)
    (members : ∀ m ∈ e.members, isIdentifier m.name = true) : Renderable (.enum e)
  | param {name : String} (named : isIdentifier name = true) : Renderable (.param name)
  | list {element : Descriptor} (inner : Renderable element) : Renderable (.list element)
  | variadic {item : Descriptor} (inner : Renderable item) : Renderable (.variadic [item])
  | tuple {items : List Descriptor} (inner : ∀ d ∈ items, Renderable d) : Renderable (.tuple items)
  | mapping {key value : Descriptor} (keys : Renderable key) (values : Renderable value) :
    Renderable (.mapping key value)
  | optional {inner : Descriptor} (present : Renderable inner) : Renderable (.optional inner)
  | union {members : List Descriptor} {member : Descriptor}
    (optional : Descriptor.optionalMember members = .ok member)
    (inner : ∀ d ∈ members, Renderable d) : Renderable (.union members)
  /-- The name of a transparent record and of its field is not looked at. -/
  | wrapper {name field : String} {d : Descriptor} (wrapped : Renderable d) :
    Renderable (.record name [(field, d)] true)
  | record {name : String} {fields : List Field} (named : isIdentifier name = true)
    (listed : ∀ f ∈ fields, isIdentifier f.1 = true) (inner : ∀ f ∈ fields, Renderable f.2) :
    Renderable (.record name fields false)
  | template {name : String} {params : List String} {fields : List Field}
    (named : isIdentifier name = true) (bound : ∀ p ∈ params, isIdentifier p = true)
    (listed : ∀ f ∈ fields, isIdentifier f.1 = true) (inner : ∀ f ∈ fields, Renderable f.2) :
    Renderable (.template name params fields)
  | application {name : String} {params : List String} {fields : List Field}
    {args : List Descriptor} (count : params.length = args.length)
    (origin : Renderable (.template name params fields)) (inner : ∀ d ∈ args, Renderable d) :
    Renderable (.application (.template name params fields) args)
  | plain {name : String} {fields : List Field} {transparent : Bool}
    (origin : Renderable (.record name fields transparent)) :
    Renderable (.application (.record name fields transparent) [])

namespace Descriptor.Renderable

variable {name : String} {d element inner key value : Descriptor} {items args : List Descriptor}
  {params : List String} {fields : List Field} {transparent : Bool}

/-- An enum can be rendered if its name and those of its members are identifiers. -/
theorem enum_iff {e : EnumDef} : (Descriptor.enum e).Renderable ↔
    isIdentifier e.name = true ∧ ∀ m ∈ e.members, isIdentifier m.name = true := by
  refine ⟨fun h => ?_, fun h => .enum h.1 h.2⟩
  cases h with
  | enum named members => exact ⟨named, members⟩

theorem param_iff : (Descriptor.param name).Renderable ↔ isIdentifier name = true := by
  refine ⟨fun h => ?_, .param⟩
  cases h with
  | param named => exact named

theorem list_iff : (Descriptor.list element).Renderable ↔ element.Renderable := by
  refine ⟨fun h => ?_, .list⟩
  cases h with
  | list inner => exact inner

theorem optional_iff : (Descriptor.optional inner).Renderable ↔ inner.Renderable := by
  refine ⟨fun h => ?_, .optional⟩
  cases h with
  | optional present => exact present

/-- A variadic tuple can be rendered only with exactly one type for its items. -/
theorem variadic_iff :
    (Descriptor.variadic items).Renderable ↔ ∃ item, items = [item] ∧ item.Renderable := by
  constructor
  · intro h
    cases h with
    | variadic inner => exact ⟨_, rfl, inner⟩
  · rintro ⟨item, rfl, inner⟩
    exact .variadic inner

theorem tuple_iff : (Descriptor.tuple items).Renderable ↔ ∀ d ∈ items, d.Renderable := by
  refine ⟨fun h => ?_, .tuple⟩
  cases h with
  | tuple inner => exact inner

/-- A dictionary can be rendered whatever its keys are. -/
theorem mapping_iff :
    (Descriptor.mapping key value).Renderable ↔ key.Renderable ∧ value.Renderable := by
  refine ⟨fun h => ?_, fun h => .mapping h.1 h.2⟩
  cases h with
  | mapping keys values => exact ⟨keys, values⟩

/-- A union can be rendered if it is an optional type written out. -/
theorem union_iff : (Descriptor.union items).Renderable ↔
    (∃ member, Descriptor.optionalMember items = .ok member) ∧ ∀ d ∈ items, d.Renderable := by
  refine ⟨fun h => ?_, fun ⟨⟨_, present⟩, inner⟩ => .union present inner⟩
  cases h with
  | union optional inner => exact ⟨⟨_, optional⟩, inner⟩

/-- A transparent record can be rendered if it has one field, whatever the field is called. -/
theorem wrapper_iff : (Descriptor.record name fields true).Renderable ↔
    ∃ field d, fields = [(field, d)] ∧ d.Renderable := by
  constructor
  · intro h
    cases h with
    | wrapper wrapped => exact ⟨_, _, rfl, wrapped⟩
  · rintro ⟨field, d, rfl, wrapped⟩
    exact .wrapper wrapped

/-- A record can be rendered if its name and those of its fields are identifiers. -/
theorem record_iff : (Descriptor.record name fields false).Renderable ↔
    isIdentifier name = true ∧
      (∀ f ∈ fields, isIdentifier f.1 = true) ∧ ∀ f ∈ fields, f.2.Renderable := by
  refine ⟨fun h => ?_, fun ⟨named, listed, inner⟩ => .record named listed inner⟩
  cases h with
  | record named listed inner => exact ⟨named, listed, inner⟩

/-- A template can be rendered if also its parameters are identifiers. -/
theorem template_iff : (Descriptor.template name params fields).Renderable ↔
    isIdentifier name = true ∧ (∀ p ∈ params, isIdentifier p = true) ∧
      (∀ f ∈ fields, isIdentifier f.1 = true) ∧ ∀ f ∈ fields, f.2.Renderable := by
  refine ⟨fun h => ?_, fun ⟨named, bound, listed, inner⟩ => .template named bound listed inner⟩
  cases h with
  | template named bound listed inner => exact ⟨named, bound, listed, inner⟩

/-- A template can be applied to as many arguments as it has parameters. -/
theorem application_iff :
    (Descriptor.application (.template name params fields) args).Renderable ↔
      params.length = args.length ∧ (Descriptor.template name params fields).Renderable ∧
        ∀ d ∈ args, d.Renderable := by
  refine ⟨fun h => ?_, fun ⟨count, origin, inner⟩ => .application count origin inner⟩
  cases h with
  | application count origin inner => exact ⟨count, origin, inner⟩

/-- A record can be applied to nothing only. -/
theorem plain_iff : (Descriptor.application (.record name fields transparent) args).Renderable ↔
    args = [] ∧ (Descriptor.record name fields transparent).Renderable := by
  constructor
  · intro h
    cases h with
    | plain origin => exact ⟨rfl, origin⟩
  · rintro ⟨rfl, origin⟩
    exact .plain origin

/-- What is applied is a template or a record. -/
theorem origin_of_application {origin : Descriptor}
    (h : (Descriptor.application origin args).Renderable) :
    ∃ i, origin.instantiate args = .ok i := by
  cases h with
  | application count => exact ⟨_, if_pos count⟩
  | plain => exact ⟨_, rfl⟩

end Descriptor.Renderable

namespace Client

/-- Identifiers pass the check of names, and nothing else does. -/
theorem checkIdentifier_iff {name : String} {u : Unit} :
    checkIdentifier name = .ok u ↔ isIdentifier name = true := by
  unfold checkIdentifier
  split
  · next h => exact ⟨fun _ => h, fun _ => rfl⟩
  · next h => exact ⟨fun failed => (nomatch failed), fun named => absurd named h⟩

/-! ## Steps -/

namespace Declaring

variable {α : Type} {s s' : Declarations} {a : α}

/-- A step that fails yields nothing. -/
theorem not_yields_fail {e : ExportError} : ¬Yields (fail e : Declaring α) s a s' := by
  rintro ⟨⟩

/-- A lifted result is yielded without registering anything. -/
theorem yields_lift {r : Except ExportError α} :
    Yields (lift r) s a s' ↔ r = .ok a ∧ s = s' := by
  refine ⟨fun h => ?_, ?_⟩
  · cases h
    exact ⟨rfl, rfl⟩
  · rintro ⟨rfl, rfl⟩
    rfl

/-- What a step yields does not depend on the field it is carried out in. -/
theorem yields_inField {record field : String} {step : Declaring α} :
    Yields (inField record field step) s a s' ↔ Yields step s a s' := by
  have run : inField record field step s = ((step s).1.mapError (.inField record field),
      (step s).2) := rfl
  unfold Yields
  rw [run]
  rcases step s with ⟨r | r, after⟩
  · constructor <;> rintro ⟨⟩
  · rfl

/-- The check of a name. -/
theorem yields_check {name : String} {u : Unit} :
    Yields (lift (checkIdentifier name)) s u s' ↔ isIdentifier name = true ∧ s = s' := by
  rw [yields_lift, checkIdentifier_iff]

/-- An interface is declared exactly if its table takes it; the enums stay as they are. -/
theorem yields_declareInterface {name body : String} {u : Unit} :
    Yields (declareInterface name body) s u s' ↔
      s.interfaces.register name body = .ok s'.interfaces ∧ s'.enums = s.enums := by
  unfold Yields declareInterface
  split
  · next table registered =>
    rw [registered]
    constructor
    · intro h
      cases h
      exact ⟨rfl, rfl⟩
    · rintro ⟨same, enums⟩
      cases same
      rw [← enums]
  · next e failed =>
    rw [failed]
    exact ⟨fun h => (nomatch h), fun h => (nomatch h.1)⟩

/-- An enum is declared exactly if its table takes it; the interfaces stay as they are. -/
theorem yields_declareEnum {name body : String} {u : Unit} :
    Yields (declareEnum name body) s u s' ↔
      s.enums.register name body = .ok s'.enums ∧ s'.interfaces = s.interfaces := by
  unfold Yields declareEnum
  split
  · next table registered =>
    rw [registered]
    constructor
    · intro h
      cases h
      exact ⟨rfl, rfl⟩
    · rintro ⟨same, interfaces⟩
      cases same
      rw [← interfaces]
  · next e failed =>
    rw [failed]
    exact ⟨fun h => (nomatch h), fun h => (nomatch h.1)⟩

/-- Checks one after the other pass if each does, and register nothing. -/
theorem yields_forIn {names : List α} {check : α → Declaring Unit} {good : α → Prop} {u : PUnit}
    (each : ∀ a s u s', Yields (check a) s u s' ↔ good a ∧ s = s') :
    Yields (forIn names PUnit.unit fun a _ => do
      check a
      pure (ForInStep.yield PUnit.unit)) s u s' ↔ (∀ a ∈ names, good a) ∧ s = s' := by
  induction names generalizing s with
  | nil =>
    rw [List.forIn_nil, yields_pure]
    exact and_congr_left fun _ => iff_of_true rfl (List.forall_mem_nil _)
  | cons name rest ih =>
    simp only [List.forIn_cons, bind_assoc, pure_bind, yields_bind, each, ih,
      List.forall_mem_cons]
    constructor
    · rintro ⟨_, _, ⟨good, rfl⟩, others, rfl⟩
      exact ⟨⟨good, others⟩, rfl⟩
    · rintro ⟨⟨good, others⟩, rfl⟩
      exact ⟨(), _, ⟨good, rfl⟩, others, rfl⟩

end Declaring

/-! ## What is added -/

/-- The entries that definitions make in the table of a keyword. -/
def entriesOf (keyword : String) (ms : List Definition) : List (String × String) :=
  (ms.filter (·.keyword = keyword)).map fun m => (m.declaredName, m.declaration.body)

/-- The entries of definitions one after the other stand one after the other. -/
theorem entriesOf_append (keyword : String) (ms ns : List Definition) :
    entriesOf keyword (ms ++ ns) = entriesOf keyword ms ++ entriesOf keyword ns := by
  rw [entriesOf, List.filter_append, List.map_append]
  rfl

/-- An entry of a table is that of a definition of its kind. -/
theorem mem_entriesOf {keyword : String} {ms : List Definition} {e : String × String} :
    e ∈ entriesOf keyword ms ↔
      ∃ m ∈ ms, m.keyword = keyword ∧ e = (m.declaredName, m.declaration.body) := by
  simp only [entriesOf, List.mem_map, List.mem_filter, decide_eq_true_eq, and_assoc]
  simp only [eq_comm]

/-- Declarations to which a list of definitions is added, all of them well named. -/
structure Declares (ms : List Definition) (s s' : Declarations) : Prop where
  enums : s.enums.registerAll (entriesOf "enum" ms) = .ok s'.enums
  interfaces : s.interfaces.registerAll (entriesOf "interface" ms) = .ok s'.interfaces
  named : ∀ m ∈ ms, isIdentifier m.name = true

namespace Declares

variable {s s' s'' : Declarations} {ms ns : List Definition}

/-- Where nothing is defined, nothing is declared. -/
theorem nil_iff : Declares [] s s' ↔ s = s' := by
  constructor
  · rintro ⟨enums, interfaces, -⟩
    obtain ⟨es, is⟩ := s
    cases Except.ok.inj enums
    cases Except.ok.inj interfaces
    rfl
  · rintro rfl
    exact ⟨rfl, rfl, List.forall_mem_nil _⟩

theorem nil : Declares [] s s := nil_iff.2 rfl

/-- What is added one list after the other. -/
theorem append_iff :
    Declares (ms ++ ns) s s'' ↔ ∃ s', Declares ms s s' ∧ Declares ns s' s'' := by
  constructor
  · rintro ⟨enums, interfaces, named⟩
    rw [entriesOf_append, Table.registerAll_append] at enums interfaces
    rw [List.forall_mem_append] at named
    obtain ⟨es, first, second⟩ := enums
    obtain ⟨is, first', second'⟩ := interfaces
    exact ⟨⟨es, is⟩, ⟨first, first', named.1⟩, ⟨second, second', named.2⟩⟩
  · rintro ⟨s', first, second⟩
    refine ⟨?_, ?_, List.forall_mem_append.2 ⟨first.named, second.named⟩⟩
    · rw [entriesOf_append, Table.registerAll_append]
      exact ⟨_, first.enums, second.enums⟩
    · rw [entriesOf_append, Table.registerAll_append]
      exact ⟨_, first.interfaces, second.interfaces⟩

/-- Definitions can be declared one list after the other. -/
theorem append (first : Declares ms s s') (second : Declares ns s' s'') :
    Declares (ms ++ ns) s s'' := append_iff.2 ⟨s', first, second⟩

/-- An enum is declared under its name, which is an identifier. -/
theorem enum_iff {e : EnumDef} : Declares [.ofEnum e] s s' ↔ isIdentifier e.name = true ∧
    s.enums.register e.name (enumBody e) = .ok s'.enums ∧ s'.interfaces = s.interfaces := by
  have entry : s.enums.registerAll (entriesOf "enum" [.ofEnum e]) =
      s.enums.register e.name (enumBody e) := by
    rw [← Definition.body_ofEnum]
    exact Table.registerAll_singleton
  constructor
  · rintro ⟨enums, interfaces, named⟩
    exact ⟨named _ (List.mem_singleton_self _), entry ▸ enums, (Except.ok.inj interfaces).symm⟩
  · rintro ⟨named, registered, same⟩
    exact ⟨entry.trans registered, congrArg _ same.symm, List.forall_mem_singleton.2 named⟩

/-- An interface is declared under its name with the parameters. -/
theorem interface_iff {name : String} {params? : Option (List String)}
    {fields : List (String × TypeExpr)} :
    Declares [.ofFields name params? fields] s s' ↔ isIdentifier name = true ∧
      s.interfaces.register (Definition.ofFields name params? fields).declaredName
        (interfaceBody fields) = .ok s'.interfaces ∧ s'.enums = s.enums := by
  have entry : s.interfaces.registerAll (entriesOf "interface" [.ofFields name params? fields]) =
      s.interfaces.register (Definition.ofFields name params? fields).declaredName
        (interfaceBody fields) := by
    rw [← Definition.body_ofFields name params?]
    exact Table.registerAll_singleton
  constructor
  · rintro ⟨enums, interfaces, named⟩
    exact ⟨named _ (List.mem_singleton_self _), entry ▸ interfaces, (Except.ok.inj enums).symm⟩
  · rintro ⟨named, registered, same⟩
    exact ⟨congrArg _ same.symm, entry.trans registered, List.forall_mem_singleton.2 named⟩

end Declares

/-! ## By descriptor -/

section Equations

/-- A scalar registers nothing, as do dates and parameters. -/
theorem resolveType_scalar (kind : ScalarKind) :
    resolveType (.scalar kind) = return .ofScalar kind := rfl

theorem resolveType_temporal (kind : TemporalKind) :
    resolveType (.temporal kind) = return .word "Date" := rfl

theorem resolveType_param (name : String) : resolveType (.param name) = do
    Declaring.lift (checkIdentifier name)
    return .param name := rfl

theorem resolveType_foreign (name : String) : resolveType (.foreign name) =
    Declaring.fail (.unsupported (.foreign name) (.obstacle (.foreign name))) := rfl

/-- The element of a list is resolved first. -/
theorem resolveType_list (element : Descriptor) :
    resolveType (.list element) = do return .array (← resolveType element) := rfl

theorem resolveType_optional (inner : Descriptor) :
    resolveType (.optional inner) = do return .orUndefined (← resolveType inner) := rfl

theorem resolveType_tuple (items : List Descriptor) :
    resolveType (.tuple items) = do return .tuple (← resolveTypes items) := rfl

/-- A variadic tuple is resolved as an array of its only item. -/
theorem resolveType_variadic (items : List Descriptor) : resolveType (.variadic items) =
    match items with
    | [item] => do return .array (← resolveType item)
    | _ => refuse (.variadic items) (.itemTypes items.length) := by
  rcases items with _ | ⟨item, _ | ⟨_, _⟩⟩ <;> rfl

theorem resolveType_mapping (key value : Descriptor) : resolveType (.mapping key value) = do
    return .dictionary (← resolveType key) (← resolveType value) := rfl

theorem resolveType_union (members : List Descriptor) : resolveType (.union members) =
    match Descriptor.optionalMember members with
    | .error e => refuse (.union members) e
    | .ok _ => do return .union (← resolveTypes members) := rfl

theorem resolveType_enum (d : EnumDef) : resolveType (.enum d) = declareEnumOf d := rfl

/-- A transparent record is resolved as its only field. -/
theorem resolveType_wrapper (name : String) (fields : List Field) :
    resolveType (.record name fields true) =
      match fields with
      | [(field, d)] => Declaring.inField name field (resolveType d)
      | _ => refuse (.record name fields true) (.wrappedFields name fields.length) := by
  rcases fields with _ | ⟨⟨_, _⟩, _ | ⟨_, _⟩⟩ <;> rfl

/-- The fields of a record are resolved before the record is declared. -/
theorem resolveType_record (name : String) (fields : List Field) :
    resolveType (.record name fields false) = do
      Declaring.lift (checkIdentifier name)
      let resolved ← resolveFields name fields
      Declaring.declareInterface name (interfaceBody resolved)
      return .named name := by
  rcases fields with _ | ⟨⟨_, _⟩, _ | ⟨_, _⟩⟩ <;> rfl

/-- The fields of a template are resolved before the template is declared, and its parameters are
checked first. -/
theorem resolveType_template (name : String) (params : List String) (fields : List Field) :
    resolveType (.template name params fields) = do
      Declaring.lift (checkIdentifier name)
      for p in params do
        Declaring.lift (checkIdentifier p)
      let resolved ← resolveFields name fields
      Declaring.declareInterface (Descriptor.declaredName name params) (interfaceBody resolved)
      return .applied name (params.map .param) := rfl

/-- The origin of an application is resolved before its arguments. -/
theorem resolveType_application (origin : Descriptor) (args : List Descriptor) :
    resolveType (.application origin args) =
      match origin.instantiate args with
      | .error e => refuse (.application origin args) e
      | .ok i => do
        let declared ← resolveType origin
        if origin.templateName?.isSome then return .applied i.name (← resolveTypes args)
        else return declared := rfl

theorem resolveTypes_nil : resolveTypes [] = return [] := rfl

theorem resolveTypes_cons (d : Descriptor) (rest : List Descriptor) :
    resolveTypes (d :: rest) = do
      let e ← resolveType d
      return e :: (← resolveTypes rest) := rfl

theorem resolveFields_nil (record : String) : resolveFields record [] = return [] := rfl

/-- The name of a field is checked before its type is resolved. -/
theorem resolveFields_cons (record name : String) (d : Descriptor) (rest : List Field) :
    resolveFields record ((name, d) :: rest) = do
      Declaring.inField record name (Declaring.lift (checkIdentifier name))
      let e ← Declaring.inField record name (resolveType d)
      return (name, e) :: (← resolveFields record rest) := rfl

end Equations

/-- A descriptor is resolved exactly if it can be rendered and its definitions can be added. -/
def ResolvesIff (d : Descriptor) : Prop :=
  ∀ s e s', Yields (resolveType d) s e s' ↔
    d.Renderable ∧ e = d.typeExpr ∧ Declares d.definitions s s'

section Resolving

variable {s s' : Declarations}

/-- A list of types is resolved exactly if each of them can be rendered, and all that they define
goes together. -/
theorem resolveTypes_iff {ds : List Descriptor} {es : List TypeExpr}
    (each : ∀ d ∈ ds, ResolvesIff d) : Yields (resolveTypes ds) s es s' ↔
      (∀ d ∈ ds, d.Renderable) ∧ es = Descriptor.typeExprs ds ∧
        Declares (Descriptor.allDefinitions ds) s s' := by
  induction ds generalizing s es s' with
  | nil =>
    rw [resolveTypes_nil, yields_pure, Descriptor.allDefinitions, Declares.nil_iff,
      @eq_comm _ _ es]
    exact (and_iff_right (List.forall_mem_nil _)).symm
  | cons d rest ih =>
    rw [List.forall_mem_cons] at each
    simp only [resolveTypes_cons, yields_bind, yields_pure, each.1 _ _ _, ih each.2,
      Descriptor.allDefinitions, Declares.append_iff, List.forall_mem_cons]
    constructor
    · rintro ⟨_, between, ⟨first, rfl, declared⟩, _, _, ⟨others, rfl, more⟩, rfl, rfl⟩
      exact ⟨⟨first, others⟩, rfl, between, declared, more⟩
    · rintro ⟨⟨first, others⟩, rfl, between, declared, more⟩
      exact ⟨_, between, ⟨first, rfl, declared⟩, _, _, ⟨others, rfl, more⟩, rfl, rfl⟩

/-- Fields are resolved exactly if their names are identifiers, their types can be rendered, and all
that they define goes together. -/
theorem resolveFields_iff {record : String} {fields : List Field}
    {types : List (String × TypeExpr)} (each : ∀ f ∈ fields, ResolvesIff f.2) :
    Yields (resolveFields record fields) s types s' ↔
      ((∀ f ∈ fields, isIdentifier f.1 = true) ∧ ∀ f ∈ fields, f.2.Renderable) ∧
        types = Descriptor.fieldTypes fields ∧
          Declares (Descriptor.fieldDefinitions fields) s s' := by
  induction fields generalizing s types s' with
  | nil =>
    rw [resolveFields_nil, yields_pure, Descriptor.fieldDefinitions, Declares.nil_iff,
      @eq_comm _ _ types]
    exact (and_iff_right ⟨List.forall_mem_nil _, List.forall_mem_nil _⟩).symm
  | cons f rest ih =>
    obtain ⟨name, d⟩ := f
    rw [List.forall_mem_cons] at each
    simp only [resolveFields_cons, yields_bind, yields_pure, Declaring.yields_inField,
      Declaring.yields_check, each.1 _ _ _, ih each.2, Descriptor.fieldDefinitions,
      Declares.append_iff, List.forall_mem_cons]
    constructor
    · rintro ⟨_, _, ⟨named, rfl⟩, _, between, ⟨first, rfl, declared⟩, _, _, ⟨others, rfl, more⟩,
        rfl, rfl⟩
      exact ⟨⟨⟨named, others.1⟩, first, others.2⟩, rfl, between, declared, more⟩
    · rintro ⟨⟨⟨named, listed⟩, first, others⟩, rfl, between, declared, more⟩
      exact ⟨(), _, ⟨named, rfl⟩, _, between, ⟨first, rfl, declared⟩, _, _,
        ⟨⟨listed, others⟩, rfl, more⟩, rfl, rfl⟩

/-- What is malformed is refused. -/
theorem not_yields_refuse {α : Type} {d : Descriptor} {e : DescriptorError} {a : α} :
    ¬Yields (refuse d e : Declaring α) s a s' := Declaring.not_yields_fail

/-! ### One kind after the other -/

open Descriptor.Renderable

/-- A list is resolved as its element is. -/
theorem resolvesIff_list {element : Descriptor} (ih : ResolvesIff element) :
    ResolvesIff (.list element) := by
  intro s e s'
  simp only [resolveType_list, yields_bind, yields_pure, ih _ _ _, list_iff]
  constructor
  · rintro ⟨_, _, ⟨inner, rfl, declared⟩, rfl, rfl⟩
    exact ⟨inner, rfl, declared⟩
  · rintro ⟨inner, rfl, declared⟩
    exact ⟨_, _, ⟨inner, rfl, declared⟩, rfl, rfl⟩

/-- An optional type is resolved as the type it wraps. -/
theorem resolvesIff_optional {inner : Descriptor} (ih : ResolvesIff inner) :
    ResolvesIff (.optional inner) := by
  intro s e s'
  simp only [resolveType_optional, yields_bind, yields_pure, ih _ _ _, optional_iff]
  constructor
  · rintro ⟨_, _, ⟨present, rfl, declared⟩, rfl, rfl⟩
    exact ⟨present, rfl, declared⟩
  · rintro ⟨present, rfl, declared⟩
    exact ⟨_, _, ⟨present, rfl, declared⟩, rfl, rfl⟩

/-- A dictionary is resolved with its keys first. -/
theorem resolvesIff_mapping {key value : Descriptor} (ihKey : ResolvesIff key)
    (ihValue : ResolvesIff value) : ResolvesIff (.mapping key value) := by
  intro s e s'
  simp only [resolveType_mapping, yields_bind, yields_pure, ihKey _ _ _, ihValue _ _ _,
    Descriptor.definitions, Declares.append_iff, mapping_iff]
  constructor
  · rintro ⟨_, between, ⟨keys, rfl, declared⟩, _, _, ⟨values, rfl, more⟩, rfl, rfl⟩
    exact ⟨⟨keys, values⟩, rfl, between, declared, more⟩
  · rintro ⟨⟨keys, values⟩, rfl, between, declared, more⟩
    exact ⟨_, between, ⟨keys, rfl, declared⟩, _, _, ⟨values, rfl, more⟩, rfl, rfl⟩

/-- A tuple is resolved item by item. -/
theorem resolvesIff_tuple {items : List Descriptor} (ih : ∀ d ∈ items, ResolvesIff d) :
    ResolvesIff (.tuple items) := by
  intro s e s'
  simp only [resolveType_tuple, yields_bind, yields_pure, resolveTypes_iff ih, tuple_iff]
  constructor
  · rintro ⟨_, _, ⟨inner, rfl, declared⟩, rfl, rfl⟩
    exact ⟨inner, rfl, declared⟩
  · rintro ⟨inner, rfl, declared⟩
    exact ⟨_, _, ⟨inner, rfl, declared⟩, rfl, rfl⟩

/-- A variadic tuple is resolved if it has a single item. -/
theorem resolvesIff_variadic {items : List Descriptor} (ih : ∀ d ∈ items, ResolvesIff d) :
    ResolvesIff (.variadic items) := by
  intro s e s'
  rw [resolveType_variadic]
  split
  · next item =>
    simp only [yields_bind, yields_pure, ih item (List.mem_singleton_self item) _ _ _,
      Descriptor.definitions_variadic]
    constructor
    · rintro ⟨_, _, ⟨inner, rfl, declared⟩, rfl, rfl⟩
      exact ⟨.variadic inner, rfl, declared⟩
    · rintro ⟨renderable, rfl, declared⟩
      obtain ⟨_, same, inner⟩ := variadic_iff.1 renderable
      cases same
      exact ⟨_, _, ⟨inner, rfl, declared⟩, rfl, rfl⟩
  · next several =>
    refine ⟨fun h => absurd h not_yields_refuse, fun h => ?_⟩
    obtain ⟨item, rfl, -⟩ := variadic_iff.1 h.1
    exact absurd rfl (several item)

/-- A union is resolved if it is optional, with all of its members. -/
theorem resolvesIff_union {members : List Descriptor} (ih : ∀ d ∈ members, ResolvesIff d) :
    ResolvesIff (.union members) := by
  intro s e s'
  rw [resolveType_union]
  split
  · next failed =>
    refine ⟨fun h => absurd h not_yields_refuse, fun h => ?_⟩
    obtain ⟨⟨member, optional⟩, -⟩ := union_iff.1 h.1
    rw [failed] at optional
    cases optional
  · next member optional =>
    simp only [yields_bind, yields_pure, resolveTypes_iff ih]
    constructor
    · rintro ⟨_, _, ⟨inner, rfl, declared⟩, rfl, rfl⟩
      exact ⟨.union optional inner, rfl, declared⟩
    · rintro ⟨renderable, rfl, declared⟩
      exact ⟨_, _, ⟨(union_iff.1 renderable).2, rfl, declared⟩, rfl, rfl⟩

/-- An enum is resolved if its names are identifiers and its table takes it. -/
theorem resolvesIff_enum (d : EnumDef) : ResolvesIff (.enum d) := by
  intro s e s'
  have checked {s s' : Declarations} {u : PUnit} := @Declaring.yields_forIn _ s s' d.members
    (fun m => Declaring.inField d.name m.name (Declaring.lift (checkIdentifier m.name)))
    (fun m => isIdentifier m.name = true) u
    fun _ _ _ _ => Declaring.yields_inField.trans Declaring.yields_check
  simp only [resolveType_enum, declareEnumOf, yields_bind, yields_pure, Declaring.yields_check,
    Declaring.yields_declareEnum, checked, Descriptor.definitions, Declares.enum_iff, enum_iff]
  constructor
  · rintro ⟨_, _, ⟨named, rfl⟩, _, _, ⟨members, rfl⟩, _, _, registered, rfl, rfl⟩
    exact ⟨⟨named, members⟩, rfl, named, registered⟩
  · rintro ⟨⟨named, members⟩, rfl, -, registered⟩
    exact ⟨(), _, ⟨named, rfl⟩, ⟨⟩, _, ⟨members, rfl⟩, (), _, registered, rfl, rfl⟩

/-- A wrapper has the type of what it wraps and registers nothing of its own. -/
theorem resolvesIff_wrapper {name : String} {fields : List Field}
    (ih : ∀ f ∈ fields, ResolvesIff f.2) : ResolvesIff (.record name fields true) := by
  intro s e s'
  rw [resolveType_wrapper]
  split
  · next field d =>
    rw [Declaring.yields_inField, ih (field, d) (List.mem_singleton_self _),
      Descriptor.definitions_wrapper]
    refine and_congr_left fun _ => ⟨.wrapper, fun h => ?_⟩
    obtain ⟨_, _, same, wrapped⟩ := wrapper_iff.1 h
    cases same
    exact wrapped
  · next several =>
    refine ⟨fun h => absurd h not_yields_refuse, fun h => ?_⟩
    obtain ⟨field, d, rfl, -⟩ := wrapper_iff.1 h.1
    exact absurd rfl (several field d)

/-- A record registers what its fields register, then its own interface. -/
theorem resolvesIff_record {name : String} {fields : List Field}
    (ih : ∀ f ∈ fields, ResolvesIff f.2) : ResolvesIff (.record name fields false) := by
  intro s e s'
  simp only [resolveType_record, yields_bind, yields_pure, Declaring.yields_check,
    resolveFields_iff ih, Declaring.yields_declareInterface, Descriptor.definitions,
    Declares.append_iff, record_iff]
  constructor
  · rintro ⟨_, _, ⟨named, rfl⟩, _, between, ⟨⟨listed, inner⟩, rfl, declared⟩, _, _, registered,
      rfl, rfl⟩
    exact ⟨⟨named, listed, inner⟩, rfl, between, declared,
      Declares.interface_iff.2 ⟨named, registered⟩⟩
  · rintro ⟨⟨named, listed, inner⟩, rfl, between, declared, interface⟩
    exact ⟨(), _, ⟨named, rfl⟩, _, between, ⟨⟨listed, inner⟩, rfl, declared⟩, (), _,
      (Declares.interface_iff.1 interface).2, rfl, rfl⟩

/-- A template is resolved if its names are identifiers and its table takes it behind what the
fields define. -/
theorem resolvesIff_template {name : String} {params : List String} {fields : List Field}
    (ih : ∀ f ∈ fields, ResolvesIff f.2) : ResolvesIff (.template name params fields) := by
  intro s e s'
  have checked {s s' : Declarations} {u : PUnit} := @Declaring.yields_forIn _ s s' params
    (fun p => Declaring.lift (checkIdentifier p)) (fun p => isIdentifier p = true) u
    fun _ _ _ _ => Declaring.yields_check
  simp only [resolveType_template, yields_bind, yields_pure, Declaring.yields_check, checked,
    resolveFields_iff ih, Declaring.yields_declareInterface, Descriptor.definitions,
    Declares.append_iff, template_iff]
  constructor
  · rintro ⟨_, _, ⟨named, rfl⟩, _, _, ⟨bound, rfl⟩, _, between, ⟨⟨listed, inner⟩, rfl, declared⟩,
      _, _, registered, rfl, rfl⟩
    exact ⟨⟨named, bound, listed, inner⟩, rfl, between, declared,
      Declares.interface_iff.2 ⟨named, registered⟩⟩
  · rintro ⟨⟨named, bound, listed, inner⟩, rfl, between, declared, interface⟩
    exact ⟨(), _, ⟨named, rfl⟩, ⟨⟩, _, ⟨bound, rfl⟩, _, between, ⟨⟨listed, inner⟩, rfl, declared⟩,
      (), _, (Declares.interface_iff.1 interface).2, rfl, rfl⟩

/-- A template that is applied registers itself, then what its arguments register.  A record that
is applied has no arguments. -/
theorem resolvesIff_application {origin : Descriptor} {args : List Descriptor}
    (ihOrigin : ResolvesIff origin) (ihArgs : ∀ d ∈ args, ResolvesIff d) :
    ResolvesIff (.application origin args) := by
  intro s e s'
  rw [resolveType_application]
  cases applied : origin.instantiate args with
  | error failed =>
    refine ⟨fun h => absurd h not_yields_refuse, fun h => ?_⟩
    obtain ⟨i, instantiated⟩ := h.1.origin_of_application
    rw [applied] at instantiated
    cases instantiated
  | ok i =>
    simp only [yields_bind, ihOrigin _ _ _]
    unfold Descriptor.instantiate at applied
    split at applied
    · next name params fields =>
      split at applied
      · next count =>
        cases applied
        have generic : (Descriptor.template name params fields).templateName?.isSome = true := rfl
        simp only [if_pos generic, yields_bind, yields_pure, resolveTypes_iff ihArgs,
          application_iff]
        constructor
        · rintro ⟨_, between, ⟨renderable, rfl, first⟩, _, _, ⟨inner, rfl, more⟩, rfl, rfl⟩
          exact ⟨⟨count, renderable, inner⟩, rfl, first.append more⟩
        · rintro ⟨⟨-, renderable, inner⟩, rfl, declared⟩
          obtain ⟨between, first, more⟩ := Declares.append_iff.1 declared
          exact ⟨_, between, ⟨renderable, rfl, first⟩, _, _, ⟨inner, rfl, more⟩, rfl, rfl⟩
      · cases applied
    · next name fields transparent =>
      split at applied
      · next none =>
        cases applied
        obtain rfl := List.isEmpty_iff.1 none
        have ordinary :
            ¬(Descriptor.record name fields transparent).templateName?.isSome = true := by
          simp [Descriptor.templateName?]
        simp only [if_neg ordinary, yields_pure, Descriptor.definitions_application_nil,
          plain_iff, true_and]
        constructor
        · rintro ⟨_, _, ⟨renderable, rfl, declared⟩, rfl, rfl⟩
          exact ⟨renderable, rfl, declared⟩
        · rintro ⟨renderable, rfl, declared⟩
          exact ⟨_, _, ⟨renderable, rfl, declared⟩, rfl, rfl⟩
      · cases applied
    · cases applied

/-- **A type is resolved** exactly if its descriptor can be rendered and its definitions go with
what has been declared; the type expression is the descriptor's. -/
theorem resolveType_iff (d : Descriptor) : ResolvesIff d := by
  induction d with
  | scalar kind =>
    intro s e s'
    rw [resolveType_scalar, yields_pure, Descriptor.definitions, Declares.nil_iff,
      @eq_comm _ _ e]
    exact (and_iff_right (.scalar kind)).symm
  | temporal kind =>
    intro s e s'
    rw [resolveType_temporal, yields_pure, Descriptor.definitions, Declares.nil_iff,
      @eq_comm _ _ e]
    exact (and_iff_right (.temporal kind)).symm
  | param name =>
    intro s e s'
    simp only [resolveType_param, yields_bind, yields_pure, Declaring.yields_check,
      Descriptor.definitions, Declares.nil_iff, param_iff]
    constructor
    · rintro ⟨_, _, ⟨named, rfl⟩, rfl, rfl⟩
      exact ⟨named, rfl, rfl⟩
    · rintro ⟨named, rfl, rfl⟩
      exact ⟨(), _, ⟨named, rfl⟩, rfl, rfl⟩
  | foreign name =>
    intro s e s'
    rw [resolveType_foreign]
    refine ⟨fun h => absurd h Declaring.not_yields_fail, fun h => ?_⟩
    cases h.1
  | list element ih => exact resolvesIff_list ih
  | optional inner ih => exact resolvesIff_optional ih
  | tuple items ih => exact resolvesIff_tuple ih
  | variadic items ih => exact resolvesIff_variadic ih
  | mapping key value ihKey ihValue => exact resolvesIff_mapping ihKey ihValue
  | union members ih => exact resolvesIff_union ih
  | enum d => exact resolvesIff_enum d
  | record name fields transparent ih =>
    cases transparent with
    | true => exact resolvesIff_wrapper ih
    | false => exact resolvesIff_record ih
  | template name params fields ih => exact resolvesIff_template ih
  | application origin args ihOrigin ihArgs => exact resolvesIff_application ihOrigin ihArgs

end Resolving

end Client

end RpcBridge
