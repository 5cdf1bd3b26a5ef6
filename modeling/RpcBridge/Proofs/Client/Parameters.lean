import RpcBridge.Proofs.Client.Rendering

/-!
# Proofs/Client/Parameters — parameters and what binds them

A template binds its parameters in its own fields and nowhere else; a record binds none, not even
those of the template it stands in.  An argument of an application is written into the type
expression in any case, but the template's fields may have no use for it.  So there are two ways to
mention a parameter that nothing binds: where the shape of the type depends on it, and idly.

* `Descriptor.Reads` — the parameters in scope that the shape of a descriptor depends on;
* `Descriptor.Mentions` — the parameters that nothing binds;
* `Descriptor.bound_iff` — type expressions and interfaces mention no others.
-/

namespace RpcBridge

open Client

/-! ## Parameters of type expressions -/

namespace Client.TypeExpr

mutual

/-- The parameters that a type expression mentions. -/
def params : TypeExpr → List String
  | .word _ | .named _ => []
  | .param name => [name]
  | .applied _ args => allParams args
  | .array element => element.params
  | .tuple items => allParams items
  | .dictionary key value => key.params ++ value.params
  | .orUndefined inner => inner.params
  | .union members => allParams members

/-- The parameters that a list of type expressions mentions. -/
def allParams : List TypeExpr → List String
  | [] => []
  | e :: rest => e.params ++ allParams rest

end

theorem mem_allParams {es : List TypeExpr} {n : String} :
    n ∈ allParams es ↔ ∃ e ∈ es, n ∈ e.params := by
  induction es with
  | nil => simp only [allParams, List.not_mem_nil, false_and, exists_false]
  | cons e rest ih => simp only [allParams, List.mem_append, ih, List.exists_mem_cons_iff]

theorem allParams_params (ps : List String) : allParams (ps.map .param) = ps := by
  induction ps with
  | nil => rfl
  | cons p rest ih => rw [List.map_cons, allParams, ih, params, List.singleton_append]

end Client.TypeExpr

namespace Descriptor

theorem mem_params_typeExprs {ds : List Descriptor} {n : String} :
    n ∈ TypeExpr.allParams (typeExprs ds) ↔ ∃ d ∈ ds, n ∈ d.typeExpr.params := by
  simp only [TypeExpr.mem_allParams, typeExprs_eq_map, List.mem_map, exists_exists_and_eq_and]

/-! ## Parameters of descriptors -/

/-- What a container directly contains. -/
def components : Descriptor → List Descriptor
  | .list inner | .optional inner => [inner]
  | .tuple ds | .variadic ds | .union ds => ds
  | .mapping key value => [key, value]
  | _ => []

/-- A parameter in scope that the shape of a descriptor depends on.  An argument counts if some
field of the template reads the parameter it is for; of two parameters of one name the later one
is bound. -/
inductive Reads : Descriptor → String → Prop where
  | param (name : String) : Reads (.param name) name
  | component {c d : Descriptor} {n : String} (hd : d ∈ c.components) (inner : Reads d n) :
    Reads c n
  | argument {name : String} {params : List String} {fields : List Field} {args : List Descriptor}
    {k : Nat} {p : String} {f : Field} {d : Descriptor} {n : String} (bound : params[k]? = some p)
    (last : p ∉ params.drop (k + 1)) (hf : f ∈ fields) (read : Reads f.2 p)
    (given : args[k]? = some d) (inner : Reads d n) :
    Reads (.application (.template name params fields) args) n

/-- Some field of a template reads the argument at a position. -/
def ReadsArgument (params : List String) (fields : List Field) (k : Nat) : Prop :=
  ∃ p f, params[k]? = some p ∧ p ∉ params.drop (k + 1) ∧ f ∈ fields ∧ Reads f.2 p

/-- Whether it matters what a parameter stands for. -/
inductive Use where
  | live
  /-- In an argument that no field of the template reads. -/
  | idle

/-- A parameter that is mentioned outside of the template that declares it, where the parameters
`names` are declared. -/
inductive Mentions : Descriptor → List String → String → Use → Prop where
  | param {names : List String} {n : String} (unbound : n ∉ names) :
    Mentions (.param n) names n .live
  | component {c d : Descriptor} {names : List String} {n : String} {use : Use}
    (hd : d ∈ c.components) (inner : Mentions d names n use) : Mentions c names n use
  /-- A record declares no parameters. -/
  | record {name : String} {fields : List Field} {f : Field} {names : List String} {n : String}
    {use : Use} (hf : f ∈ fields) (inner : Mentions f.2 [] n use) :
    Mentions (.record name fields false) names n use
  /-- A transparent record declares no interface. -/
  | wrapper {name : String} {fields : List Field} {f : Field} {names : List String} {n : String}
    {use : Use} (hf : f ∈ fields) (inner : Mentions f.2 names n use) :
    Mentions (.record name fields true) names n use
  /-- A template without arguments is written with its parameters. -/
  | bare {name : String} {params : List String} {fields : List Field} {names : List String}
    {n : String} (hn : n ∈ params) (unbound : n ∉ names) :
    Mentions (.template name params fields) names n .live
  | body {name : String} {params : List String} {fields : List Field} {f : Field}
    {names : List String} {n : String} {use : Use} (hf : f ∈ fields)
    (inner : Mentions f.2 params n use) : Mentions (.template name params fields) names n use
  | origin {name : String} {params : List String} {fields : List Field} {args : List Descriptor}
    {f : Field} {names : List String} {n : String} {use : Use} (hf : f ∈ fields)
    (inner : Mentions f.2 params n use) :
    Mentions (.application (.template name params fields) args) names n use
  | plain {name : String} {fields : List Field} {transparent : Bool} {args : List Descriptor}
    {names : List String} {n : String} {use : Use}
    (inner : Mentions (.record name fields transparent) names n use) :
    Mentions (.application (.record name fields transparent) args) names n use
  | read {name : String} {params : List String} {fields : List Field} {args : List Descriptor}
    {k : Nat} {d : Descriptor} {names : List String} {n : String} {use : Use}
    (given : args[k]? = some d) (read : ReadsArgument params fields k)
    (inner : Mentions d names n use) :
    Mentions (.application (.template name params fields) args) names n use
  | unread {name : String} {params : List String} {fields : List Field} {args : List Descriptor}
    {k : Nat} {d : Descriptor} {names : List String} {n : String} {use : Use}
    (given : args[k]? = some d) (unread : ¬ReadsArgument params fields k)
    (inner : Mentions d names n use) :
    Mentions (.application (.template name params fields) args) names n .idle

/-- A record or template whose interface mentions a parameter that it does not declare. -/
def Leaks (d : Descriptor) (n : String) : Prop :=
  ∃ m, d.definition? = some m ∧ n ∉ m.params?.getD [] ∧
    ∃ f ∈ fieldTypes d.fields, n ∈ f.2.params

/-! ## What is mentioned is written -/

section Written

variable {c d : Descriptor} {names : List String} {n : String} {use : Use}

theorem occursIn_component (hd : d ∈ c.components) {p : Descriptor} (h : p.OccursIn d) :
    p.OccursIn c := by
  cases c with
  | list inner =>
    obtain rfl := List.mem_singleton.1 hd
    exact .list h
  | optional inner =>
    obtain rfl := List.mem_singleton.1 hd
    exact .optional h
  | tuple => exact .tuple hd h
  | variadic => exact .variadic hd h
  | union => exact .union hd h
  | mapping key value =>
    rcases List.mem_pair.1 hd with rfl | rfl
    · exact .key h
    · exact .value h
  | _ => cases hd

theorem Renderable.component (h : c.Renderable) (hd : d ∈ c.components) : d.Renderable := by
  cases h with
  | list inner | optional inner | variadic inner =>
    obtain rfl := List.mem_singleton.1 hd
    exact inner
  | tuple inner | union _ inner => exact inner d hd
  | mapping keys values =>
    rcases List.mem_pair.1 hd with rfl | rfl
    · exact keys
    · exact values
  | _ => cases hd

/-- A container is written with all that it contains. -/
theorem params_component (hd : d ∈ c.components) (h : c.Renderable)
    (hn : n ∈ d.typeExpr.params) : n ∈ c.typeExpr.params := by
  cases h with
  | list | optional | variadic =>
    obtain rfl := List.mem_singleton.1 hd
    exact hn
  | tuple | union => exact mem_params_typeExprs.2 ⟨d, hd, hn⟩
  | mapping =>
    rcases List.mem_pair.1 hd with rfl | rfl
    · exact List.mem_append_left _ hn
    · exact List.mem_append_right _ hn
  | _ => cases hd

theorem exists_fieldType {fields : List Field} :
    (∃ f ∈ fieldTypes fields, n ∈ f.2.params) ↔ ∃ f ∈ fields, n ∈ f.2.typeExpr.params := by
  simp only [fieldTypes_eq_map, List.mem_map, exists_exists_and_eq_and]

theorem leaks_record {name : String} {fields : List Field} :
    (record name fields false).Leaks n ↔ ∃ f ∈ fields, n ∈ f.2.typeExpr.params := by
  rw [← exists_fieldType]
  constructor
  · rintro ⟨_, -, -, mentioned⟩
    exact mentioned
  · exact fun mentioned => ⟨_, rfl, List.not_mem_nil, mentioned⟩

theorem leaks_template {name : String} {params : List String} {fields : List Field} :
    (template name params fields).Leaks n ↔
      n ∉ params ∧ ∃ f ∈ fields, n ∈ f.2.typeExpr.params := by
  rw [← exists_fieldType]
  constructor
  · rintro ⟨_, defines, undeclared, mentioned⟩
    cases defines
    exact ⟨undeclared, mentioned⟩
  · rintro ⟨undeclared, mentioned⟩
    exact ⟨_, rfl, undeclared, mentioned⟩

/-- **What is mentioned unbound is written unbound**: in the type expression, or in an interface. -/
theorem Mentions.written (mention : d.Mentions names n use) (h : d.Renderable) :
    (n ∈ d.typeExpr.params ∧ n ∉ names) ∨ ∃ q : Descriptor, q.OccursIn d ∧ q.Leaks n := by
  induction mention with
  | param unbound => exact .inl ⟨List.mem_singleton_self _, unbound⟩
  | component hd _ ih =>
    exact (ih (h.component hd)).imp (And.imp_left (params_component hd h))
      fun ⟨q, occurs, leaks⟩ => ⟨q, occursIn_component hd occurs, leaks⟩
  | record hf _ ih =>
    obtain ⟨-, -, inner⟩ := Renderable.record_iff.1 h
    rcases ih (inner _ hf) with ⟨mentioned, -⟩ | ⟨q, occurs, leaks⟩
    · exact .inr ⟨_, .here, leaks_record.2 ⟨_, hf, mentioned⟩⟩
    · exact .inr ⟨q, .record hf occurs, leaks⟩
  | wrapper hf _ ih =>
    obtain ⟨field, d, rfl, wrapped⟩ := Renderable.wrapper_iff.1 h
    obtain rfl := List.mem_singleton.1 hf
    exact (ih wrapped).imp_right fun ⟨q, occurs, leaks⟩ => ⟨q, .record hf occurs, leaks⟩
  | bare hn unbound =>
    refine .inl ⟨?_, unbound⟩
    rw [typeExpr, TypeExpr.params, TypeExpr.allParams_params]
    exact hn
  | body hf _ ih =>
    obtain ⟨-, -, -, inner⟩ := Renderable.template_iff.1 h
    rcases ih (inner _ hf) with ⟨mentioned, undeclared⟩ | ⟨q, occurs, leaks⟩
    · exact .inr ⟨_, .here, leaks_template.2 ⟨undeclared, _, hf, mentioned⟩⟩
    · exact .inr ⟨q, .template hf occurs, leaks⟩
  | origin hf _ ih =>
    obtain ⟨-, template, -⟩ := Renderable.application_iff.1 h
    obtain ⟨-, -, -, inner⟩ := Renderable.template_iff.1 template
    rcases ih (inner _ hf) with ⟨mentioned, undeclared⟩ | ⟨q, occurs, leaks⟩
    · exact .inr ⟨_, .origin .here, leaks_template.2 ⟨undeclared, _, hf, mentioned⟩⟩
    · exact .inr ⟨q, .origin (.template hf occurs), leaks⟩
  | plain _ ih =>
    obtain ⟨rfl, record⟩ := Renderable.plain_iff.1 h
    exact (ih record).imp_right fun ⟨q, occurs, leaks⟩ => ⟨q, .origin occurs, leaks⟩
  | read given _ _ ih | unread given _ _ ih =>
    obtain ⟨-, -, inner⟩ := Renderable.application_iff.1 h
    have hd := List.mem_of_getElem? given
    refine (ih (inner _ hd)).imp (And.imp_left fun mentioned => ?_) fun ⟨q, occurs, leaks⟩ => ?_
    · exact mem_params_typeExprs.2 ⟨_, hd, mentioned⟩
    · exact ⟨q, .argument hd occurs, leaks⟩

/-! ## What is written is mentioned -/

theorem exists_mentions_component (hd : d ∈ c.components) (h : ∃ use, d.Mentions names n use) :
    ∃ use, c.Mentions names n use := h.imp fun _ mention => .component hd mention

/-- What an argument mentions, its application mentions: idly if it is not read. -/
theorem exists_mentions_argument {name : String} {params : List String} {fields : List Field}
    {args : List Descriptor} (hd : d ∈ args) (h : ∃ use, d.Mentions names n use) :
    ∃ use, (application (template name params fields) args).Mentions names n use := by
  obtain ⟨k, given⟩ := List.mem_iff_getElem?.1 hd
  obtain ⟨use, mention⟩ := h
  by_cases read : ReadsArgument params fields k
  · exact ⟨use, .read given read mention⟩
  · exact ⟨.idle, .unread given read mention⟩

/-- A parameter that is written in a type expression is mentioned wherever it is not declared. -/
theorem mentions_of_mem_params (h : d.Renderable) (hn : n ∈ d.typeExpr.params)
    (unbound : n ∉ names) : ∃ use, d.Mentions names n use := by
  induction h with
  | scalar kind => cases kind <;> cases hn
  | temporal | enum => cases hn
  | param =>
    obtain rfl := List.mem_singleton.1 hn
    exact ⟨.live, .param unbound⟩
  | list _ ih | optional _ ih | variadic _ ih =>
    exact exists_mentions_component (List.mem_singleton_self _) (ih hn)
  | tuple _ ih | union _ _ ih =>
    obtain ⟨d, hd, mentioned⟩ := mem_params_typeExprs.1 hn
    exact exists_mentions_component hd (ih d hd mentioned)
  | mapping _ _ ihKey ihValue =>
    rcases List.mem_append.1 hn with hn | hn
    · exact exists_mentions_component (List.mem_cons_self ..) (ihKey hn)
    · exact exists_mentions_component (List.mem_cons_of_mem _ (List.mem_singleton_self _))
        (ihValue hn)
  | wrapper _ ih => exact (ih hn).imp fun _ => .wrapper (List.mem_singleton_self _)
  | record => cases hn
  | template =>
    rw [typeExpr, TypeExpr.params, TypeExpr.allParams_params] at hn
    exact ⟨.live, .bare hn unbound⟩
  | application _ _ _ _ ih =>
    obtain ⟨d, hd, mentioned⟩ := mem_params_typeExprs.1 hn
    exact exists_mentions_argument hd (ih d hd mentioned)
  | plain _ ih => exact (ih hn).imp fun _ => .plain

/-- A parameter that an interface leaks is mentioned, whatever is declared around it. -/
theorem mentions_of_leaks {q : Descriptor} (h : d.Renderable) (occurs : q.OccursIn d)
    (leaks : q.Leaks n) (names : List String) : ∃ use, d.Mentions names n use := by
  induction occurs generalizing names with
  | here =>
    cases h with
    | record _ _ inner =>
      obtain ⟨f, hf, mentioned⟩ := leaks_record.1 leaks
      exact (mentions_of_mem_params (inner f hf) mentioned List.not_mem_nil).imp fun _ => .record hf
    | template _ _ _ inner =>
      obtain ⟨undeclared, f, hf, mentioned⟩ := leaks_template.1 leaks
      exact (mentions_of_mem_params (inner f hf) mentioned undeclared).imp fun _ => .body hf
    | enum =>
      obtain ⟨-, -, -, f, hf, -⟩ := leaks
      cases hf
    | _ =>
      obtain ⟨_, defines, -⟩ := leaks
      cases defines
  | record hf _ ih =>
    cases h with
    | wrapper wrapped =>
      obtain rfl := List.mem_singleton.1 hf
      exact (ih wrapped names).imp fun _ => .wrapper hf
    | record _ _ inner => exact (ih (inner _ hf) []).imp fun _ => .record hf
  | template hf _ ih =>
    obtain ⟨-, -, -, inner⟩ := Renderable.template_iff.1 h
    exact (ih (inner _ hf) _).imp fun _ => .body hf
  | origin _ ih =>
    cases h with
    | application _ origin =>
      -- where its own parameters are declared, a template mentions parameters in its fields only
      obtain ⟨use, mention⟩ := ih origin _
      cases mention with
      | component hd => cases hd
      | bare hn unbound => exact absurd hn unbound
      | body hf inner => exact ⟨use, .origin hf inner⟩
    | plain origin => exact (ih origin names).imp fun _ => .plain
  | argument hd _ ih =>
    cases h with
    | application _ _ inner => exact exists_mentions_argument hd (ih (inner _ hd) names)
    | plain => cases hd
  | list _ ih =>
    exact exists_mentions_component (List.mem_singleton_self _)
      (ih (Renderable.list_iff.1 h) names)
  | optional _ ih =>
    exact exists_mentions_component (List.mem_singleton_self _)
      (ih (Renderable.optional_iff.1 h) names)
  | tuple hd _ ih | variadic hd _ ih | union hd _ ih =>
    exact exists_mentions_component hd (ih (h.component hd) names)
  | key _ ih =>
    exact exists_mentions_component (List.mem_cons_self ..)
      (ih (Renderable.mapping_iff.1 h).1 names)
  | value _ ih =>
    exact exists_mentions_component (List.mem_cons_of_mem _ (List.mem_singleton_self _))
      (ih (Renderable.mapping_iff.1 h).2 names)

/-- **Every parameter in the rendering of a type is bound** exactly if the type mentions none that
is not: the type expression mentions none at all, and each interface mentions its own only. -/
theorem bound_iff (h : d.Renderable) :
    (d.typeExpr.params = [] ∧ ∀ (q : Descriptor) (n : String), q.OccursIn d → ¬q.Leaks n) ↔
      ∀ n use, ¬d.Mentions [] n use := by
  constructor
  · rintro ⟨closed, sealed⟩ n use mention
    rcases mention.written h with ⟨mentioned, -⟩ | ⟨q, occurs, leaks⟩
    · exact List.not_mem_nil (closed ▸ mentioned)
    · exact sealed q n occurs leaks
  · intro none
    refine ⟨List.eq_nil_iff_forall_not_mem.2 fun n mentioned => ?_, fun q n occurs leaks => ?_⟩
    · obtain ⟨use, mention⟩ := mentions_of_mem_params h mentioned List.not_mem_nil
      exact none n use mention
    · obtain ⟨use, mention⟩ := mentions_of_leaks h occurs leaks []
      exact none n use mention

end Written

end Descriptor

end RpcBridge
