import RpcBridge.Proofs.Descriptor.Opening

/-!
# Proofs/Descriptor/Composition — one substitution after another

Arguments are put in lazily: the arguments of an inner application are substituted before its
template is applied to them.  Nothing depends on the order.  Two substitutions in a row come to one
that binds what the first binds to the results of the second (`Bindings.Composes`), and a template
whose fields mention its own parameters only can be applied before or after.

* `substitute_substitute` — one substitution after another is a single one;
* `instantiate_substituteAll` — applying a template commutes with substitution.
-/

namespace RpcBridge

/-! ## Bindings -/

namespace Bindings

variable {bindings : Bindings} {name : String}

/-- A parameter bound by two lists of bindings takes the later list's binding. -/
theorem find?_append (s t : Bindings) (name : String) :
    find? (s ++ t) name = (find? t name).or (find? s name) := by
  rw [find?, List.reverse_append, List.find?_append, Option.map_or, ← find?, ← find?]

/-- Rewriting what is bound leaves which parameters are bound alone. -/
theorem find?_map (s : Bindings) (g : Descriptor → Descriptor) (name : String) :
    find? (s.map fun b => (b.1, g b.2)) name = (s.find? name).map g := by
  rw [find?, ← List.map_reverse, List.find?_map, find?, Option.map_map, Option.map_map]
  rfl

/-- With as many arguments as parameters, every parameter is bound to some argument. -/
theorem exists_argument {params : List String} {args : List Descriptor} {name : String}
    (count : params.length = args.length) (declared : name ∈ params) :
    ∃ d ∈ args, Bindings.find? (params.zip args) name = some d := by
  obtain ⟨k, hk, rfl⟩ := List.getElem_of_mem declared
  have listed : (params[k], args[k]) ∈ (params.zip args).reverse := by
    rw [List.mem_reverse, ← List.getElem_zip (h := by simp only [List.length_zip]; omega)]
    exact List.getElem_mem _
  obtain ⟨b, found⟩ := Option.isSome_iff_exists.1
    (List.find?_isSome (p := fun b : String × Descriptor => b.1 = params[k]).2
      ⟨_, listed, decide_eq_true rfl⟩)
  refine ⟨b.2, ?_, by rw [Bindings.find?, found]; rfl⟩
  have given := List.mem_reverse.1 (List.mem_of_find?_eq_some found)
  exact (List.of_mem_zip (a := b.1) (b := b.2) given).2

/-- Bindings that do what two others do one after the other: what the first binds, with the second
carried out in it, and what only the second binds. -/
def Composes (u s t : Bindings) : Prop :=
  ∀ name, u.find? name = ((s.find? name).map (·.substitute t)).or (t.find? name)

/-- Bindings that do what two others do one after the other. -/
def andThen (s t : Bindings) : Bindings := t ++ s.map fun b => (b.1, b.2.substitute t)

/-- Binding by `s` and then by `t` composes the two substitutions. -/
theorem composes_andThen (s t : Bindings) : (s.andThen t).Composes s t := by
  intro name
  rw [andThen, find?_append, find?_map]

end Bindings

namespace Descriptor

/-! ## What substitution depends on -/

mutual

/-- The parameters that substitution replaces, if they are bound. -/
def openParams : Descriptor → List String
  | .param name => [name]
  | .list inner | .optional inner => inner.openParams
  | .tuple ds | .variadic ds | .union ds | .application _ ds => allOpenParams ds
  | .mapping key value => key.openParams ++ value.openParams
  | .scalar _ | .temporal _ | .record _ _ _ | .template _ _ _ | .enum _ | .foreign _ => []

/-- The parameters that substitution replaces in a list of descriptors. -/
def allOpenParams : List Descriptor → List String
  | [] => []
  | d :: rest => d.openParams ++ allOpenParams rest

end

/-- The open parameters of a list are those of its members. -/
theorem mem_allOpenParams {ds : List Descriptor} {name : String} :
    name ∈ allOpenParams ds ↔ ∃ d ∈ ds, name ∈ d.openParams := by
  induction ds with
  | nil => simp only [allOpenParams, List.not_mem_nil, false_and, exists_false]
  | cons d rest ih => simp [allOpenParams, ih]

/-! ## One substitution after another -/

variable {s t u : Bindings} {d : Descriptor} {ds : List Descriptor}

/-- Two substitutions in a row agree with the third on a list when they do on each of its members.
-/
theorem substituteAll_substituteAll
    (each : ∀ d ∈ ds, (d.substitute s).substitute t = d.substitute u) :
    substituteAll t (substituteAll s ds) = substituteAll u ds := by
  simp only [substituteAll_eq_map, List.map_map]
  exact List.map_congr_left each

/-- **One substitution after another is a single one**; only the parameters that are replaced
matter. -/
theorem substitute_substitute_of (same : ∀ name ∈ d.openParams,
    u.find? name = ((s.find? name).map (·.substitute t)).or (t.find? name)) :
    (d.substitute s).substitute t = d.substitute u := by
  induction d with
  | param name =>
    rw [openParams] at same
    rw [substitute, substitute, same name List.mem_cons_self]
    cases s.find? name with
    | none => rw [Option.getD_none, substitute, Option.map_none, Option.none_or]
    | some d => rw [Option.getD_some, Option.map_some, Option.some_or, Option.getD_some]
  | list element ih =>
    rw [openParams] at same
    rw [substitute, substitute, substitute, ih same]
  | optional inner ih =>
    rw [openParams] at same
    rw [substitute, substitute, substitute, ih same]
  | mapping key value ihKey ihValue =>
    rw [openParams, List.forall_mem_append] at same
    rw [substitute, substitute, substitute, ihKey same.1, ihValue same.2]
  | tuple ds ih | variadic ds ih | union ds ih | application _ ds _ ih =>
    rw [openParams] at same
    rw [substitute, substitute, substitute, substituteAll_substituteAll fun d hd =>
      ih d hd fun name there => same name (mem_allOpenParams.2 ⟨d, hd, there⟩)]
  | _ => simp only [substitute]

theorem substitute_substitute (d : Descriptor) (composes : u.Composes s t) :
    (d.substitute s).substitute t = d.substitute u :=
  substitute_substitute_of fun name _ => composes name

/-! ## Templates -/

variable {name : String} {params : List String} {fields : List Field} {args : List Descriptor}

/-- Substituting into the arguments substitutes into what the parameters are bound to. -/
theorem find?_zip_substituteAll (params : List String) (args : List Descriptor) (t : Bindings)
    (name : String) : Bindings.find? (params.zip (substituteAll t args)) name =
      (Bindings.find? (params.zip args) name).map (·.substitute t) := by
  rw [substituteAll_eq_map, List.zip_map_right]
  exact Bindings.find?_map _ (·.substitute t) name

/-- **Applying a template commutes with substitution**, if its fields mention its own parameters
only. -/
theorem instantiate_substituteAll (own : ∀ f ∈ fields, ∀ p ∈ f.2.openParams, p ∈ params)
    (count : params.length = args.length) (t : Bindings) :
    ∃ i, instantiate (.template name params fields) args = .ok i ∧
      instantiate (.template name params fields) (substituteAll t args) =
        .ok ⟨i.name, substituteFields t i.fields⟩ := by
  refine ⟨⟨name, substituteFields (params.zip args) fields⟩, ?_, ?_⟩
  · rw [instantiate, if_pos count]
  · rw [instantiate, length_substituteAll, if_pos count]
    congr 2
    simp only [substituteFields, List.map_map]
    refine List.map_congr_left fun f hf => ?_
    refine congrArg (Prod.mk f.1) (substitute_substitute_of fun p hp => ?_).symm
    obtain ⟨d, -, found⟩ := Bindings.exists_argument count (own f hf p hp)
    rw [find?_zip_substituteAll, found, Option.map_some, Option.some_or]

/-- **Substitution composes and commutes with applying templates.**  Two substitutions in a row come
to the one that binds what the first binds to the results of the second, and there always is such a
one.  Substituting in the arguments of a template whose fields mention its own parameters only makes
the record of the arguments, substituted in its fields. -/
theorem substitution_laws :
    (∀ (d : Descriptor) (s t u : Bindings), u.Composes s t →
      (d.substitute s).substitute t = d.substitute u) ∧
    (∀ s t : Bindings, (s.andThen t).Composes s t) ∧
    ∀ (name : String) (params : List String) (fields : List Field) (args : List Descriptor)
      (t : Bindings), (∀ f ∈ fields, ∀ p ∈ f.2.openParams, p ∈ params) →
      params.length = args.length →
      ∃ i, instantiate (.template name params fields) args = .ok i ∧
        instantiate (.template name params fields) (substituteAll t args) =
          .ok ⟨i.name, substituteFields t i.fields⟩ :=
  ⟨fun d _ _ _ composes => substitute_substitute d composes, Bindings.composes_andThen,
    fun _ _ _ _ t own count => instantiate_substituteAll own count t⟩

/-- The substitution laws at a history record: two substitutions, then an application. -/
theorem substitution_laws_history :
    let s : Bindings := [("A", .list (.param "B"))]
    let t : Bindings := [("B", .temporal .date)]
    let fields : List Field := [("value", .param "T"), ("history", .list (.param "T"))]
    (s.andThen t).Composes s t ∧
      ((mapping (.param "B") (.param "A")).substitute s).substitute t =
        mapping (.temporal .date) (.list (.temporal .date)) ∧
      ((mapping (.param "B") (.param "A")).substitute s).substitute t =
        (mapping (.param "B") (.param "A")).substitute (s.andThen t) ∧
      (∀ f ∈ fields, ∀ p ∈ f.2.openParams, p ∈ ["T"]) ∧
      ∃ i, instantiate (.template "History" ["T"] fields) [.param "B"] = .ok i ∧
        instantiate (.template "History" ["T"] fields) (substituteAll t [.param "B"]) =
          .ok ⟨i.name, substituteFields t i.fields⟩ := by
  obtain ⟨composition, exists_composition, commutes⟩ := substitution_laws
  have own : ∀ f ∈ ([("value", .param "T"), ("history", .list (.param "T"))] : List Field),
      ∀ p ∈ f.2.openParams, p ∈ ["T"] := by decide
  exact ⟨exists_composition _ _, by rfl, composition _ _ _ _ (exists_composition _ _), own,
    commutes _ _ _ _ _ own rfl⟩

end Descriptor

end RpcBridge
