import RpcBridge.Proofs.Client.Blame
import RpcBridge.Proofs.Client.Exporting
import RpcBridge.Proofs.Descriptor.Composition
import RpcBridge.Proofs.Wire.Unsupported

/-!
# Proofs/Client/WellScoped — parameters that are always filled

In a well scoped type, a template stands only where it is applied, and its fields mention no
parameters but its own.  Carrying out an application leaves such a type well scoped: every
parameter of the template gets an argument, and what the arguments mention is in scope outside.
So no parameter is left over, however deep the applications are nested, and neither a service nor
the generator ever meets one.

* `Descriptor.WellScopedIn` — the types that mention only the parameters in scope;
* `WellScopedIn.substitute`, `WellScoped.instantiate` — what substitution does to scopes;
* `WellScoped.filled` — no part of the shape lacks an argument;
* `WellScoped.no_parameter_blamed` — no conversion fails because of a parameter.
-/

namespace RpcBridge

open Client

/-! ## Scopes -/

/-- A type in which every parameter is one of those in scope.  A template is nothing by itself, and
the bodies of records and templates are scopes of their own. -/
inductive Descriptor.WellScopedIn : List String → Descriptor → Prop where
  | scalar {names : List String} (kind : ScalarKind) : WellScopedIn names (.scalar kind)
  | temporal {names : List String} (kind : TemporalKind) : WellScopedIn names (.temporal kind)
  | enum {names : List String} (e : EnumDef) : WellScopedIn names (.enum e)
  | foreign {names : List String} (name : String) : WellScopedIn names (.foreign name)
  | param {names : List String} {name : String} (bound : name ∈ names) :
    WellScopedIn names (.param name)
  | list {names : List String} {element : Descriptor} (inner : WellScopedIn names element) :
    WellScopedIn names (.list element)
  | tuple {names : List String} {items : List Descriptor}
    (each : ∀ d ∈ items, WellScopedIn names d) : WellScopedIn names (.tuple items)
  | variadic {names : List String} {items : List Descriptor}
    (each : ∀ d ∈ items, WellScopedIn names d) : WellScopedIn names (.variadic items)
  | mapping {names : List String} {key value : Descriptor} (keys : WellScopedIn names key)
    (values : WellScopedIn names value) : WellScopedIn names (.mapping key value)
  | optional {names : List String} {inner : Descriptor} (present : WellScopedIn names inner) :
    WellScopedIn names (.optional inner)
  | union {names : List String} {members : List Descriptor}
    (each : ∀ d ∈ members, WellScopedIn names d) : WellScopedIn names (.union members)
  | record {names : List String} {name : String} {fields : List Field} {transparent : Bool}
    (body : ∀ f ∈ fields, WellScopedIn [] f.2) :
    WellScopedIn names (.record name fields transparent)
  | template {names : List String} {name : String} {params : List String} {fields : List Field}
    {args : List Descriptor} (body : ∀ f ∈ fields, WellScopedIn params f.2)
    (arguments : ∀ d ∈ args, WellScopedIn names d) :
    WellScopedIn names (.application (.template name params fields) args)
  /-- What else is applied is applied in vain, unless it is a record and to nothing. -/
  | applied {names outer : List String} {origin : Descriptor} {args : List Descriptor}
    (whole : WellScopedIn outer origin) (arguments : ∀ d ∈ args, WellScopedIn names d) :
    WellScopedIn names (.application origin args)

/-- A type in which every template is applied and every parameter is one of its template's. -/
def Descriptor.WellScoped (d : Descriptor) : Prop := d.WellScopedIn []

/-- A part that nothing can be made of before it gets an argument: a parameter, or a template that
is not applied. -/
def Shape.LacksArgument : Shape → Prop
  | .blocked _ (.freeParam _) => True
  | .bareTemplate _ _ _ => True
  | _ => False

namespace Descriptor

section Substitution

variable {names outer : List String} {bindings : Bindings} {d origin : Descriptor}
  {ds args : List Descriptor}

theorem wellScopedIn_substituteAll
    (each : ∀ d ∈ ds, (d.substitute bindings).WellScopedIn outer) :
    ∀ d ∈ substituteAll bindings ds, d.WellScopedIn outer := by
  rw [substituteAll_eq_map]
  exact List.forall_mem_map.2 each

/-- **Substitution leads from one scope to another**, if each parameter of the first is bound to
something that is well scoped in the second. -/
theorem WellScopedIn.substitute (h : d.WellScopedIn names)
    (bound : ∀ name ∈ names, ∃ e, bindings.find? name = some e ∧ e.WellScopedIn outer) :
    (d.substitute bindings).WellScopedIn outer := by
  induction h with
  | scalar kind =>
    simp only [Descriptor.substitute]
    exact .scalar kind
  | temporal kind =>
    simp only [Descriptor.substitute]
    exact .temporal kind
  | enum e =>
    simp only [Descriptor.substitute]
    exact .enum e
  | foreign name =>
    simp only [Descriptor.substitute]
    exact .foreign name
  | record body =>
    -- a scope of its own, which substitution leaves alone
    simp only [Descriptor.substitute]
    exact .record body
  | param known =>
    obtain ⟨e, found, inScope⟩ := bound _ known
    rw [Descriptor.substitute, found]
    exact inScope
  | list _ ih =>
    rw [Descriptor.substitute]
    exact .list (ih bound)
  | tuple _ ih =>
    rw [Descriptor.substitute]
    exact .tuple (wellScopedIn_substituteAll fun d hd => ih d hd bound)
  | variadic _ ih =>
    rw [Descriptor.substitute]
    exact .variadic (wellScopedIn_substituteAll fun d hd => ih d hd bound)
  | mapping _ _ ihKey ihValue =>
    rw [Descriptor.substitute]
    exact .mapping (ihKey bound) (ihValue bound)
  | optional _ ih =>
    rw [Descriptor.substitute]
    exact .optional (ih bound)
  | union _ ih =>
    rw [Descriptor.substitute]
    exact .union (wellScopedIn_substituteAll fun d hd => ih d hd bound)
  | template body _ _ ih =>
    rw [Descriptor.substitute]
    exact .template body (wellScopedIn_substituteAll fun d hd => ih d hd bound)
  | applied whole _ _ ih =>
    rw [Descriptor.substitute]
    exact .applied whole (wellScopedIn_substituteAll fun d hd => ih d hd bound)

/-- **The fields of a well scoped application are well scoped**, the arguments substituted. -/
theorem WellScoped.instantiate {i : Instance} (h : (application origin args).WellScoped)
    (made : Descriptor.instantiate origin args = .ok i) : ∀ f ∈ i.fields, f.2.WellScoped := by
  unfold Descriptor.instantiate at made
  split at made
  · next name params fields =>
    split at made
    · next count =>
      cases made
      refine List.forall_mem_map.2 fun f hf => ?_
      cases h with
      | template body arguments =>
        refine (body f hf).substitute fun name declared => ?_
        obtain ⟨d, hd, found⟩ := Bindings.exists_argument count declared
        exact ⟨d, found, arguments d hd⟩
      | applied whole => cases whole
    · cases made
  · next name fields transparent =>
    split at made
    · cases made
      cases h with
      | applied whole =>
        cases whole with
        | record body => exact body
    · cases made
  · cases made

end Substitution

/-! ## Shapes -/

section Shapes

variable {d : Descriptor} {q : Shape}

/-- An application is refused, if at all, because it is malformed. -/
theorem shape_application_ne (origin : Descriptor) (args : List Descriptor) (e : Descriptor)
    (name : String) : (application origin args).shape ≠ .blocked e (.freeParam name) := by
  cases made : Descriptor.instantiate origin args with
  | ok i =>
    rcases shape_application made with record | opened
    · rw [record]
      exact nofun
    · rw [opened]
      exact nofun
  | error e =>
    rw [shape_application_error made]
    exact nofun

theorem filled_fields {fields : List Field} {f : String × Shape}
    (each : ∀ f ∈ fields, q.OccursIn f.2.shape → ¬q.LacksArgument)
    (hf : f ∈ fieldShapes [] fields) (part : q.OccursIn f.2) : ¬q.LacksArgument := by
  rw [fieldShapes_eq_map] at hf
  obtain ⟨g, hg, rfl⟩ := List.mem_map.1 hf
  exact each g hg part

/-- A well scoped type is not itself a parameter. -/
theorem WellScoped.not_freeParam (h : d.WellScoped) (e : Descriptor) (name : String) :
    d.shape ≠ .blocked e (.freeParam name) := by
  cases h with
  | scalar | temporal | enum | foreign | list | tuple | mapping | optional => exact nofun
  | param bound => cases bound
  | @variadic _ items _ =>
    cases single : variadicItem items with
    | ok item =>
      rw [shape_variadic single]
      exact nofun
    | error e =>
      rw [shape_variadic_error single]
      exact nofun
  | @union _ members _ =>
    cases member : optionalMember members with
    | ok inner =>
      rw [shape_union member]
      exact nofun
    | error e =>
      rw [shape_union_error member]
      exact nofun
  | @record _ name fields transparent _ =>
    cases wraps : wrappedField name fields transparent with
    | ok field =>
      cases field with
      | none =>
        rw [shape_record wraps]
        exact nofun
      | some field =>
        rw [shape_wrapper wraps]
        exact nofun
    | error e =>
      rw [shape_record_error wraps]
      exact nofun
  | template | applied =>
    exact shape_application_ne _ _ e name

/-- The parts of an application are those of its fields, which have all their arguments. -/
theorem filled_application {i : Instance} (made : Descriptor.instantiate origin args = .ok i)
    (each : ∀ f ∈ i.fields, q.OccursIn f.2.shape → ¬q.LacksArgument)
    (occurs : q.OccursIn (application origin args).shape) : ¬q.LacksArgument := by
  rcases shape_application made with record | opened
  · rw [record] at occurs
    cases occurs with
    | here => exact id
    | record hf part => exact filled_fields each hf part
  · rw [opened] at occurs
    cases occurs with
    | here => exact id
    | opened hf part => exact filled_fields each hf part

/-- A part of an optional type is the type itself or a part of what may be there. -/
theorem filled_optional {inner : Descriptor}
    (present : q.OccursIn inner.shape → ¬q.LacksArgument)
    (occurs : q.OccursIn (.optional inner.shape)) : ¬q.LacksArgument := by
  cases occurs with
  | here => exact id
  | optional part => exact present part

/-- **No part of a well scoped type lacks an argument**, the abbreviations carried out. -/
theorem WellScoped.filled (h : d.WellScoped) (occurs : q.OccursIn d.shape) : ¬q.LacksArgument := by
  -- along the abbreviations: the fields of an application are not among its parts
  induction d using opening generalizing q with
  | scalar | temporal | enum =>
    cases occurs
    exact id
  | list element ih =>
    cases h with
    | list inner =>
      cases occurs with
      | here => exact id
      | list part => exact ih inner part
  | variadic items item single ih =>
    rw [shape_variadic single] at occurs
    cases h with
    | variadic each =>
      cases occurs with
      | here => exact id
      | list part => exact ih (each item (mem_of_variadicItem single)) part
  | tuple items ih =>
    cases h with
    | tuple each =>
      cases occurs with
      | here => exact id
      | tuple hs part =>
        rw [shapesIn_eq_map] at hs
        obtain ⟨d, hd, rfl⟩ := List.mem_map.1 hs
        exact ih d hd (each d hd) part
  | mapping key value ihKey ihValue =>
    cases h with
    | mapping keys values =>
      cases occurs with
      | here => exact id
      | key part => exact ihKey keys part
      | value part => exact ihValue values part
  | optional inner ih =>
    cases h with
    | optional present => exact filled_optional (ih present) occurs
  | union members inner member ih =>
    rw [shape_union member] at occurs
    cases h with
    | union each => exact filled_optional (ih (each inner (mem_of_optionalMember member))) occurs
  | record name fields transparent wraps ih =>
    rw [shape_record wraps] at occurs
    cases h with
    | record body =>
      cases occurs with
      | here => exact id
      | record hf part => exact filled_fields (fun f hf part => ih f hf (body f hf) part) hf part
  | wrapper name fields transparent field wraps ih =>
    rw [shape_wrapper wraps] at occurs
    obtain rfl := eq_singleton_of_wrappedField wraps
    cases h with
    | record body =>
      cases occurs with
      | here => exact id
      | wrapper part => exact ih (body field (List.mem_singleton_self _)) part
  | template => cases h
  | application origin args i made ih =>
    exact filled_application made (fun f hf => ih f hf (h.instantiate made f hf)) occurs
  | blocked d e obstacle blocks =>
    rw [blocks] at occurs
    cases occurs
    cases obstacle with
    | freeParam name => exact absurd blocks (h.not_freeParam e name)
    | malformed | foreign => exact id

end Shapes

end Descriptor

/-! ## Errors -/

/-- A service has met a parameter. -/
def WireError.BlamesParameter (e : WireError) : Prop :=
  ∃ d name, e.cause = .unsupported d (.freeParam name)

/-- The generator has met a parameter, or a template whose parameters have no arguments. -/
def Client.ExportError.BlamesParameter (e : ExportError) : Prop :=
  ∃ d name, e.root = .unsupported d (.obstacle (.freeParam name)) ∨
    e.root = .unsupported d (.bareTemplate name)

/-- What is refused because of a parameter has a part that lacks an argument. -/
theorem Shape.Refuses.exists_lacksArgument {s : Shape} {e : ExportError} (h : s.Refuses e)
    {d : Descriptor} {name : String} (parameter : e = .unsupported d (.obstacle (.freeParam name)) ∨
      e = .unsupported d (.bareTemplate name)) : ∃ q : Shape, q.OccursIn s ∧ q.LacksArgument := by
  induction h with
  | blocked d obstacle =>
    rcases parameter with same | same
    · cases same
      exact ⟨_, .here, trivial⟩
    · cases same
  | bareTemplate origin name fields => exact ⟨_, .here, trivial⟩
  | opening | named => rcases parameter with same | same <;> cases same
  | list _ ih =>
    obtain ⟨q, part, lacks⟩ := ih parameter
    exact ⟨q, .list part, lacks⟩
  | tuple hs _ ih =>
    obtain ⟨q, part, lacks⟩ := ih parameter
    exact ⟨q, .tuple hs part, lacks⟩
  | key _ ih =>
    obtain ⟨q, part, lacks⟩ := ih parameter
    exact ⟨q, .key part, lacks⟩
  | value _ ih =>
    obtain ⟨q, part, lacks⟩ := ih parameter
    exact ⟨q, .value part, lacks⟩
  | optional _ ih =>
    obtain ⟨q, part, lacks⟩ := ih parameter
    exact ⟨q, .optional part, lacks⟩
  | record hf _ ih =>
    obtain ⟨q, part, lacks⟩ := ih parameter
    exact ⟨q, .record hf part, lacks⟩
  | wrapper _ ih =>
    obtain ⟨q, part, lacks⟩ := ih parameter
    exact ⟨q, .wrapper part, lacks⟩
  | opened hf _ ih =>
    obtain ⟨q, part, lacks⟩ := ih parameter
    exact ⟨q, .opened hf part, lacks⟩

namespace Descriptor.WellScoped

variable {d : Descriptor}

/-- A service never meets a parameter. -/
theorem not_blames_wired {α : Type} {w : Wired α} (h : d.WellScoped) (blames : w.Blames d.shape)
    {e : WireError} (failed : w = .error e) : ¬e.BlamesParameter := by
  rintro ⟨c, name, cause⟩
  exact h.filled (blames e failed c _ cause) trivial

/-- The generator never meets a parameter. -/
theorem not_blames_exported {direction : Direction} {source target : Client.Place}
    {r next : Resolver} {e : ExportError} (h : d.WellScoped)
    (failed : Fails (Resolver.code direction d source target) r e next) :
    ¬e.BlamesParameter := by
  rintro ⟨c, name, parameter⟩
  have refused := blames_convert d.shape r.counter e next.counter (fails_generating failed)
  obtain ⟨q, part, lacks⟩ := refused.exists_lacksArgument parameter
  exact h.filled part lacks

/-- **No conversion of a well scoped type fails because of a parameter**, whatever the value and
wherever it stands: what fails has another cause. -/
theorem no_parameter_blamed (h : d.WellScoped) :
    (∀ v e, d.encode v = .error e → ¬e.BlamesParameter) ∧
    (∀ j e, d.decode j = .error e → ¬e.BlamesParameter) ∧
    ∀ direction source target r e next,
      Fails (Resolver.code direction d source target) r e next → ¬e.BlamesParameter :=
  ⟨fun v _ failed => h.not_blames_wired (Wire.blames_encode d.shape v) failed,
    fun j _ failed => h.not_blames_wired (Wire.blames_decode d.shape j) failed,
    fun _ _ _ _ _ _ failed => h.not_blames_exported failed⟩

/-- A pair whose second part is a list of tags of whatever it is applied to.  Applied to a date and
to what nothing represents it is refused, by a service as by the generator, but not for its
parameters. -/
theorem no_parameter_blamed_pair :
    ∃ d failed refused next,
      d = Descriptor.application
        (.template "Pair" ["T", "U"] [("first", .param "T"),
          ("second", .list (.application (.template "Tag" ["T"] [("of", .param "T")])
            [.param "U"]))]) [.temporal .date, .foreign "complex"] ∧
      d.decode (.object [("first", .string "2024-02-29"),
        ("second", .array [.object [("of", .null)]])]) = .error failed ∧
      ¬failed.BlamesParameter ∧
      Fails (Resolver.code .back d Caller.data Caller.data) .empty refused next ∧
      ¬refused.BlamesParameter := by
  obtain ⟨d, hd⟩ : ∃ d, d = Descriptor.application
      (.template "Pair" ["T", "U"] [("first", .param "T"),
        ("second", .list (.application (.template "Tag" ["T"] [("of", .param "T")])
          [.param "U"]))]) [.temporal .date, .foreign "complex"] := ⟨_, rfl⟩
  have closed : d.WellScoped := by
    rw [hd]
    refine .template ?_ ?_
    · simp only [List.forall_mem_cons, List.not_mem_nil, false_implies, implies_true, and_true]
      refine ⟨.param (by simp), .list (.template ?_ ?_)⟩
      · exact List.forall_mem_singleton.2 (.param (by simp))
      · exact List.forall_mem_singleton.2 (.param (by simp))
    · exact List.forall_mem_cons.2 ⟨.temporal _, List.forall_mem_singleton.2 (.foreign _)⟩
  obtain ⟨-, decoded, generated⟩ := no_parameter_blamed closed
  obtain ⟨failed, met⟩ : ∃ failed, d.decode (.object [("first", .string "2024-02-29"),
      ("second", .array [.object [("of", .null)]])]) = .error failed := by
    rw [hd]
    exact ⟨_, rfl⟩
  obtain ⟨refused, next, blocked⟩ : ∃ refused next,
      Fails (Resolver.code .back d Caller.data Caller.data) .empty refused next := by
    rw [hd]
    exact ⟨_, _, rfl⟩
  exact ⟨d, failed, refused, next, hd, met, decoded _ _ met, blocked, generated _ _ _ _ _ _ blocked⟩

end Descriptor.WellScoped

end RpcBridge
