import RpcBridge.Proofs.Client.Parameters
import RpcBridge.Proofs.Client.Refused
import RpcBridge.Proofs.Client.Supported

/-!
# Proofs/Client/Unbound — parameters that nothing binds

The type expressions of a procedure are written before its conversions, and with every parameter as
it stands.  What refuses a parameter that nothing binds are the conversions: they follow the shape
of a type, where such a parameter has become an obstacle.  But the shape of an application does not
keep the arguments that no field reads.  So a client is refused for a parameter that is mentioned
live, and one that is mentioned idly slips through.

* `not_supported_of_mentions` — a live mention blocks the shape;
* `Client.bound_iff` — a client whose parameters are all bound;
* `params_of_exportClient` — live mentions are refused, idle ones are not.
-/

namespace RpcBridge

open Client

/-! ## Scopes -/

namespace Scope

variable {scope : Scope} {n : String}

/-- Of two bindings the later one counts. -/
theorem find?_cons (b : Binding) :
    find? (b :: scope) n = (find? scope n).or (if b.param = n then some b.shape else none) := by
  rw [find?, List.reverse_cons, List.find?_append, find?]
  cases scope.reverse.find? (·.param = n) with
  | some c => rfl
  | none =>
    by_cases same : b.param = n <;> simp [same]

theorem find?_eq_none (h : ∀ b ∈ scope, b.param ≠ n) : find? scope n = none := by
  rw [find?, Option.map_eq_none_iff, List.find?_eq_none]
  exact fun b hb => by simpa using h b (List.mem_reverse.1 hb)

/-- A parameter is bound to the argument of its last occurrence. -/
theorem find?_ofArguments {params : List String} {ds : List Descriptor} {shapes : List Shape}
    {k : Nat} {p : String} {s : Shape} (same : ds.length = shapes.length)
    (bound : params[k]? = some p) (last : p ∉ params.drop (k + 1)) (given : shapes[k]? = some s) :
    find? (ofArguments params ds shapes) p = some s := by
  induction params generalizing k ds shapes with
  | nil => cases bound
  | cons q params ih =>
    rcases shapes with _ | ⟨t, shapes⟩
    · cases given
    rcases ds with _ | ⟨d, ds⟩
    · cases same
    rw [ofArguments, find?_cons]
    cases k with
    | zero =>
      cases bound
      cases given
      have later : find? (ofArguments params ds shapes) p = none :=
        find?_eq_none fun b hb there => last (there ▸ (Descriptor.mem_ofArguments hb).1)
      rw [later, if_pos rfl]
      rfl
    | succ k =>
      rw [ih (Nat.succ.inj same) bound last given]
      rfl

theorem Sound.nil : Sound [] := fun _ h => nomatch h

/-- The scope of a template's fields is sound if that of its arguments is. -/
theorem Sound.ofArguments (sound : scope.Sound) (params : List String) (args : List Descriptor) :
    (Scope.ofArguments params (Descriptor.substituteAll scope.bindings args)
      (Descriptor.shapesIn scope args)).Sound := by
  rw [Descriptor.shapesIn_eq sound]
  exact sound_ofArguments params _

end Scope

/-! ## What blocks a shape -/

namespace Descriptor

section Blocked

variable {c d : Descriptor} {scope : Scope} {n : String} {name : String} {params : List String}
  {fields : List Field} {args : List Descriptor}

theorem mem_substituteAll {bindings : Bindings} {ds : List Descriptor} (hd : d ∈ ds) :
    d.substitute bindings ∈ substituteAll bindings ds := by
  rw [substituteAll_eq_map]
  exact List.mem_map_of_mem hd

theorem shape_of_isNone (h : d.isNone = true) : d.shape = .scalar .none := by
  unfold isNone at h
  split at h
  · rfl
  · cases h

theorem eq_or_isNone_of_optionalMember {members : List Descriptor} {inner : Descriptor}
    (h : optionalMember members = .ok inner) (hd : d ∈ members) : d = inner ∨ d.isNone = true := by
  unfold optionalMember at h
  split at h
  · next a b =>
    rw [List.mem_pair] at hd
    split at h
    · next first =>
      cases h
      rw [Bool.and_eq_true] at first
      exact hd.imp_right fun (same : d = b) => same ▸ first.1
    · split at h
      · next second =>
        cases h
        rw [Bool.and_eq_true] at second
        exact hd.symm.imp_right fun (same : d = a) => same ▸ second.1
      · cases h
  · cases h

/-- The parts of a container are supported if it is. -/
theorem supported_component (sound : scope.Sound) (hd : d ∈ c.components)
    (h : (c.shapeIn scope).Supported) : (d.shapeIn scope).Supported := by
  cases c with
  | list inner =>
    obtain rfl := List.mem_singleton.1 hd
    rw [shapeIn] at h
    cases h with
    | list inner => exact inner
  | optional inner =>
    obtain rfl := List.mem_singleton.1 hd
    rw [shapeIn] at h
    cases h with
    | optional present => exact present
  | mapping key value =>
    rw [shapeIn] at h
    cases h with
    | mapping keys values =>
      rcases List.mem_pair.1 hd with rfl | rfl
      · exact keys
      · exact values
  | tuple items =>
    rw [shapeIn] at h
    cases h with
    | tuple inner => exact inner _ (mem_shapesIn hd)
  | variadic items =>
    match items with
    | [item] =>
      obtain rfl := List.mem_singleton.1 hd
      rw [shapeIn] at h
      cases h with
      | list inner => exact inner
    | [] | _ :: _ :: _ =>
      rw [shapeIn] at h
      cases h
  | union members =>
    -- which member is absent is known only after the parameters have been replaced
    rw [shapeIn_eq sound, substitute] at h
    rw [shapeIn_eq sound]
    cases optional : optionalMember (substituteAll scope.bindings members) with
    | error e =>
      rw [shape_union_error optional] at h
      cases h
    | ok inner =>
      rw [shape_union optional] at h
      cases h with
      | optional present =>
        rcases eq_or_isNone_of_optionalMember optional (mem_substituteAll hd) with same | absent
        · exact same ▸ present
        · exact shape_of_isNone absent ▸ .scalar .none
  | _ => cases hd

/-- The fields of an application are supported if it is. -/
theorem supported_origin
    (h : ((application (template name params fields) args).shapeIn scope).Supported) :
    ∀ f ∈ fields, (f.2.shapeIn (.ofArguments params (substituteAll scope.bindings args)
      (shapesIn scope args))).Supported := by
  rw [shapeIn] at h
  split at h
  · cases h with
    | record inner => exact fun f hf => inner _ (mem_fieldShapes hf)
  · cases h

/-- A record is supported if it is supported when applied to nothing. -/
theorem supported_plain {transparent : Bool}
    (h : ((application (record name fields transparent) args).shapeIn scope).Supported) :
    ((record name fields transparent).shapeIn scope).Supported := by
  rw [shapeIn] at h
  rw [shapeIn]
  split at h
  · cases transparent with
    | false => exact h
    | true =>
      simp only [if_pos] at h
      unfold Shape.ofRecord
      generalize fieldShapes [] fields = shapes at h ⊢
      cases h with
      | opened wrapped => exact .wrapper wrapped
  · cases h

/-- In its template's fields, a parameter is bound to the shape of its argument. -/
theorem find?_argument {k : Nat} {p : String} (bound : params[k]? = some p)
    (last : p ∉ params.drop (k + 1)) (given : args[k]? = some d) :
    Scope.find? (.ofArguments params (substituteAll scope.bindings args) (shapesIn scope args)) p =
      some (d.shapeIn scope) := by
  refine Scope.find?_ofArguments (by simp) bound last ?_
  rw [shapesIn_eq_map, List.getElem?_map, given]
  rfl

/-- What a supported shape depends on is supported. -/
theorem supported_of_reads (reads : d.Reads n) (sound : scope.Sound)
    (h : (d.shapeIn scope).Supported) : ∃ s, scope.find? n = some s ∧ s.Supported := by
  induction reads generalizing scope with
  | param name =>
    rw [shapeIn] at h
    cases bound : scope.find? name with
    | none =>
      rw [bound] at h
      cases h
    | some s =>
      rw [bound] at h
      exact ⟨s, rfl, h⟩
  | component hd _ ih => exact ih sound (supported_component sound hd h)
  | argument bound last hf _ given _ ihRead ih =>
    obtain ⟨s, found, supported⟩ := ihRead (sound.ofArguments _ _) (supported_origin h _ hf)
    rw [find?_argument bound last given] at found
    cases found
    exact ih sound supported

/-- The arguments that some field reads are supported if the application is. -/
theorem supported_argument {k : Nat} (sound : scope.Sound) (given : args[k]? = some d)
    (read : ReadsArgument params fields k)
    (h : ((application (template name params fields) args).shapeIn scope).Supported) :
    (d.shapeIn scope).Supported := by
  obtain ⟨p, f, bound, last, hf, reads⟩ := read
  obtain ⟨s, found, supported⟩ :=
    supported_of_reads reads (sound.ofArguments _ _) (supported_origin h f hf)
  rw [find?_argument bound last given] at found
  cases found
  exact supported

/-- **A live mention of a parameter that nothing binds blocks the shape.** -/
theorem not_supported_of_mentions {names : List String} {use : Use}
    (mention : d.Mentions names n use) (live : use = .live) (sound : scope.Sound)
    (declared : ∀ b ∈ scope, b.param ∈ names) : ¬(d.shapeIn scope).Supported := by
  induction mention generalizing scope with
  | @param names n unbound =>
    have free : scope.find? n = none :=
      Scope.find?_eq_none fun b hb same => unbound (same ▸ declared b hb)
    rw [shapeIn, free]
    exact nofun
  | component hd _ ih =>
    exact fun h => ih live sound declared (supported_component sound hd h)
  | record hf _ ih =>
    intro h
    rw [shapeIn] at h
    cases h with
    | record inner => exact ih live .nil (List.forall_mem_nil _) (inner _ (mem_fieldShapes hf))
  | @wrapper name fields _ _ _ _ hf _ ih =>
    intro h
    match fields with
    | [field] =>
      obtain rfl := List.mem_singleton.1 hf
      rw [shapeIn] at h
      cases h with
      | wrapper wrapped => exact ih live .nil (List.forall_mem_nil _) wrapped
    | [] | _ :: _ :: _ => cases h
  | bare | body =>
    intro h
    rw [shapeIn] at h
    cases h
  | origin hf _ ih =>
    exact fun h => ih live (sound.ofArguments _ _) (fun _ hb => (mem_ofArguments hb).1)
      (supported_origin h _ hf)
  | plain _ ih => exact fun h => ih live sound declared (supported_plain h)
  | read given read _ ih =>
    exact fun h => ih live sound declared (supported_argument sound given read h)
  | unread => cases live

end Blocked

end Descriptor

/-! ## Clients -/

/-- A parameter that the input or the output of a procedure mentions where nothing binds it. -/
def Procedure.Mentions (p : Procedure) (n : String) (use : Descriptor.Use) : Prop :=
  p.input.Mentions [] n use ∨ p.output.Mentions [] n use

namespace Client

/-- A client in which every parameter is bound: the functions mention none, and an interface, of
whatever definition it is the text, mentions those only that it declares. -/
structure Artifact.Bound (procedures : List Procedure) (a : Artifact) : Prop where
  signatures : ∀ c ∈ a.callers, c.input.params = [] ∧ c.output.params = []
  interfaces : ∀ E ∈ a.interfaces, ∀ (d : Descriptor) (m : Definition),
    d.DefinesAmong procedures m → m.declaration = E →
      ∀ f ∈ Descriptor.fieldTypes d.fields, f.2.params ⊆ m.params?.getD []

section Exported

variable {options : ExportOptions} {procedures : List Procedure} {p : Procedure} {a : Artifact}
  {n : String}

/-- A shape that is blocked cannot be converted. -/
theorem not_convertible_of_mentions {d : Descriptor} (mention : d.Mentions [] n .live) :
    ¬Convertible d.shape := fun ⟨_, _, _, _, _, _, converted⟩ =>
  Descriptor.not_supported_of_mentions mention rfl .nil (List.forall_mem_nil _)
    (supported_of_convert converted)

/-- The types in the signatures are those of the procedures. -/
theorem signatures_iff (h : exportClient options procedures = .ok a) :
    (∀ c ∈ a.callers, c.input.params = [] ∧ c.output.params = []) ↔
      ∀ p ∈ procedures, p.input.typeExpr.params = [] ∧ p.output.typeExpr.params = [] := by
  obtain ⟨callers, last, exported, rfl⟩ := exportClient_eq_ok.1 h
  have headers := headers_of_exportProcedures exported
  have closed (t : String × TypeExpr × TypeExpr → Prop) :
      (∀ c ∈ callers, t c.header) ↔ ∀ p ∈ procedures, t (headerOf p) := by
    rw [← List.forall_mem_map, headers, List.forall_mem_map]
  exact closed fun header => header.2.1.params = [] ∧ header.2.2.params = []

/-- The interfaces are those of the parts of the procedures. -/
theorem interfaces_iff (h : exportClient options procedures = .ok a) :
    (∀ E ∈ a.interfaces, ∀ (d : Descriptor) (m : Definition), d.DefinesAmong procedures m →
      m.declaration = E → ∀ f ∈ Descriptor.fieldTypes d.fields, f.2.params ⊆ m.params?.getD []) ↔
    ∀ (d : Descriptor) (n : String), d.OccursAmong procedures → ¬d.Leaks n := by
  constructor
  · rintro bound d n occurs ⟨m, defines, undeclared, f, hf, mentioned⟩
    have listed : d.fields ≠ [] := by
      intro empty
      rw [empty] at hf
      cases hf
    have declared : m.declaration ∈ a.interfaces := (mem_interfaces h).2
      ⟨d, m, ⟨occurs, defines⟩, keyword_of_fields defines listed, rfl⟩
    exact undeclared (bound _ declared d m ⟨occurs, defines⟩ rfl f hf mentioned)
  · intro sealed E _ d m defines _ f hf n mentioned
    by_contra undeclared
    exact sealed d n defines.1 ⟨m, defines.2, undeclared, f, hf, mentioned⟩

/-- **Every parameter in a client is bound** exactly if its procedures mention no other. -/
theorem bound_iff (h : exportClient options procedures = .ok a) :
    a.Bound procedures ↔ ∀ p ∈ procedures, ∀ n use, ¬p.Mentions n use := by
  have alone := (exists_exportClient.1 ⟨a, h⟩).alone
  have each : (∀ p ∈ procedures, ∀ n use, ¬p.Mentions n use) ↔ ∀ p ∈ procedures,
      (p.input.typeExpr.params = [] ∧
        ∀ (q : Descriptor) (n : String), q.OccursIn p.input → ¬q.Leaks n) ∧
      (p.output.typeExpr.params = [] ∧
        ∀ (q : Descriptor) (n : String), q.OccursIn p.output → ¬q.Leaks n) := by
    refine forall₂_congr fun p hp => ?_
    rw [Descriptor.bound_iff (alone p hp).input, Descriptor.bound_iff (alone p hp).output]
    simp only [Procedure.Mentions, not_or, forall_and]
  rw [each]
  constructor
  · rintro ⟨signatures, interfaces⟩ p hp
    obtain ⟨input, output⟩ := (signatures_iff h).1 signatures p hp
    have sealed := (interfaces_iff h).1 interfaces
    exact ⟨⟨input, fun q n occurs => sealed q n ⟨p, hp, .inl occurs⟩⟩,
      output, fun q n occurs => sealed q n ⟨p, hp, .inr occurs⟩⟩
  · intro closed
    refine ⟨(signatures_iff h).2 fun p hp => ⟨(closed p hp).1.1, (closed p hp).2.1⟩,
      (interfaces_iff h).2 ?_⟩
    rintro d n ⟨p, hp, occurs | occurs⟩
    · exact (closed p hp).1.2 d n occurs
    · exact (closed p hp).2.2 d n occurs

/-- **When every parameter in a client is bound**: it never mentions one live that is not, and all
are bound exactly if it mentions none idly either.  A further procedure that mentions one live is
refused for an unsupported type. -/
theorem params_of_exportClient (h : exportClient options procedures = .ok a) :
    (∀ p ∈ procedures, ∀ n, ¬p.Mentions n .live) ∧
    (a.Bound procedures ↔ ∀ p ∈ procedures, ∀ n, ¬p.Mentions n .idle) ∧
    ∀ p n rest, Resolves p a.declarations → p.name ∉ procedures.map (·.name) →
      p.Mentions n .live → ∃ e, exportClient options (procedures ++ p :: rest) = .error e ∧
        e.descriptor?.isSome = true := by
  have blocked {p : Procedure} {n : String} (mention : p.Mentions n .live) :
      ¬(Convertible p.input.shape ∧ Convertible p.output.shape) := fun converted =>
    mention.elim (fun live => not_convertible_of_mentions live converted.1)
      fun live => not_convertible_of_mentions live converted.2
  have sound : ∀ p ∈ procedures, ∀ n, ¬p.Mentions n .live := by
    intro p hp n mention
    have alone := (exists_exportClient.1 ⟨a, h⟩).alone p hp
    exact blocked mention ⟨alone.prepared, alone.restored⟩
  refine ⟨sound, ?_, fun p n rest resolves new mention =>
    refused_of_not_convertible h resolves new (blocked mention)⟩
  rw [bound_iff h]
  refine ⟨fun none p hp n => none p hp n .idle, fun idle p hp n use => ?_⟩
  cases use with
  | live => exact sound p hp n
  | idle => exact idle p hp n

/-- A client for a procedure that gives back a page of dates; a procedure whose input is a page of
something that nothing binds is refused behind it. -/
theorem params_of_exportClient_page :
    ∃ page find save a e,
      page = (fun d => Descriptor.application
        (.template "Page" ["T"] [("items", .list (.param "T"))]) [d]) ∧
      find = Procedure.mk "Find" (.scalar .int) (page (.temporal .date)) ∧
      save = Procedure.mk "Save" (page (.param "U")) (.scalar .bool) ∧
      exportClient ⟨none, none⟩ [find] = .ok a ∧ a.Bound [find] ∧
      exportClient ⟨none, none⟩ [find, save] = .error e ∧ e.descriptor?.isSome = true := by
  obtain ⟨page, hpage⟩ : ∃ page, page = fun d => Descriptor.application
      (.template "Page" ["T"] [("items", .list (.param "T"))]) [d] := ⟨_, rfl⟩
  obtain ⟨find, hfind⟩ : ∃ p, p = Procedure.mk "Find" (.scalar .int) (page (.temporal .date)) :=
    ⟨_, rfl⟩
  obtain ⟨save, hsave⟩ : ∃ p, p = Procedure.mk "Save" (page (.param "U")) (.scalar .bool) :=
    ⟨_, rfl⟩
  obtain ⟨callers, exported⟩ : ∃ callers, exportClient ⟨none, none⟩ [find] =
      .ok ⟨prelude, none, ⟨⟨[]⟩, ⟨[("Page<T>", "\x7bitems: Array<T>\x7d")]⟩⟩, callers⟩ := by
    rw [hfind, hpage]
    exact ⟨_, rfl⟩
  obtain ⟨-, bound, refused⟩ := params_of_exportClient exported
  have reads : Descriptor.ReadsArgument ["T"] [("items", .list (.param "T"))] 0 :=
    ⟨"T", _, rfl, List.not_mem_nil, List.mem_singleton_self _,
      .component (List.mem_singleton_self _) (.param "T")⟩
  have quiet : ∀ p ∈ [find], ∀ n, ¬p.Mentions n .idle := by
    intro p hp n mention
    obtain rfl := List.mem_singleton.1 hp
    rw [hfind, hpage] at mention
    have date {use : Descriptor.Use} : ¬(Descriptor.temporal .date).Mentions [] n use := by
      rintro (_ | ⟨hd, -⟩)
      cases hd
    rcases mention with (_ | ⟨hd, -⟩) | mention
    · cases hd
    · cases mention with
      | component hd => cases hd
      | origin hf inner =>
        obtain rfl := List.mem_singleton.1 hf
        cases inner with
        | component hd inner =>
          obtain rfl := List.mem_singleton.1 hd
          cases inner with
          | component hd => cases hd
      | read given _ inner | unread given _ inner =>
        obtain rfl := List.mem_singleton.1 (List.mem_of_getElem? given)
        exact date inner
  have resolves : Resolves save ⟨⟨[]⟩, ⟨[("Page<T>", "\x7bitems: Array<T>\x7d")]⟩⟩ := by
    rw [hsave, hpage]
    exact ⟨rfl, _, _, _, _, rfl, rfl⟩
  have live : save.Mentions "U" .live := by
    rw [hsave, hpage]
    exact .inl (.read rfl reads (.param List.not_mem_nil))
  have new : save.name ∉ [find].map (·.name) := by
    rw [hsave, hfind]
    simp
  obtain ⟨e, failed, unsupported⟩ := refused save "U" [] resolves new live
  exact ⟨page, find, save, _, e, hpage, hfind, hsave, exported, bound.2 quiet, failed, unsupported⟩

/-- No field of a tag reads its argument, so a tag of something that nothing binds slips through. -/
example : (exportClient ⟨none, none⟩ [⟨"Get", .scalar .none,
    .application (.template "Tag" ["T"] [("n", .scalar .int)]) [.param "U"]⟩]).map
      (fun a => a.stubs.map (·.signature)) =
    .ok ["export function callGet(params: undefined): AbortableRequest<Tag<U>>"] := rfl

end Exported

end Client

end RpcBridge
