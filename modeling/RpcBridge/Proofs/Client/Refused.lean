import RpcBridge.Proofs.Client.Blame
import RpcBridge.Proofs.Client.Order
import RpcBridge.Proofs.Descriptor.Opening

/-!
# Proofs/Client/Refused — why a procedure is refused

Names are checked while types are resolved, before any conversion is generated.  All that can go
wrong with a conversion afterwards is that nothing can be generated for a type.  So a procedure
whose types resolve is either exported or refused for an unsupported type.

* `Renderable.checked` — the fields of all shapes that are made of a resolved type have been checked;
* `unsupported_of_convert` — what keeps a conversion of a checked shape from being generated;
* `refused_of_not_convertible` — the error of the whole export.
-/

namespace RpcBridge

open Client

/-! ## What an error is about -/

/-- A shape whose records have fields that can be named. -/
inductive Shape.Checked : Shape → Prop where
  | scalar (kind : ScalarKind) : Checked (.scalar kind)
  | temporal (kind : TemporalKind) : Checked (.temporal kind)
  | enum (e : EnumDef) : Checked (.enum e)
  | list {element : Shape} (inner : element.Checked) : Checked (.list element)
  | tuple {items : List Shape} (inner : ∀ s ∈ items, s.Checked) : Checked (.tuple items)
  | mapping {key value : Shape} (keys : key.Checked) (values : value.Checked) :
    Checked (.mapping key value)
  | optional {inner : Shape} (present : inner.Checked) : Checked (.optional inner)
  | record {name : String} {fields : List (String × Shape)}
    (named : ∀ f ∈ fields, isIdentifier f.1 = true) (inner : ∀ f ∈ fields, f.2.Checked) :
    Checked (.record name fields)
  | wrapper {name field : String} {inner : Shape} (wrapped : inner.Checked) :
    Checked (.wrapper name field inner)
  | opened {origin : Descriptor} {name : String} {fields : List (String × Shape)}
    (inner : ∀ f ∈ fields, f.2.Checked) : Checked (.opened origin name fields)
  | bareTemplate (origin : Descriptor) (name : String) (fields : List (String × Shape)) :
    Checked (.bareTemplate origin name fields)
  | blocked (d : Descriptor) (obstacle : Obstacle) : Checked (.blocked d obstacle)

/-- The shapes in a scope are checked. -/
def Scope.Checked (scope : Scope) : Prop := ∀ b ∈ scope, b.shape.Checked

theorem Scope.Checked.nil : Scope.Checked [] := List.forall_mem_nil _

namespace Descriptor

section Checked

variable {scope : Scope}

theorem checked_shapesIn {ds : List Descriptor} (each : ∀ d ∈ ds, (d.shapeIn scope).Checked) :
    ∀ s ∈ shapesIn scope ds, s.Checked := by
  rw [shapesIn_eq_map]
  exact List.forall_mem_map.2 each

theorem checked_fieldShapes {fields : List Field}
    (each : ∀ f ∈ fields, (f.2.shapeIn scope).Checked) :
    ∀ f ∈ fieldShapes scope fields, f.2.Checked := by
  rw [fieldShapes_eq_map]
  exact List.forall_mem_map.2 each

theorem named_fieldShapes {fields : List Field} (listed : ∀ f ∈ fields, isIdentifier f.1 = true) :
    ∀ f ∈ fieldShapes scope fields, isIdentifier f.1 = true := by
  rw [fieldShapes_eq_map]
  exact List.forall_mem_map.2 listed

theorem checked_ofVariadic {items : List Descriptor} {shapes : List Shape}
    (inner : ∀ s ∈ shapes, s.Checked) : (Shape.ofVariadic items shapes).Checked := by
  unfold Shape.ofVariadic
  split
  · exact .list (inner _ (List.mem_singleton_self _))
  · exact .blocked _ _

theorem checked_ofUnion {members : List Descriptor} {shapes : List Shape}
    (inner : ∀ s ∈ shapes, s.Checked) : (Shape.ofUnion members shapes).Checked := by
  unfold Shape.ofUnion
  split
  · split
    · exact .optional (inner _ (List.mem_cons_self ..))
    · split
      · exact .optional (inner _ (List.mem_cons_of_mem _ (List.mem_singleton_self _)))
      · exact .blocked _ _
  · exact .blocked _ _

/-- What can be rendered has fields that can be named, and so has all that is made of it. -/
theorem Renderable.checked {d : Descriptor} (h : d.Renderable) :
    (∀ {scope : Scope}, scope.Checked → (d.shapeIn scope).Checked) ∧
      -- the fields of a template are met in the scope of an application's arguments
      ∀ f ∈ d.fields, ∀ {scope : Scope}, scope.Checked → (f.2.shapeIn scope).Checked := by
  induction h with
  | scalar => exact ⟨fun _ => .scalar _, List.forall_mem_nil _⟩
  | temporal => exact ⟨fun _ => .temporal _, List.forall_mem_nil _⟩
  | enum => exact ⟨fun _ => .enum _, List.forall_mem_nil _⟩
  | @param name =>
    refine ⟨fun {scope} hscope => ?_, List.forall_mem_nil _⟩
    rw [shapeIn]
    cases bound : scope.find? name with
    | none => exact .blocked _ _
    | some s =>
      obtain ⟨b, hb, rfl⟩ := mem_of_find? bound
      exact hscope b hb
  | list _ ih =>
    refine ⟨fun hscope => ?_, List.forall_mem_nil _⟩
    rw [shapeIn]
    exact .list (ih.1 hscope)
  | variadic _ ih =>
    refine ⟨fun hscope => ?_, List.forall_mem_nil _⟩
    rw [shapeIn]
    exact checked_ofVariadic (checked_shapesIn (List.forall_mem_singleton.2 (ih.1 hscope)))
  | tuple _ ih =>
    refine ⟨fun hscope => ?_, List.forall_mem_nil _⟩
    rw [shapeIn]
    exact .tuple (checked_shapesIn fun d hd => (ih d hd).1 hscope)
  | mapping _ _ ihKey ihValue =>
    refine ⟨fun hscope => ?_, List.forall_mem_nil _⟩
    rw [shapeIn]
    exact .mapping (ihKey.1 hscope) (ihValue.1 hscope)
  | optional _ ih =>
    refine ⟨fun hscope => ?_, List.forall_mem_nil _⟩
    rw [shapeIn]
    exact .optional (ih.1 hscope)
  | union _ _ ih =>
    refine ⟨fun hscope => ?_, List.forall_mem_nil _⟩
    rw [shapeIn]
    exact checked_ofUnion (checked_shapesIn fun d hd => (ih d hd).1 hscope)
  | wrapper _ ih =>
    refine ⟨fun _ => ?_, List.forall_mem_singleton.2 ih.1⟩
    rw [shapeIn]
    exact .wrapper (ih.1 .nil)
  | record _ listed _ ih =>
    refine ⟨fun _ => ?_, fun f hf => (ih f hf).1⟩
    rw [shapeIn]
    exact .record (named_fieldShapes listed) (checked_fieldShapes fun f hf => (ih f hf).1 .nil)
  | template _ _ _ _ ih =>
    refine ⟨fun _ => ?_, fun f hf => (ih f hf).1⟩
    rw [shapeIn]
    exact .bareTemplate _ _ _
  | application count origin _ ihOrigin ih =>
    refine ⟨fun {scope} hscope => ?_, List.forall_mem_nil _⟩
    obtain ⟨-, -, listed, -⟩ := Renderable.template_iff.1 origin
    rw [shapeIn, if_pos count]
    refine .record (named_fieldShapes listed) (checked_fieldShapes fun f hf => ?_)
    refine ihOrigin.2 f hf fun b hb => ?_
    exact checked_shapesIn (fun d hd => (ih d hd).1 hscope) _ (mem_ofArguments hb).2
  | @plain name fields transparent origin ih =>
    refine ⟨fun _ => ?_, List.forall_mem_nil _⟩
    have inner := checked_fieldShapes fun f hf => ih.2 f hf .nil
    rw [shapeIn, if_pos List.isEmpty_nil]
    cases transparent with
    | true => exact .opened inner
    | false => exact .record (named_fieldShapes (Renderable.record_iff.1 origin).2.1) inner

end Checked

end Descriptor

/-- What a checked shape gives rise to is never the name of a field. -/
theorem Shape.Checked.unsupported {s : Shape} {e : ExportError} (checked : s.Checked)
    (refuses : s.Refuses e) : ∃ d reason, e = .unsupported d reason := by
  induction refuses with
  | blocked | bareTemplate | opening => exact ⟨_, _, rfl⟩
  | named hf unusable =>
    cases checked with
    | record named _ =>
      rw [named _ hf] at unusable
      cases unusable
  | list _ ih =>
    cases checked with
    | list inner => exact ih inner
  | tuple hs _ ih =>
    cases checked with
    | tuple inner => exact ih (inner _ hs)
  | key _ ih =>
    cases checked with
    | mapping keys _ => exact ih keys
  | value _ ih =>
    cases checked with
    | mapping _ values => exact ih values
  | optional _ ih =>
    cases checked with
    | optional present => exact ih present
  | record hf _ ih =>
    cases checked with
    | record _ inner => exact ih (inner _ hf)
  | wrapper _ ih =>
    cases checked with
    | wrapper wrapped => exact ih wrapped
  | opened hf _ ih =>
    cases checked with
    | opened inner => exact ih (inner _ hf)

namespace Client

/-- **What keeps a conversion from being generated is an unsupported type**, once all names have
been checked. -/
theorem unsupported_of_convert {direction : Direction} {source target : Place} {s : Shape}
    {n m : Nat} {e : ExportError} (checked : s.Checked)
    (failed : Fails (convert direction s source target) n e m) : e.descriptor?.isSome = true := by
  obtain ⟨d, reason, root⟩ := checked.unsupported (blames_convert s n e m failed)
  rw [ExportError.descriptor?, root]
  rfl

/-! ## Procedures -/

/-- A procedure with a name that can be used, whose types resolve. -/
structure Resolves (p : Procedure) (s : Declarations) : Prop where
  named : isIdentifier p.name = true
  types : ∃ input between output after, Yields (resolveType p.input) s input between ∧
    Yields (resolveType p.output) between output after

section Exported

variable {options : ExportOptions} {p : Procedure} {procedures front rest : List Procedure}
  {seen : List String} {r last after : Resolver} {callers : List Caller} {e : ExportError}
  {a : Artifact}

/-- A procedure whose types resolve is refused, if at all, because of an unsupported type. -/
theorem unsupported_of_fails (resolves : Resolves p r.declarations)
    (h : Fails (exportProcedure p) r e after) : e.descriptor?.isSome = true := by
  obtain ⟨named, input, between, output, resolved, first, second⟩ := resolves
  have checked : Yields (Resolver.declaring (Declaring.lift (checkIdentifier p.name))) r () r :=
    yields_declaring_iff.2 ⟨Declaring.yields_check.2 ⟨named, rfl⟩, rfl⟩
  have typed : Yields (Resolver.type p.input) r input ⟨between, r.counter⟩ :=
    yields_declaring_iff.2 ⟨first, rfl⟩
  have typed' : Yields (Resolver.type p.output) ⟨between, r.counter⟩ output ⟨resolved, r.counter⟩ :=
    yields_declaring_iff.2 ⟨second, rfl⟩
  rw [exportProcedure, checked.fails_bind, typed.fails_bind, typed'.fails_bind] at h
  have renderable := ((resolveType_iff _ _ _ _).1 first).1
  have renderable' := ((resolveType_iff _ _ _ _).1 second).1
  rcases fails_bind.1 h with failed | ⟨_, _, -, h⟩
  · exact unsupported_of_convert (renderable.checked.1 .nil) (fails_generating failed)
  rcases fails_bind.1 h with failed | ⟨_, _, -, h⟩
  · exact unsupported_of_convert (renderable'.checked.1 .nil) (fails_generating failed)
  · exact (not_fails_pure h).elim

/-- The export of a list fails with the first of its procedures that does. -/
theorem exportProcedures_eq_error (h : exportProcedures seen r front = .ok (callers, last))
    (unseen : p.name ∉ seen) (apart : p.name ∉ front.map (·.name))
    (failed : Fails (exportProcedure p) last e after) :
    exportProcedures seen r (front ++ p :: rest) = .error (.inProcedure p.name e) := by
  induction front generalizing seen r callers with
  | nil =>
    obtain ⟨-, rfl⟩ := exportProcedures_nil.1 h
    rw [List.nil_append, exportProcedures, if_neg (mt List.contains_iff_mem.1 unseen), failed]
  | cons q front ih =>
    obtain ⟨new, caller, next, others, exported, exportedRest, -⟩ := exportProcedures_cons.1 h
    rw [List.map_cons, List.mem_cons, not_or] at apart
    have unseen' : p.name ∉ q.name :: seen := fun there =>
      (List.mem_cons.1 there).elim apart.1 unseen
    rw [List.cons_append, exportProcedures, if_neg (mt List.contains_iff_mem.1 new), exported]
    dsimp only
    rw [ih exportedRest unseen' apart.2]
    rfl

/-- **A procedure that resolves but cannot be converted is refused for an unsupported type**,
behind any procedures that are exported, and whatever follows. -/
theorem refused_of_not_convertible (h : exportClient options procedures = .ok a)
    (resolves : Resolves p a.declarations) (new : p.name ∉ procedures.map (·.name))
    (blocked : ¬(Convertible p.input.shape ∧ Convertible p.output.shape)) :
    ∃ e, exportClient options (procedures ++ p :: rest) = .error e ∧
      e.descriptor?.isSome = true := by
  obtain ⟨callers, last, exported, rfl⟩ := exportClient_eq_ok.1 h
  rcases yields_or_fails (exportProcedure p) last with ⟨caller, next, yields⟩ | ⟨e, after, failed⟩
  · obtain ⟨alone, -⟩ := exists_exportProcedure.1 ⟨caller, next, yields, rfl⟩
    exact absurd ⟨alone.prepared, alone.restored⟩ blocked
  · have unsupported := unsupported_of_fails resolves failed
    refine ⟨.inProcedure p.name e, ?_, unsupported⟩
    rw [exportClient, exportProcedures_eq_error exported List.not_mem_nil new failed]
    rfl

end Exported

end Client

end RpcBridge
