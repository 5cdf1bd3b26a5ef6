import RpcBridge.Proofs.Client.Exporting

/-!
# Proofs/Client/History — what a resolver remembers

A resolver remembers what it has declared, and nothing that it remembers is ever taken back: a call
adds declarations behind those that are there, also a call that fails half-way
(`Resolver.extends_afterCall`).  The type of a descriptor does not depend on what is remembered,
only whether there is a conflict does; and what has been declared once is in no conflict with itself.
So a type that has been resolved is resolved for ever after, and nothing changes any more.

* `grows_resolveType` — what a step of the traversal may do to the declarations;
* `type_of_history` — types, and the history of the resolver that resolves them.
-/

namespace RpcBridge.Client

/-! ## More declarations -/

/-- The first declarations are the second ones with others behind them. -/
structure Declarations.Extends (s' s : Declarations) : Prop where
  enums : s.enums.entries <+: s'.enums.entries
  interfaces : s.interfaces.entries <+: s'.interfaces.entries

namespace Declarations.Extends

variable {s s' s'' : Declarations}

theorem refl (s : Declarations) : s.Extends s := ⟨List.prefix_refl _, List.prefix_refl _⟩

theorem trans (second : s''.Extends s') (first : s'.Extends s) : s''.Extends s :=
  ⟨first.enums.trans second.enums, first.interfaces.trans second.interfaces⟩

end Declarations.Extends

/-- **What has been declared can be declared again** at any later time, and nothing is added. -/
theorem Declares.again {ms : List Definition} {s s' s'' : Declarations} (h : Declares ms s s')
    (later : s''.Extends s') : Declares ms s'' s'' where
  enums := Table.registerAll_of_get? fun e he =>
    Table.get?_of_prefix later.enums (Table.get?_registerAll h.enums e he)
  interfaces := Table.registerAll_of_get? fun e he =>
    Table.get?_of_prefix later.interfaces (Table.get?_registerAll h.interfaces e he)
  named := h.named

/-! ## Steps -/

namespace Declaring

variable {α β : Type} {step : Declaring α}

/-- A step that adds declarations at most, whether it succeeds or fails. -/
def Grows (step : Declaring α) : Prop :=
  ∀ s, Declarations.Extends (step s).2 s

namespace Grows

theorem pure (a : α) : Grows (Pure.pure a) := fun s => .refl s

theorem fail (e : ExportError) : Grows (Declaring.fail e : Declaring α) := fun s => .refl s

theorem lift (r : Except ExportError α) : Grows (Declaring.lift r) := fun s => .refl s

theorem inField (h : Grows step) (record field : String) :
    Grows (Declaring.inField record field step) := h

/-- Where the first of two steps fails, the second does nothing. -/
theorem bind {f : α → Declaring β} (first : Grows step) (second : ∀ a, Grows (f a)) :
    Grows (step >>= f) := by
  intro s
  have before := first s
  rw [run_bind]
  split
  · next a between ran =>
    rw [ran] at before
    exact (second a between).trans before
  · next e between ran =>
    rw [ran] at before
    exact before

theorem forIn {names : List α} {check : α → Declaring Unit} (each : ∀ a, Grows (check a)) :
    Grows (ForIn.forIn names PUnit.unit fun a _ => do
      check a
      Pure.pure (ForInStep.yield PUnit.unit)) := by
  induction names with
  | nil => exact .pure _
  | cons name rest ih =>
    simp only [List.forIn_cons, bind_assoc, pure_bind]
    exact (each name).bind fun _ => ih

theorem declareInterface (name body : String) : Grows (Declaring.declareInterface name body) := by
  intro s
  rw [Declaring.declareInterface]
  split
  · next table registered => exact ⟨List.prefix_refl _, Table.register_keeps registered⟩
  · exact .refl s

theorem declareEnum (name body : String) : Grows (Declaring.declareEnum name body) := by
  intro s
  rw [Declaring.declareEnum]
  split
  · next table registered => exact ⟨Table.register_keeps registered, List.prefix_refl _⟩
  · exact .refl s

end Grows

end Declaring

/-! ## Types -/

section Types

open Declaring

theorem grows_resolveTypes {ds : List Descriptor} (each : ∀ d ∈ ds, Grows (resolveType d)) :
    Grows (resolveTypes ds) := by
  induction ds with
  | nil => exact .pure _
  | cons d rest ih =>
    rw [List.forall_mem_cons] at each
    rw [resolveTypes_cons]
    exact each.1.bind fun _ => (ih each.2).bind fun _ => .pure _

theorem grows_resolveFields {record : String} {fields : List Field}
    (each : ∀ f ∈ fields, Grows (resolveType f.2)) : Grows (resolveFields record fields) := by
  induction fields with
  | nil => exact .pure _
  | cons f rest ih =>
    rw [List.forall_mem_cons] at each
    rw [resolveFields_cons]
    refine ((Grows.lift _).inField _ _).bind fun _ => ?_
    exact (each.1.inField _ _).bind fun _ => (ih each.2).bind fun _ => .pure _

/-- **Resolving a type takes nothing back**, wherever it ends. -/
theorem grows_resolveType (d : Descriptor) : Grows (resolveType d) := by
  induction d with
  | scalar | temporal => exact .pure _
  | foreign => exact .fail _
  | param name => exact (Grows.lift _).bind fun _ => .pure _
  | list _ ih | optional _ ih => exact ih.bind fun _ => .pure _
  | tuple items ih => exact (grows_resolveTypes ih).bind fun _ => .pure _
  | variadic items ih =>
    rw [resolveType_variadic]
    split
    · exact (ih _ (List.mem_singleton_self _)).bind fun _ => .pure _
    · exact .fail _
  | mapping key value ihKey ihValue =>
    exact ihKey.bind fun _ => ihValue.bind fun _ => .pure _
  | union members ih =>
    rw [resolveType_union]
    split
    · exact .fail _
    · exact (grows_resolveTypes ih).bind fun _ => .pure _
  | enum e =>
    refine (Grows.lift _).bind fun _ => (Grows.forIn fun m => ?_).bind fun _ => ?_
    · exact (Grows.lift _).inField _ _
    · exact (Grows.declareEnum _ _).bind fun _ => .pure _
  | record name fields transparent ih =>
    cases transparent with
    | true =>
      rw [resolveType_wrapper]
      split
      · exact (ih _ (List.mem_singleton_self _)).inField _ _
      · exact .fail _
    | false =>
      rw [resolveType_record]
      refine (Grows.lift _).bind fun _ => (grows_resolveFields ih).bind fun _ => ?_
      exact (Grows.declareInterface _ _).bind fun _ => .pure _
  | template name params fields ih =>
    rw [resolveType_template]
    refine (Grows.lift _).bind fun _ => (Grows.forIn fun p => Grows.lift _).bind fun _ => ?_
    refine (grows_resolveFields ih).bind fun _ => ?_
    exact (Grows.declareInterface _ _).bind fun _ => .pure _
  | application origin args ihOrigin ihArgs =>
    rw [resolveType_application]
    split
    · exact .fail _
    · refine ihOrigin.bind fun _ => ?_
      split
      · exact (grows_resolveTypes ihArgs).bind fun _ => .pure _
      · exact .pure _

end Types

/-! ## Calls -/

namespace Resolver

/-- A call of a resolver: for a type, or for a conversion. -/
inductive Call where
  | type (d : Descriptor)
  | code (direction : Direction) (d : Descriptor) (source target : Place)

/-- The resolver that a call leaves behind, whether it succeeds or fails. -/
def afterCall (r : Resolver) : Call → Resolver
  | .type d => r.after (type d)
  | .code direction d source target => r.after (code direction d source target)

/-- The resolver after calls one after the other. -/
def afterCalls (r : Resolver) (calls : List Call) : Resolver := calls.foldl afterCall r

/-- A call only adds declarations behind those that are there. -/
theorem extends_afterCall (r : Resolver) (call : Call) :
    (r.afterCall call).declarations.Extends r.declarations := by
  cases call with
  | type d => exact grows_resolveType d r.declarations
  | code => exact .refl _

theorem extends_afterCalls (r : Resolver) (calls : List Call) :
    (r.afterCalls calls).declarations.Extends r.declarations := by
  induction calls generalizing r with
  | nil => exact .refl _
  | cons call rest ih => exact (ih (r.afterCall call)).trans (extends_afterCall r call)

end Resolver

/-- **Types do not depend on history**: a descriptor has the same type wherever it is resolved;
after any further calls it is resolved to the same type again, and nothing changes; and whether it
is resolved or not, every declaration that was there keeps its place and its body. -/
theorem type_of_history (d : Descriptor) :
    (∀ r r' e e' next next', Yields (Resolver.type d) r e next →
      Yields (Resolver.type d) r' e' next' → e = e') ∧
    (∀ r e next, Yields (Resolver.type d) r e next → ∀ calls,
      Yields (Resolver.type d) (next.afterCalls calls) e (next.afterCalls calls)) ∧
    ∀ r : Resolver, (r.after (Resolver.type d)).declarations.Extends r.declarations := by
  refine ⟨fun r r' e e' next next' first second => ?_, fun r e next resolved calls => ?_,
    fun r => Resolver.extends_afterCall r (.type d)⟩
  · obtain ⟨-, rfl, -⟩ := (resolveType_iff d _ _ _).1 (yields_declaring_iff.1 first).1
    obtain ⟨-, rfl, -⟩ := (resolveType_iff d _ _ _).1 (yields_declaring_iff.1 second).1
    rfl
  · obtain ⟨renderable, rfl, declared⟩ :=
      (resolveType_iff d _ _ _).1 (yields_declaring_iff.1 resolved).1
    have again := declared.again (Resolver.extends_afterCalls next calls)
    exact yields_declaring_iff.2 ⟨(resolveType_iff d _ _ _).2 ⟨renderable, rfl, again⟩, rfl⟩

/-- A page of dates has the same type after a call that has declared a note and has then failed,
because it brought another template of the page's name. -/
theorem type_of_history_page :
    ∃ page clash : Descriptor,
      page = .application (.template "Page" ["T"] [("items", .list (.param "T"))])
        [.temporal .date] ∧
      clash = .tuple [.record "Note" [("text", .scalar .string)] false,
        .template "Page" ["T"] [("rows", .param "T")]] ∧
      ∃ e next later, e.toText = "Page<Date>" ∧
        later = next.afterCalls [.type clash] ∧
        Fails (Resolver.type clash) next
          (.nameConflict "Page<T>" "\x7bitems: Array<T>\x7d" "\x7brows: T\x7d") later ∧
        Yields (Resolver.type page) .empty e next ∧ Yields (Resolver.type page) later e later ∧
        next.declarations.interfaces.names = ["Page<T>"] ∧
        later.declarations.interfaces.names = ["Page<T>", "Note"] := by
  refine ⟨_, _, rfl, rfl, .applied "Page" [.word "Date"],
    ⟨⟨⟨[]⟩, ⟨[("Page<T>", "\x7bitems: Array<T>\x7d")]⟩⟩, 0⟩, _, rfl, rfl, by rfl, ?_⟩
  have first : Yields (Resolver.type (.application
      (.template "Page" ["T"] [("items", .list (.param "T"))]) [.temporal .date])) .empty
      (.applied "Page" [.word "Date"])
      ⟨⟨⟨[]⟩, ⟨[("Page<T>", "\x7bitems: Array<T>\x7d")]⟩⟩, 0⟩ := by rfl
  exact ⟨first, (type_of_history _).2.1 _ _ _ first _, by rfl, by rfl⟩

end RpcBridge.Client
