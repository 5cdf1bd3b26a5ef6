import RpcBridge.Client.Export
import RpcBridge.Proofs.Client.Rendering

/-!
# Proofs/Client/Exporting — the export of procedures, taken apart

A procedure is exported exactly when its name is an identifier, both its types resolve, one from
where the other has left off, and both its conversions are generated, likewise.  A list of
procedures is exported procedure by procedure, as long as no name comes twice.

* `yields_exportProcedure` — what the export of one procedure consists of;
* `exportProcedures_cons` — what the export of a list consists of.
-/

namespace RpcBridge.Client

section Steps

variable {α : Type} {a : α} {r next : Resolver}

/-- The resolver that a step leaves behind, whether it succeeds or fails. -/
def Resolver.after (r : Resolver) (step : Resolver.Resolving α) : Resolver := (step r).2

theorem run_declaring (step : Declaring α) (r : Resolver) : Resolver.declaring step r =
    ((step r.declarations).1, { r with declarations := (step r.declarations).2 }) := rfl

theorem run_generating (step : Generating α) (r : Resolver) : Resolver.generating step r =
    ((step r.counter).1, { r with counter := (step r.counter).2 }) := rfl

theorem after_of_yields {step : Resolver.Resolving α} (h : Yields step r a next) :
    r.after step = next := by
  rw [Resolver.after, h]

theorem after_of_fails {step : Resolver.Resolving α} {e : ExportError} (h : Fails step r e next) :
    r.after step = next := by
  rw [Resolver.after, h]

/-- A step on the declarations leaves the counter alone. -/
theorem yields_declaring_iff {step : Declaring α} :
    Yields (Resolver.declaring step) r a next ↔
      Yields step r.declarations a next.declarations ∧ next.counter = r.counter := by
  unfold Yields
  rw [run_declaring]
  constructor
  · intro h
    injection h with result state
    rw [← result, ← state]
    exact ⟨rfl, rfl⟩
  · rintro ⟨h, same⟩
    rw [h, ← same]

theorem generating_eq_iff {step : Generating α} {outcome : Except ExportError α} :
    Resolver.generating step r = (outcome, next) ↔
      step r.counter = (outcome, next.counter) ∧ next.declarations = r.declarations := by
  rw [run_generating]
  constructor
  · intro h
    injection h with result state
    rw [← result, ← state]
    exact ⟨rfl, rfl⟩
  · rintro ⟨h, same⟩
    rw [h, ← same]

/-- A step that makes temporaries leaves the declarations alone. -/
theorem yields_generating_iff {step : Generating α} :
    Yields (Resolver.generating step) r a next ↔
      Yields step r.counter a next.counter ∧ next.declarations = r.declarations :=
  generating_eq_iff

theorem yields_generating {step : Generating α} (h : Yields (Resolver.generating step) r a next) :
    Yields step r.counter a next.counter := (yields_generating_iff.1 h).1

/-- It leaves them alone where it fails, too. -/
theorem fails_generating_iff {step : Generating α} {e : ExportError} :
    Fails (Resolver.generating step) r e next ↔
      Fails step r.counter e next.counter ∧ next.declarations = r.declarations :=
  generating_eq_iff

theorem fails_generating {step : Generating α} {e : ExportError}
    (h : Fails (Resolver.generating step) r e next) : Fails step r.counter e next.counter :=
  (fails_generating_iff.1 h).1

end Steps

/-! ## One procedure -/

/-- **A procedure is exported** exactly when it has a name that can be used, its types resolve and
its conversions are generated. -/
theorem yields_exportProcedure {p : Procedure} {r next : Resolver} {caller : Caller} :
    Yields (exportProcedure p) r caller next ↔
      checkIdentifier p.name = .ok () ∧ caller.procedure = p.name ∧
      (∃ between, Yields (resolveType p.input) r.declarations caller.input between ∧
        Yields (resolveType p.output) between caller.output next.declarations) ∧
      ∃ between, Yields (convert .out p.input.shape Caller.params Caller.preparedParams) r.counter
          caller.prepare between ∧
        Yields (convert .back p.output.shape Caller.data Caller.data) between caller.restore
          next.counter := by
  simp only [exportProcedure, yields_bind, yields_pure]
  constructor
  · rintro ⟨_, r₀, checked, input, r₁, first, output, r₂, second, prepare, r₃, prepared, restore,
      r₄, restored, rfl, rfl⟩
    obtain ⟨checked, kept₀⟩ := yields_declaring_iff.1 checked
    obtain ⟨checked, same⟩ := Declaring.yields_lift.1 checked
    obtain ⟨first, kept₁⟩ := yields_declaring_iff.1 first
    obtain ⟨second, kept₂⟩ := yields_declaring_iff.1 second
    obtain ⟨prepared, kept₃⟩ := yields_generating_iff.1 prepared
    obtain ⟨restored, kept₄⟩ := yields_generating_iff.1 restored
    rw [← same] at first
    rw [kept₂, kept₁, kept₀] at prepared
    rw [kept₄, kept₃]
    exact ⟨checked, rfl, ⟨_, first, second⟩, _, prepared, restored⟩
  · rintro ⟨checked, named, ⟨between, first, second⟩, between', prepared, restored⟩
    obtain ⟨procedure, input, output, prepare, restore⟩ := caller
    obtain rfl : procedure = p.name := named
    refine ⟨(), r, ?_, input, ⟨between, r.counter⟩, ?_, output, ⟨next.declarations, r.counter⟩, ?_,
      prepare, ⟨next.declarations, between'⟩, ?_, restore, next, ?_, rfl, rfl⟩
    · exact yields_declaring_iff.2 ⟨Declaring.yields_lift.2 ⟨checked, rfl⟩, rfl⟩
    · exact yields_declaring_iff.2 ⟨first, rfl⟩
    · exact yields_declaring_iff.2 ⟨second, rfl⟩
    · exact yields_generating_iff.2 ⟨prepared, rfl⟩
    · exact yields_generating_iff.2 ⟨restored, rfl⟩

/-! ## A list of procedures -/

section Lists

variable {seen : List String} {r last : Resolver} {p : Procedure} {rest : List Procedure}
  {callers : List Caller}

theorem exportProcedures_nil :
    exportProcedures seen r [] = .ok (callers, last) ↔ callers = [] ∧ last = r := by
  rw [exportProcedures, Except.ok.injEq, Prod.mk.injEq, eq_comm, @eq_comm _ r]

/-- **A list of procedures is exported** procedure by procedure. -/
theorem exportProcedures_cons :
    exportProcedures seen r (p :: rest) = .ok (callers, last) ↔
      p.name ∉ seen ∧ ∃ caller next others, Yields (exportProcedure p) r caller next ∧
        exportProcedures (p.name :: seen) next rest = .ok (others, last) ∧
        callers = caller :: others := by
  rw [exportProcedures]
  by_cases taken : p.name ∈ seen
  · rw [if_pos (List.contains_iff_mem.2 taken)]
    exact ⟨fun failed => (nomatch failed), fun h => absurd taken h.1⟩
  · rw [if_neg (mt List.contains_iff_mem.1 taken)]
    unfold Yields
    rcases exportProcedure p r with ⟨e | caller, next⟩
    · refine ⟨fun failed => (nomatch failed), ?_⟩
      rintro ⟨-, _, _, _, failed, -⟩
      cases failed
    · dsimp only
      rw [bind_eq_ok]
      constructor
      · rintro ⟨⟨others, last'⟩, exported, same⟩
        cases same
        exact ⟨taken, caller, next, others, rfl, exported, rfl⟩
      · rintro ⟨-, _, _, others, same, exported, rfl⟩
        cases same
        exact ⟨(others, last), exported, rfl⟩

end Lists

end RpcBridge.Client
