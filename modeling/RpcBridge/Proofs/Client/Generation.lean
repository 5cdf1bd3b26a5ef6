import RpcBridge.Client.Conversion
import RpcBridge.Proofs.Descriptor.Shape

/-!
# Proofs/Client/Generation — generated conversions, taken apart

One statement for every kind of shape says what code `convert` generates when it succeeds, and
which conversions of the parts it is put together from.

* `convert_list`, `convert_mapping`, … — the code of a shape and the code of its parts;
* `convert_le` — temporaries are numbered upwards.
-/

namespace RpcBridge.Client

/-! ## Steps with a state -/

section Steps

variable {ε σ α β : Type}

/-- A step succeeds with a result and leaves a state behind. -/
def Yields (step : ExceptT ε (StateM σ) α) (start : σ) (a : α) (finish : σ) : Prop :=
  step start = ((.ok a, finish) : Except ε α × σ)

/-- A step fails with an error and leaves a state behind. -/
def Fails (step : ExceptT ε (StateM σ) α) (start : σ) (e : ε) (finish : σ) : Prop :=
  step start = ((.error e, finish) : Except ε α × σ)

/-- A step yields a result or fails. -/
theorem yields_or_fails (step : ExceptT ε (StateM σ) α) (start : σ) :
    (∃ a finish, Yields step start a finish) ∨ ∃ e finish, Fails step start e finish := by
  rcases h : step start with ⟨e | a, finish⟩
  · exact .inr ⟨e, finish, h⟩
  · exact .inl ⟨a, finish, h⟩

/-- A step that yields a result does not fail. -/
theorem Yields.not_fails {step : ExceptT ε (StateM σ) α} {start finish finish' : σ} {a : α} {e : ε}
    (h : Yields step start a finish) : ¬Fails step start e finish' := by
  intro failed
  cases h.symm.trans failed

theorem run_bind {x : ExceptT ε (StateM σ) α} {f : α → ExceptT ε (StateM σ) β} {start : σ} :
    (x >>= f) start = match x start with
      | (.ok a, between) => f a between
      | (.error e, between) => ((.error e, between) : Except ε β × σ) := by
  have run : (x >>= f) start = ExceptT.bindCont f (x start).1 (x start).2 := rfl
  rw [run]
  rcases x start with ⟨a | a, between⟩
  · rfl
  · rfl

/-- A chain of steps succeeds exactly when both do, one from where the other has left off. -/
theorem yields_bind {x : ExceptT ε (StateM σ) α} {f : α → ExceptT ε (StateM σ) β}
    {start finish : σ} {b : β} :
    Yields (x >>= f) start b finish ↔
      ∃ a between, Yields x start a between ∧ Yields (f a) between b finish := by
  unfold Yields
  rw [run_bind]
  rcases h : x start with ⟨a | a, between⟩
  · refine ⟨fun failed => (nomatch failed), ?_⟩
    rintro ⟨_, _, failed, _⟩
    cases failed
  · refine ⟨fun second => ⟨a, between, rfl, second⟩, ?_⟩
    rintro ⟨_, _, first, second⟩
    cases first
    exact second

/-- A chain of steps fails with the error of the first step that does. -/
theorem fails_bind {x : ExceptT ε (StateM σ) α} {f : α → ExceptT ε (StateM σ) β}
    {start finish : σ} {e : ε} :
    Fails (x >>= f) start e finish ↔ Fails x start e finish ∨
      ∃ a between, Yields x start a between ∧ Fails (f a) between e finish := by
  unfold Fails Yields
  rw [run_bind]
  rcases h : x start with ⟨a | a, between⟩
  · refine ⟨fun failed => .inl ?_, ?_⟩
    · cases failed
      rfl
    · rintro (failed | ⟨_, _, succeeded, _⟩)
      · cases failed
        rfl
      · cases succeeded
  · refine ⟨fun second => .inr ⟨a, between, rfl, second⟩, ?_⟩
    rintro (failed | ⟨_, _, first, second⟩)
    · cases failed
    · cases first
      exact second

/-- Behind a step that succeeds, a chain fails exactly when its rest does. -/
theorem Yields.fails_bind {x : ExceptT ε (StateM σ) α} {f : α → ExceptT ε (StateM σ) β}
    {start between finish : σ} {a : α} {e : ε} (h : Yields x start a between) :
    Fails (x >>= f) start e finish ↔ Fails (f a) between e finish := by
  unfold Fails
  rw [run_bind, h]

theorem not_fails_pure {a : α} {start finish : σ} {e : ε} :
    ¬Fails (pure a : ExceptT ε (StateM σ) α) start e finish := fun h => nomatch h

theorem yields_pure {a b : α} {start finish : σ} :
    Yields (pure a : ExceptT ε (StateM σ) α) start b finish ↔ a = b ∧ start = finish := by
  refine ⟨fun h => ?_, ?_⟩
  · cases h
    exact ⟨rfl, rfl⟩
  · rintro ⟨rfl, rfl⟩
    rfl

end Steps

namespace Generating

variable {α : Type} {n m : Nat} {a : α}

/-- A temporary takes the next number and advances the counter by one. -/
theorem yields_temp {letter : String} {t : Temp} :
    Yields (temp letter) n t m ↔ t = ⟨letter, n⟩ ∧ m = n + 1 := by
  refine ⟨fun h => ?_, ?_⟩
  · cases h
    exact ⟨rfl, rfl⟩
  · rintro ⟨rfl, rfl⟩
    rfl

/-- Naming the field does not change what a step yields. -/
theorem yields_inField {record field : String} {step : Generating α} :
    Yields (inField record field step) n a m ↔ Yields step n a m := by
  have run : inField record field step n = ((step n).1.mapError (.inField record field),
      (step n).2) := rfl
  unfold Yields
  rw [run]
  rcases h : step n with ⟨r | r, after⟩
  · exact ⟨fun failed => (nomatch failed), fun failed => (nomatch failed)⟩
  · rfl

/-- A pure result is yielded without moving the counter. -/
theorem yields_lift {r : Except ExportError α} :
    Yields (lift r) n a m ↔ r = .ok a ∧ n = m := by
  refine ⟨fun h => ?_, ?_⟩
  · cases h
    exact ⟨rfl, rfl⟩
  · rintro ⟨rfl, rfl⟩
    rfl

theorem not_yields_fail {e : ExportError} : ¬Yields (fail e : Generating α) n a m :=
  fun h => nomatch h

theorem fails_fail {e e' : ExportError} : Fails (fail e : Generating α) n e' m ↔
    e = e' ∧ n = m := by
  refine ⟨fun h => ?_, ?_⟩
  · cases h
    exact ⟨rfl, rfl⟩
  · rintro ⟨rfl, rfl⟩
    rfl

theorem fails_lift {r : Except ExportError α} {e : ExportError} :
    Fails (lift r) n e m ↔ r = .error e ∧ n = m := by
  refine ⟨fun h => ?_, ?_⟩
  · cases h
    exact ⟨rfl, rfl⟩
  · rintro ⟨rfl, rfl⟩
    rfl

/-- A step in a field fails with the error of the step, wrapped into the field. -/
theorem fails_inField {record field : String} {step : Generating α} {e : ExportError} :
    Fails (inField record field step) n e m ↔
      ∃ inner, e = .inField record field inner ∧ Fails step n inner m := by
  have run : inField record field step n = ((step n).1.mapError (.inField record field),
      (step n).2) := rfl
  unfold Fails
  rw [run]
  rcases h : step n with ⟨r | r, after⟩
  · refine ⟨fun failed => ?_, ?_⟩
    · cases failed
      exact ⟨r, rfl, rfl⟩
    · rintro ⟨_, rfl, failed⟩
      cases failed
      rfl
  · refine ⟨fun failed => (nomatch failed), ?_⟩
    rintro ⟨_, -, failed⟩
    cases failed

/-- Taking a temporary never fails. -/
theorem not_fails_temp {letter : String} {e : ExportError} : ¬Fails (temp letter) n e m :=
  fun h => nomatch h

end Generating

/-! ## The code of a shape -/

section Shapes

variable {direction : Direction} {source target : Place} {n m : Nat} {code : Code}

/-- A scalar is copied. -/
theorem convert_scalar {kind : ScalarKind}
    (h : Yields (convert direction (.scalar kind) source target) n code m) :
    code = .copy source target ∧ m = n := by
  rw [convert_scalar_eq, yields_pure] at h
  exact ⟨h.1.symm, h.2.symm⟩

/-- An enum member is copied. -/
theorem convert_enum {e : EnumDef}
    (h : Yields (convert direction (.enum e) source target) n code m) :
    code = .copy source target ∧ m = n := by
  rw [convert, yields_pure] at h
  exact ⟨h.1.symm, h.2.symm⟩

/-- A temporal value is parsed or serialized in place. -/
theorem convert_temporal {kind : TemporalKind}
    (h : Yields (convert direction (.temporal kind) source target) n code m) :
    code = .ofTemporal kind direction source target ∧ m = n := by
  rw [convert, yields_pure] at h
  exact ⟨h.1.symm, h.2.symm⟩

/-- A list is a loop around the statements of one element, at a fresh index. -/
theorem convert_list {element : Shape}
    (h : Yields (convert direction (.list element) source target) n code m) :
    ∃ inner, Yields (convert direction element (.slot source ⟨"i", n⟩) (.slot target ⟨"i", n⟩))
        (n + 1) inner m ∧ code = .ofList direction ⟨"i", n⟩ source target inner := by
  simp only [convert, yields_bind, Generating.yields_temp, yields_pure] at h
  obtain ⟨_, _, ⟨rfl, rfl⟩, inner, _, generated, rfl, rfl⟩ := h
  exact ⟨inner, generated, rfl⟩

/-- The values of a dictionary are moved to their new keys first when the keys are converted on
the way back. -/
theorem convert_mapping {key value : Shape}
    (h : Yields (convert direction (.mapping key value) source target) n code m) :
    ∃ keys between walked,
      Yields (convert direction key (.temp ⟨"k", n⟩) (.temp ⟨"k", n + 1⟩)) (n + 2) keys between ∧
      (((direction = .back && keys.transforms) = false ∧
          Yields (convert direction value (.slot source ⟨"k", n⟩) (.slot target ⟨"k", n + 1⟩))
            between walked m ∧
          code = .ofMapping direction ⟨"k", n⟩ ⟨"k", n + 1⟩ source target keys walked) ∨
        ((direction = .back && keys.transforms) = true ∧
          Yields (convert direction value (.slot target ⟨"k", n + 1⟩) (.slot target ⟨"k", n + 1⟩))
            between walked m ∧
          code = .ofMapping direction ⟨"k", n⟩ ⟨"k", n + 1⟩ source target keys
            (.ofMoved (.slot source ⟨"k", n⟩) (.slot target ⟨"k", n + 1⟩) walked))) := by
  simp only [convert, yields_bind, Generating.yields_temp, yields_pure] at h
  obtain ⟨_, _, ⟨rfl, rfl⟩, _, _, ⟨rfl, rfl⟩, keys, between, generated, walked, _, values, rfl,
    rfl⟩ := h
  refine ⟨keys, between, walked, generated, ?_⟩
  cases moved : direction = .back && keys.transforms
  · rw [moved, if_neg Bool.false_ne_true] at values
    exact Or.inl ⟨rfl, values, rfl⟩
  · rw [moved, if_pos rfl] at values
    exact Or.inr ⟨rfl, values, rfl⟩

/-- A tuple is the statements of its items, in order. -/
theorem convert_tuple {items : List Shape}
    (h : Yields (convert direction (.tuple items) source target) n code m) :
    ∃ inner, Yields (convertItems direction items 0 source target) n inner m ∧
      code = .ofTuple direction source target inner := by
  simp only [convert, yields_bind, yields_pure] at h
  obtain ⟨inner, _, generated, rfl, rfl⟩ := h
  exact ⟨inner, generated, rfl⟩

/-- A tuple is copied, or its items are converted into a container of its own. -/
theorem body_ofTuple (direction : Direction) (source target : Place) (inner : Code) :
    Code.ofTuple direction source target inner = .copy source target ∨
      (Code.ofTuple direction source target inner).body =
        Code.fresh direction target .emptyArray ++ inner.body := by
  cases direction with
  | out =>
    unfold Code.ofTuple
    dsimp only
    split
    · exact .inr rfl
    · exact .inl rfl
  | back => exact .inr rfl

/-- An optional is a guard around the statements of what it may hold. -/
theorem convert_optional {inner : Shape}
    (h : Yields (convert direction (.optional inner) source target) n code m) :
    ∃ present, Yields (convert direction inner source target) n present m ∧
      code = .ofOptional direction source target present := by
  simp only [convert, yields_bind, yields_pure] at h
  obtain ⟨present, _, generated, rfl, rfl⟩ := h
  exact ⟨present, generated, rfl⟩

/-- A record is a fresh object followed by the statements of its fields. -/
theorem convert_record {name : String} {fields : List (String × Shape)}
    (h : Yields (convert direction (.record name fields) source target) n code m) :
    ∃ inner, Yields (convertFields direction name fields source target) n inner m ∧
      code = ⟨Code.fresh direction target .emptyObject ++ inner.body, inner.transforms⟩ := by
  simp only [convert, yields_bind, yields_pure] at h
  obtain ⟨inner, _, generated, rfl, rfl⟩ := h
  exact ⟨inner, generated, rfl⟩

/-- A wrapper is converted as what it wraps. -/
theorem convert_wrapper {name field : String} {inner : Shape}
    (h : Yields (convert direction (.wrapper name field inner) source target) n code m) :
    Yields (convert direction inner source target) n code m := by
  rwa [convert, Generating.yields_inField] at h

/-- A transparent record that is applied to nothing is taken for the type of its one field. -/
theorem convert_opened {origin : Descriptor} {name : String} {fields : List (String × Shape)}
    (h : Yields (convert direction (.opened origin name fields) source target) n code m) :
    ∃ field inner, fields = [(field, inner)] ∧
      Yields (convert direction inner source target) n code m := by
  match fields with
  | [(field, inner)] =>
    rw [convert, Generating.yields_inField] at h
    exact ⟨field, inner, rfl, h⟩
  | [] | _ :: _ :: _ =>
    simp only [convert] at h
    exact (Generating.not_yields_fail h).elim

/-- A bare template is never converted. -/
theorem convert_bareTemplate {origin : Descriptor} {name : String}
    {fields : List (String × Shape)} :
    ¬Yields (convert direction (.bareTemplate origin name fields) source target) n code m := by
  rw [convert]
  exact Generating.not_yields_fail

/-- What is blocked is never converted. -/
theorem convert_blocked {d : Descriptor} {obstacle : Obstacle} :
    ¬Yields (convert direction (.blocked d obstacle) source target) n code m := by
  rw [convert]
  exact Generating.not_yields_fail

/-! ## Items and fields -/

/-- No items make no statements. -/
theorem convertItems_nil {start : Nat}
    (h : Yields (convertItems direction [] start source target) n code m) :
    code = .empty ∧ m = n := by
  rw [convertItems, yields_pure] at h
  exact ⟨h.1.symm, h.2.symm⟩

/-- Items are converted in order, each at its own index, the counter threaded through. -/
theorem convertItems_cons {s : Shape} {rest : List Shape} {start : Nat}
    (h : Yields (convertItems direction (s :: rest) start source target) n code m) :
    ∃ head between tail,
      Yields (convert direction s (.item source start) (.item target start)) n head between ∧
      Yields (convertItems direction rest (start + 1) source target) between tail m ∧
      code = head.append tail := by
  simp only [convertItems, yields_bind, yields_pure] at h
  obtain ⟨head, between, first, tail, _, others, rfl, rfl⟩ := h
  exact ⟨head, between, tail, first, others, rfl⟩

/-- No fields make no statements. -/
theorem convertFields_nil {record : String}
    (h : Yields (convertFields direction record [] source target) n code m) :
    code = .empty ∧ m = n := by
  rw [convertFields, yields_pure] at h
  exact ⟨h.1.symm, h.2.symm⟩

/-- Fields are converted in order, each under its own checked name, the counter threaded through. -/
theorem convertFields_cons {record name : String} {s : Shape} {rest : List (String × Shape)}
    (h : Yields (convertFields direction record ((name, s) :: rest) source target) n code m) :
    ∃ head between tail, checkIdentifier name = .ok () ∧
      Yields (convert direction s (.field source name) (.field target name)) n head between ∧
      Yields (convertFields direction record rest source target) between tail m ∧
      code = head.append tail := by
  simp only [convertFields, yields_bind, yields_pure, Generating.yields_inField,
    Generating.yields_lift] at h
  obtain ⟨_, _, ⟨checked, rfl⟩, head, between, first, tail, _, others, rfl, rfl⟩ := h
  exact ⟨head, between, tail, checked, first, others, rfl⟩

end Shapes

/-! ## Walks over items and fields -/

section Walks

variable {direction : Direction} {source target : Place} {n m : Nat} {code : Code}
  {P : Nat → List Statement → Nat → Prop}

/-- What holds of the code of each item, and of what follows one another, holds of the code of a
tuple's items. -/
theorem convertItems_walk {items : List Shape} {start : Nat} (nil : ∀ n, P n [] n)
    (append : ∀ {n k m a b}, P n a k → P k b m → P n (a ++ b) m)
    (each : ∀ s ∈ items, ∀ {i n code m},
      Yields (convert direction s (.item source i) (.item target i)) n code m → P n code.body m)
    (h : Yields (convertItems direction items start source target) n code m) :
    P n code.body m := by
  induction items generalizing start n code with
  | nil =>
    obtain ⟨rfl, rfl⟩ := convertItems_nil h
    exact nil _
  | cons s rest ih =>
    rw [List.forall_mem_cons] at each
    obtain ⟨head, between, tail, first, others, rfl⟩ := convertItems_cons h
    exact append (each.1 first) (ih each.2 others)

/-- The same of the fields of a record. -/
theorem convertFields_walk {record : String} {fields : List (String × Shape)} (nil : ∀ n, P n [] n)
    (append : ∀ {n k m a b}, P n a k → P k b m → P n (a ++ b) m)
    (each : ∀ f ∈ fields, ∀ {n code m},
      Yields (convert direction f.2 (.field source f.1) (.field target f.1)) n code m →
        P n code.body m)
    (h : Yields (convertFields direction record fields source target) n code m) :
    P n code.body m := by
  induction fields generalizing n code with
  | nil =>
    obtain ⟨rfl, rfl⟩ := convertFields_nil h
    exact nil _
  | cons f rest ih =>
    rw [List.forall_mem_cons] at each
    obtain ⟨head, between, tail, -, first, others, rfl⟩ := convertFields_cons h
    exact append (each.1 first) (ih each.2 others)

/-- The names of all fields have been checked. -/
theorem checked_of_convertFields {record : String} {fields : List (String × Shape)}
    (h : Yields (convertFields direction record fields source target) n code m) :
    ∀ f ∈ fields, checkIdentifier f.1 = .ok () := by
  induction fields generalizing n code with
  | nil => exact List.forall_mem_nil _
  | cons f rest ih =>
    obtain ⟨_, _, _, checked, -, others, -⟩ := convertFields_cons h
    exact List.forall_mem_cons.2 ⟨checked, ih others⟩

end Walks

/-! ## Numbering -/

section Numbering

variable {direction : Direction} {source target : Place} {n m : Nat} {code : Code}

/-- **Temporaries are numbered upwards.** -/
theorem convert_le {s : Shape} (h : Yields (convert direction s source target) n code m) :
    n ≤ m := by
  induction s generalizing source target n code m with
  | scalar => exact Nat.le_of_eq (convert_scalar h).2.symm
  | enum => exact Nat.le_of_eq (convert_enum h).2.symm
  | temporal => exact Nat.le_of_eq (convert_temporal h).2.symm
  | list element ih =>
    obtain ⟨inner, generated, -⟩ := convert_list h
    exact Nat.le_of_succ_le (ih generated)
  | mapping key value ihKey ihValue =>
    obtain ⟨keys, between, walked, generated, ⟨-, values, -⟩ | ⟨-, values, -⟩⟩ :=
      convert_mapping h
    · have := ihKey generated
      have := ihValue values
      omega
    · have := ihKey generated
      have := ihValue values
      omega
  | tuple items ih =>
    obtain ⟨inner, generated, -⟩ := convert_tuple h
    exact convertItems_walk (P := fun n _ m => n ≤ m) Nat.le_refl Nat.le_trans
      (fun s hs => ih s hs) generated
  | optional inner ih =>
    obtain ⟨present, generated, -⟩ := convert_optional h
    exact ih generated
  | record name fields ih =>
    obtain ⟨inner, generated, -⟩ := convert_record h
    exact convertFields_walk (P := fun n _ m => n ≤ m) Nat.le_refl Nat.le_trans
      (fun f hf => ih f hf) generated
  | wrapper _ _ inner ih => exact ih (convert_wrapper h)
  | opened _ _ fields ih =>
    obtain ⟨field, inner, rfl, generated⟩ := convert_opened h
    exact ih _ (List.mem_singleton.2 rfl) generated
  | bareTemplate => exact (convert_bareTemplate h).elim
  | blocked => exact (convert_blocked h).elim

end Numbering

end RpcBridge.Client
