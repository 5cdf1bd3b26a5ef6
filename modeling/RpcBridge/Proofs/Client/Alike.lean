import RpcBridge.Proofs.Client.Generation

/-!
# Proofs/Client/Alike — what does not depend on places

Whether a conversion can be generated, how many temporaries it takes, and the error if it cannot,
depend on the shape alone: not on the direction, the places, or the number of the next temporary.

* `Generating.Alike` — two steps that take as many temporaries and fail in the same way;
* `convert_alike` — conversions of one shape are alike;
* `Convertible` — the shapes that can be converted.
-/

namespace RpcBridge.Client

namespace Generating

variable {α β γ δ : Type}

/-- Steps that, from any numbers, both succeed or both fail with the same error, and take as many
temporaries. -/
def Alike (x : Generating α) (y : Generating β) : Prop :=
  ∀ n n', ∃ taken,
    (∃ a b, Yields x n a (n + taken) ∧ Yields y n' b (n' + taken)) ∨
      ∃ e, Fails x n e (n + taken) ∧ Fails y n' e (n' + taken)

namespace Alike

theorem pure (a : α) (b : β) : Alike (Pure.pure a) (Pure.pure b) :=
  fun _ _ => ⟨0, .inl ⟨a, b, rfl, rfl⟩⟩

/-- Two steps that fail in the same way are alike. -/
theorem fail (e : ExportError) :
    Alike (Generating.fail e : Generating α) (Generating.fail e : Generating β) :=
  fun _ _ => ⟨0, .inr ⟨e, rfl, rfl⟩⟩

theorem lift (r : Except ExportError α) : Alike (Generating.lift r) (Generating.lift r) := by
  intro n n'
  cases r with
  | error e => exact ⟨0, .inr ⟨e, rfl, rfl⟩⟩
  | ok a => exact ⟨0, .inl ⟨a, a, rfl, rfl⟩⟩

theorem temp (letter : String) : Alike (Generating.temp letter) (Generating.temp letter) :=
  fun n n' => ⟨1, .inl ⟨⟨letter, n⟩, ⟨letter, n'⟩, rfl, rfl⟩⟩

/-- Steps that are alike stay so inside a field. -/
theorem inField {x : Generating α} {y : Generating β} (h : Alike x y) (record field : String) :
    Alike (Generating.inField record field x) (Generating.inField record field y) := by
  intro n n'
  obtain ⟨taken, ⟨a, b, hx, hy⟩ | ⟨e, hx, hy⟩⟩ := h n n'
  · exact ⟨taken, .inl ⟨a, b, yields_inField.2 hx, yields_inField.2 hy⟩⟩
  · exact ⟨taken, .inr ⟨_, fails_inField.2 ⟨e, rfl, hx⟩, fails_inField.2 ⟨e, rfl, hy⟩⟩⟩

/-- Chains of steps are alike if the steps are, whatever the first ones yield. -/
theorem bind {x : Generating α} {y : Generating β} {f : α → Generating γ} {g : β → Generating δ}
    (first : Alike x y) (second : ∀ a b, Alike (f a) (g b)) : Alike (x >>= f) (y >>= g) := by
  intro n n'
  obtain ⟨taken, ⟨a, b, hx, hy⟩ | ⟨e, hx, hy⟩⟩ := first n n'
  · obtain ⟨more, rest⟩ := second a b (n + taken) (n' + taken)
    refine ⟨taken + more, ?_⟩
    rw [← Nat.add_assoc, ← Nat.add_assoc]
    rcases rest with ⟨c, d, hf, hg⟩ | ⟨e, hf, hg⟩
    · exact .inl ⟨c, d, yields_bind.2 ⟨a, _, hx, hf⟩, yields_bind.2 ⟨b, _, hy, hg⟩⟩
    · exact .inr ⟨e, fails_bind.2 (.inr ⟨a, _, hx, hf⟩), fails_bind.2 (.inr ⟨b, _, hy, hg⟩)⟩
  · exact ⟨taken, .inr ⟨e, fails_bind.2 (.inl hx), fails_bind.2 (.inl hy)⟩⟩

end Alike

end Generating

/-! ## Conversions -/

open Generating

section Shapes

variable {direction direction' : Direction} {source target source' target' : Place}

/-- The statements for items are alike in both directions and at any places, if those for each item
are. -/
theorem convertItems_alike {items : List Shape}
    (each : ∀ s ∈ items, ∀ {source target source' target'},
      Alike (convert direction s source target) (convert direction' s source' target'))
    (start start' : Nat) :
    Alike (convertItems direction items start source target)
      (convertItems direction' items start' source' target') := by
  induction items generalizing start start' with
  | nil => exact .pure _ _
  | cons s rest ih =>
    rw [List.forall_mem_cons] at each
    rw [convertItems, convertItems]
    exact each.1.bind fun _ _ => (ih each.2 _ _).bind fun _ _ => .pure _ _

/-- The statements for fields are alike in both directions and at any places, if those for each
field are. -/
theorem convertFields_alike {record : String} {fields : List (String × Shape)}
    (each : ∀ f ∈ fields, ∀ {source target source' target'},
      Alike (convert direction f.2 source target) (convert direction' f.2 source' target')) :
    Alike (convertFields direction record fields source target)
      (convertFields direction' record fields source' target') := by
  induction fields with
  | nil => exact .pure _ _
  | cons f rest ih =>
    rw [List.forall_mem_cons] at each
    rw [convertFields, convertFields]
    refine ((Alike.lift _).inField _ _).bind fun _ _ => ?_
    exact (each.1.inField _ _).bind fun _ _ => (ih each.2).bind fun _ _ => .pure _ _

/-- A transparent record that is applied to nothing is converted as its only field. -/
theorem convert_opened_alike {origin : Descriptor} {name : String} {fields : List (String × Shape)}
    (each : ∀ f ∈ fields, ∀ {source target source' target'},
      Alike (convert direction f.2 source target) (convert direction' f.2 source' target')) :
    Alike (convert direction (.opened origin name fields) source target)
      (convert direction' (.opened origin name fields) source' target') := by
  match fields with
  | [(field, inner)] =>
    rw [convert, convert]
    exact (each _ (List.mem_singleton_self _)).inField _ _
  | [] | _ :: _ :: _ =>
    simp only [convert]
    exact .fail _

/-- **Conversions of one shape are alike**, whichever way they go and wherever they stand. -/
theorem convert_alike (s : Shape) :
    Alike (convert direction s source target) (convert direction' s source' target') := by
  induction s generalizing source target source' target' with
  | scalar | enum | temporal =>
    rw [convert, convert]
    exact .pure _ _
  | list element ih =>
    rw [convert, convert]
    exact (Alike.temp _).bind fun _ _ => ih.bind fun _ _ => .pure _ _
  | mapping key value ihKey ihValue =>
    rw [convert, convert]
    refine (Alike.temp _).bind fun _ _ => (Alike.temp _).bind fun _ _ => ?_
    exact ihKey.bind fun _ _ => ihValue.bind fun _ _ => .pure _ _
  | tuple items ih =>
    rw [convert, convert]
    exact (convertItems_alike (fun s hs => ih s hs) 0 0).bind fun _ _ => .pure _ _
  | optional inner ih =>
    rw [convert, convert]
    exact ih.bind fun _ _ => .pure _ _
  | record name fields ih =>
    rw [convert, convert]
    exact (convertFields_alike fun f hf => ih f hf).bind fun _ _ => .pure _ _
  | wrapper name field inner ih =>
    rw [convert, convert]
    exact ih.inField _ _
  | opened origin name fields ih => exact convert_opened_alike fun f hf => ih f hf
  | bareTemplate | blocked =>
    rw [convert, convert]
    exact .fail _

/-- Some conversion of the shape can be generated. -/
def Convertible (s : Shape) : Prop :=
  ∃ direction source target n code m, Yields (convert direction s source target) n code m

/-- **A shape that can be converted at all can be converted everywhere.** -/
theorem Convertible.yields {s : Shape} (h : Convertible s) (direction : Direction)
    (source target : Place) (n : Nat) :
    ∃ code m, Yields (convert direction s source target) n code m := by
  obtain ⟨direction', source', target', n', code', m', generated⟩ := h
  obtain ⟨taken, ⟨-, code, -, converted⟩ | ⟨e, failed, -⟩⟩ :=
    @convert_alike direction' direction source' target' source target s n' n
  · exact ⟨code, _, converted⟩
  · exact (generated.not_fails failed).elim

end Shapes

end RpcBridge.Client
