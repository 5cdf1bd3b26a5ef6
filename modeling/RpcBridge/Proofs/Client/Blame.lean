import RpcBridge.Proofs.Client.Generation

/-!
# Proofs/Client/Blame — why no conversion is generated

A conversion that cannot be generated fails at some part of its shape: at an obstacle, at a template
without arguments, at a transparent record that has not one field, or at a field whose name cannot
be used.  The fields on the way there wrap the error, but its root tells which part it was.

* `Shape.Refuses` — the errors that some part of a shape gives rise to;
* `blames_convert` — a conversion fails with no other errors.
-/

namespace RpcBridge

open Client

/-- An error that the generator meets somewhere in a shape.  It does not look into a template
without arguments. -/
inductive Shape.Refuses : Shape → ExportError → Prop where
  | blocked (d : Descriptor) (obstacle : Obstacle) :
    Refuses (.blocked d obstacle) (.unsupported d (.obstacle obstacle))
  | bareTemplate (origin : Descriptor) (name : String) (fields : List (String × Shape)) :
    Refuses (.bareTemplate origin name fields) (.unsupported origin (.bareTemplate name))
  | opening (origin : Descriptor) (name : String) (fields : List (String × Shape)) :
    Refuses (.opened origin name fields)
      (.unsupported origin (.obstacle (.malformed (.wrappedFields name fields.length))))
  | named {name : String} {fields : List (String × Shape)} {f : String × Shape} (hf : f ∈ fields)
    (unusable : isIdentifier f.1 = false) : Refuses (.record name fields) (.invalidName f.1)
  | list {element : Shape} {e : ExportError} (inner : element.Refuses e) :
    Refuses (.list element) e
  | tuple {items : List Shape} {s : Shape} {e : ExportError} (hs : s ∈ items)
    (inner : s.Refuses e) : Refuses (.tuple items) e
  | key {key value : Shape} {e : ExportError} (inner : key.Refuses e) :
    Refuses (.mapping key value) e
  | value {key value : Shape} {e : ExportError} (inner : value.Refuses e) :
    Refuses (.mapping key value) e
  | optional {inner : Shape} {e : ExportError} (present : inner.Refuses e) :
    Refuses (.optional inner) e
  | record {name : String} {fields : List (String × Shape)} {f : String × Shape} {e : ExportError}
    (hf : f ∈ fields) (inner : f.2.Refuses e) : Refuses (.record name fields) e
  | wrapper {name field : String} {inner : Shape} {e : ExportError} (wrapped : inner.Refuses e) :
    Refuses (.wrapper name field inner) e
  | opened {origin : Descriptor} {name : String} {fields : List (String × Shape)}
    {f : String × Shape} {e : ExportError} (hf : f ∈ fields) (inner : f.2.Refuses e) :
    Refuses (.opened origin name fields) e

namespace Client

namespace Generating

variable {α β : Type} {s part : Shape}

/-- A step that fails, if at all, with an error that a shape gives rise to. -/
def Blames (s : Shape) (step : Generating α) : Prop :=
  ∀ n e m, Fails step n e m → s.Refuses e.root

namespace Blames

theorem pure (s : Shape) (a : α) : Blames s (Pure.pure a) :=
  fun _ _ _ h => (not_fails_pure h).elim

theorem temp (s : Shape) (letter : String) : Blames s (Generating.temp letter) :=
  fun _ _ _ h => (not_fails_temp h).elim

theorem fail {d : Descriptor} {reason : Refusal} (h : s.Refuses (.unsupported d reason)) :
    Blames s (Generating.fail (.unsupported d reason) : Generating α) := by
  intro n e m failed
  obtain ⟨rfl, -⟩ := fails_fail.1 failed
  exact h

/-- The check of the name of a field. -/
theorem check {name : String} (h : isIdentifier name = false → s.Refuses (.invalidName name)) :
    Blames s (Generating.lift (checkIdentifier name)) := by
  intro n e m failed
  have refused := (fails_lift.1 failed).1
  unfold checkIdentifier at refused
  split at refused
  · cases refused
  · next unusable =>
    cases refused
    exact h (Bool.eq_false_iff.2 unusable)

theorem inField {step : Generating α} (h : Blames s step) (record field : String) :
    Blames s (Generating.inField record field step) := by
  intro n e m wrapped
  obtain ⟨inner, rfl, failed⟩ := fails_inField.1 wrapped
  exact h n inner m failed

theorem bind {x : Generating α} {f : α → Generating β} (first : Blames s x)
    (second : ∀ a, Blames s (f a)) : Blames s (x >>= f) := by
  intro n e m failed
  rcases fails_bind.1 failed with failed | ⟨a, between, -, failed⟩
  · exact first n e m failed
  · exact second a between e m failed

/-- What is blamed on a part is blamed on the whole. -/
theorem whole {step : Generating α} (h : Blames part step)
    (up : ∀ e, part.Refuses e → s.Refuses e) : Blames s step :=
  fun n e m failed => up _ (h n e m failed)

end Blames

end Generating

/-! ## Conversions -/

open Generating

section Shapes

variable {direction : Direction} {source target : Place} {s : Shape}

theorem blames_convertItems {items : List Shape}
    (each : ∀ item ∈ items, ∀ {source target}, Blames s (convert direction item source target))
    (start : Nat) : Blames s (convertItems direction items start source target) := by
  induction items generalizing start with
  | nil => exact .pure _ _
  | cons item rest ih =>
    rw [List.forall_mem_cons] at each
    rw [convertItems]
    exact each.1.bind fun _ => (ih each.2 _).bind fun _ => .pure _ _

theorem blames_convertFields {record : String} {fields : List (String × Shape)}
    (named : ∀ f ∈ fields, isIdentifier f.1 = false → s.Refuses (.invalidName f.1))
    (each : ∀ f ∈ fields, ∀ {source target}, Blames s (convert direction f.2 source target)) :
    Blames s (convertFields direction record fields source target) := by
  induction fields with
  | nil => exact .pure _ _
  | cons f rest ih =>
    rw [List.forall_mem_cons] at named each
    rw [convertFields]
    refine ((Blames.check named.1).inField _ _).bind fun _ => ?_
    exact (each.1.inField _ _).bind fun _ => (ih named.2 each.2).bind fun _ => .pure _ _

theorem blames_convert_opened {origin : Descriptor} {name : String}
    {fields : List (String × Shape)}
    (each : ∀ f ∈ fields, ∀ {source target}, Blames f.2 (convert direction f.2 source target)) :
    Blames (.opened origin name fields)
      (convert direction (.opened origin name fields) source target) := by
  match fields with
  | [(field, inner)] =>
    have listed : (field, inner) ∈ [(field, inner)] := List.mem_singleton_self _
    rw [convert]
    exact ((each _ listed).inField _ _).whole fun _ => .opened listed
  | [] | _ :: _ :: _ =>
    simp only [convert]
    exact .fail (.opening _ _ _)

/-- **A conversion fails only with an error that its shape gives rise to.** -/
theorem blames_convert (s : Shape) : Blames s (convert direction s source target) := by
  induction s generalizing source target with
  | scalar | enum | temporal =>
    rw [convert]
    exact .pure _ _
  | list element ih =>
    rw [convert]
    exact (Blames.temp _ _).bind fun _ => (ih.whole fun _ => .list).bind fun _ => .pure _ _
  | mapping key value ihKey ihValue =>
    rw [convert]
    refine (Blames.temp _ _).bind fun _ => (Blames.temp _ _).bind fun _ => ?_
    refine (ihKey.whole fun _ => .key).bind fun _ => ?_
    exact (ihValue.whole fun _ => .value).bind fun _ => .pure _ _
  | tuple items ih =>
    rw [convert]
    exact (blames_convertItems (fun s hs => (ih s hs).whole fun _ => .tuple hs) 0).bind
      fun _ => .pure _ _
  | optional inner ih =>
    rw [convert]
    exact (ih.whole fun _ => .optional).bind fun _ => .pure _ _
  | record name fields ih =>
    rw [convert]
    exact (blames_convertFields (fun f hf => .named hf)
      fun f hf => (ih f hf).whole fun _ => .record hf).bind fun _ => .pure _ _
  | wrapper name field inner ih =>
    rw [convert]
    exact (ih.inField _ _).whole fun _ => .wrapper
  | opened origin name fields ih => exact blames_convert_opened fun f hf => ih f hf
  | bareTemplate =>
    rw [convert]
    exact .fail (.bareTemplate _ _ _)
  | blocked =>
    rw [convert]
    exact .fail (.blocked _ _)

end Shapes

end Client

end RpcBridge
