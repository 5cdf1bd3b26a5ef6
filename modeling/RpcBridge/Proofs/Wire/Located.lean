import RpcBridge.Proofs.Json.Settled
import RpcBridge.Proofs.Wire.Paths
import RpcBridge.Proofs.Wire.Unsupported

/-!
# Proofs/Wire/Located — errors point at the place that failed

The steps of an error can be followed in the value that was read: each of them leads from what the
others have reached into one of its parts.  There is one exception, and it is in the nature of
things: what is missing is not there, but the object that should have had it is.

* `Json.Leads` — steps that can be followed;
* `WireError.PointsInto` — errors that point at something;
* `pointsInto_decode` — all errors of reading do;
* `Descriptor.located` — what is reported when a value is read or written under a name.
-/

namespace RpcBridge

/-! ## Steps that can be followed -/

/-- A step from a JSON value to one of its parts. -/
inductive Step.Leads : Step → Json → Json → Prop where
  | member {name : String} {members : Members} {j : Json} (there : members.lookup name = some j) :
    Leads (.member name) (.object members) j
  | index {i : Nat} {items : List Json} {j : Json} (there : items[i]? = some j) :
    Leads (.index i) (.array items) j
  | key {name : String} {members : Members} {j : Json} (there : (name, j) ∈ members) :
    Leads (.key name) (.object members) j

/-- A step leads to one part, unless a name is repeated. -/
theorem Step.Leads.unique {step : Step} {j k l : Json} (settled : j.Settled)
    (first : step.Leads j k) (second : step.Leads j l) : k = l := by
  cases first with
  | member there =>
    cases second with
    | member there' => exact Option.some.inj (there.symm.trans there')
  | index there =>
    cases second with
    | index there' => exact Option.some.inj (there.symm.trans there')
  | key there =>
    cases second with
    | key there' =>
      cases settled with
      | object distinct _ =>
        have found := lookup_eq_some_of_mem distinct there
        exact Option.some.inj (found.symm.trans (lookup_eq_some_of_mem distinct there'))

theorem Step.Leads.settled {step : Step} {j k : Json} (settled : j.Settled)
    (first : step.Leads j k) : k.Settled := by
  cases first with
  | member there =>
    cases settled with
    | object _ inner => exact inner _ (mem_of_lookup_eq_some there)
  | index there =>
    cases settled with
    | array inner => exact inner _ (List.mem_of_getElem? there)
  | key there =>
    cases settled with
    | object _ inner => exact inner _ there

/-- Steps that lead, one after the other, from a JSON value to something in it. -/
inductive Json.Leads : Json → List Step → Json → Prop where
  | here (j : Json) : Leads j [] j
  | step {step : Step} {rest : List Step} {j k l : Json} (first : step.Leads j k)
      (others : Leads k rest l) : Leads j (step :: rest) l

/-- **Steps lead to one place**, unless a name is repeated. -/
theorem Json.Leads.unique {steps : List Step} {j k l : Json} (settled : j.Settled)
    (first : j.Leads steps k) (second : j.Leads steps l) : k = l := by
  induction first with
  | here =>
    cases second
    rfl
  | step one _ ih =>
    cases second with
    | step two others =>
      cases one.unique settled two
      exact ih (one.settled settled) others

/-- A value that has no parts. -/
def Json.IsLeaf : Json → Prop
  | .array _ | .object _ => False
  | _ => True

/-! ## Errors that point at something -/

/-- An error whose steps can be followed.  Where something is missing, the last step does not lead
on, because the object that the others reach has no such member. -/
inductive WireError.PointsInto : WireError → Json → Prop where
  | part {steps : List Step} {cause : WireCause} {j k : Json} (there : cause ≠ .missing)
      (leads : j.Leads steps k) : PointsInto ⟨steps, cause⟩ j
  | missing {front : List Step} {name : String} {members : Members} {j : Json}
      (leads : j.Leads front (.object members)) (absent : name ∉ members.map (·.1)) :
    PointsInto ⟨front ++ [.member name], .missing⟩ j

namespace WireError.PointsInto

variable {e : WireError} {j k : Json}

theorem within {step : Step} (first : step.Leads j k) (h : e.PointsInto k) :
    (e.within step).PointsInto j := by
  cases h with
  | part there leads => exact .part there (.step first leads)
  | missing leads absent => exact .missing (.step first leads) absent

/-- An error of a leaf is an error of the whole of it, and would be one of any other value. -/
theorem of_leaf (h : e.PointsInto j) (leaf : j.IsLeaf) (k : Json) : e.PointsInto k := by
  cases h with
  | part there leads =>
    cases leads with
    | here => exact .part there (.here k)
    | step first _ => cases first <;> cases leaf
  | missing leads _ =>
    cases leads with
    | here => cases leaf
    | step first _ => cases first <;> cases leaf

end WireError.PointsInto

namespace Wired

variable {α β : Type} {j k : Json}

/-- An outcome that is no error, or one that points at something. -/
def PointsInto (w : Wired α) (j : Json) : Prop := ∀ e, w = .error e → e.PointsInto j

@[simp] theorem pointsInto_ok (a : α) : PointsInto (.ok a : Wired α) j := fun _ h => nomatch h

theorem pointsInto_fail {cause : WireCause} (there : cause ≠ .missing) :
    PointsInto (fail cause : Wired α) j := by
  rintro e ⟨⟩
  exact .part there (.here j)

theorem Plain.pointsInto {w : Wired α} (h : w.Plain) (j : Json) : w.PointsInto j := by
  rintro ⟨steps, cause⟩ he
  obtain ⟨rfl, there, -⟩ := h _ he
  exact .part there (.here j)

@[simp] theorem pointsInto_mismatch (expected found : String) :
    PointsInto (mismatch expected found : Wired α) j := (plain_mismatch expected found).pointsInto j

theorem PointsInto.bind {w : Wired α} {f : α → Wired β} (first : w.PointsInto j)
    (second : ∀ a, w = .ok a → (f a).PointsInto j) : (w >>= f).PointsInto j := by
  intro e he
  rcases bind_eq_error.1 he with failed | ⟨a, ran, failed⟩
  · exact first e failed
  · exact second a ran e failed

theorem PointsInto.within {w : Wired α} {step : Step} (first : step.Leads j k)
    (h : w.PointsInto k) : (w.within step).PointsInto j := by
  intro e he
  obtain ⟨inner, failed, rfl⟩ := within_eq_error.1 he
  exact (h inner failed).within first

end Wired

namespace Wire

open Wired

/-! ## Reading -/

/-- A member name stands for a value without parts. -/
theorem isLeaf_of_keyJson {key : Shape} {name : String} {j : Json} (h : keyJson key name = .ok j) :
    j.IsLeaf := by
  unfold keyJson at h
  split at h <;> simp only [] at h
  case h_1 | h_2 =>
    split at h
    · next read =>
      obtain ⟨_, -, rfl⟩ := Option.map_eq_some_iff.1 read
      cases h
      trivial
    · cases h
  case h_3 =>
    split at h
    · next read =>
      cases h
      repeat' split at read
      all_goals
        cases read
        try trivial
    · cases h
  case h_4 =>
    split at h
    · cases h
      trivial
    · split at h
      · cases h
        trivial
      · cases h
  case h_5 =>
    cases h
    trivial

/-- The items that are still to come stand behind those that have been read. -/
theorem pointsInto_items {element : Shape} (each : ∀ j, (decode element j).PointsInto j)
    (front js : List Json) :
    (Wired.items (decode element) front.length js).PointsInto (.array (front ++ js)) := by
  induction js generalizing front with
  | nil => exact pointsInto_ok _
  | cons j rest ih =>
    rw [items_cons]
    have first : (Step.index front.length).Leads (.array (front ++ j :: rest)) j :=
      .index (by simp)
    refine ((each j).within first).bind fun _ _ => .bind ?_ fun _ _ => pointsInto_ok _
    simpa using ih (front ++ [j])

theorem pointsInto_decodeItems {items : List Shape}
    (each : ∀ s ∈ items, ∀ j, (decode s j).PointsInto j) (front js : List Json) :
    (decodeItems items front.length js).PointsInto (.array (front ++ js)) := by
  induction items generalizing front js with
  | nil =>
    simp only [decodeItems]
    exact pointsInto_ok _
  | cons s rest ih =>
    rw [List.forall_mem_cons] at each
    cases js with
    | nil =>
      simp only [decodeItems]
      exact pointsInto_ok _
    | cons j js =>
      have first : (Step.index front.length).Leads (.array (front ++ j :: js)) j :=
        .index (by simp)
      rw [decodeItems]
      refine ((each.1 j).within first).bind fun _ _ => .bind ?_ fun _ _ => pointsInto_ok _
      simpa using ih each.2 (front ++ [j]) js

theorem pointsInto_decodeMembers {keyShape : Shape} {key value : Json → Wired Value}
    (keys : ∀ j, (key j).PointsInto j) (values : ∀ j, (value j).PointsInto j) {all ms : Members}
    (part : ∀ m ∈ ms, m ∈ all) :
    (decodeMembers keyShape key value ms).PointsInto (.object all) := by
  induction ms with
  | nil =>
    rw [decodeMembers]
    exact pointsInto_ok _
  | cons m rest ih =>
    rw [List.forall_mem_cons] at part
    rw [decodeMembers]
    refine .bind (.within (.key part.1) ?_) fun _ _ => .bind (ih part.2) fun _ _ => pointsInto_ok _
    refine ((plain_keyJson keyShape m.1).pointsInto m.2).bind fun written named =>
      .bind ?_ fun _ _ => ?_
    · exact fun e failed => (keys written e failed).of_leaf (isLeaf_of_keyJson named) m.2
    · exact (values m.2).bind fun _ _ => pointsInto_ok _

theorem pointsInto_decodeFields {fields : List (String × Shape)}
    (each : ∀ f ∈ fields, ∀ j, (decode f.2 j).PointsInto j) (ms : Members) :
    (decodeFields fields ms).PointsInto (.object ms) := by
  induction fields with
  | nil =>
    rw [decodeFields]
    exact pointsInto_ok _
  | cons f rest ih =>
    rw [List.forall_mem_cons] at each
    rw [decodeFields]
    split
    · next j there =>
      exact ((each.1 j).within (.member there)).bind fun _ _ =>
        (ih each.2).bind fun _ _ => pointsInto_ok _
    · next lacking =>
      split
      · exact (pointsInto_ok _).bind fun _ _ => (ih each.2).bind fun _ _ => pointsInto_ok _
      · refine .bind ?_ fun _ _ => (ih each.2).bind fun _ _ => pointsInto_ok _
        rintro e ⟨⟩
        refine .missing (.here _) fun there => ?_
        obtain ⟨_, found⟩ := exists_lookup there
        cases lacking.symm.trans found

/-- **Every error of reading points at something** in the value that is read. -/
theorem pointsInto_decode (s : Shape) (j : Json) : (decode s j).PointsInto j := by
  induction s generalizing j with
  | scalar kind =>
    rw [decode]
    exact (plain_decodeScalar kind j).pointsInto j
  | temporal kind =>
    rw [decode]
    exact (plain_decodeTemporal kind j).pointsInto j
  | enum e =>
    rw [decode]
    exact (plain_decodeEnum e j).pointsInto j
  | list element ih =>
    cases j <;> rw [decode]
    case array js => exact (pointsInto_items ih [] js).bind fun _ _ => pointsInto_ok _
    all_goals simp
  | tuple items ih =>
    cases j <;> rw [decode]
    case array js =>
      split
      · exact (pointsInto_decodeItems ih [] js).bind fun _ _ => pointsInto_ok _
      · exact pointsInto_mismatch _ _
    all_goals simp
  | mapping key value ihKey ihValue =>
    cases j <;> rw [decode]
    case object members =>
      exact (pointsInto_decodeMembers ihKey ihValue fun _ => id).bind fun _ _ => pointsInto_ok _
    all_goals simp
  | optional inner ih =>
    cases j with
    | null => exact pointsInto_ok _
    | _ => exact ih _
  | record name fields ih | bareTemplate _ name fields ih | opened _ name fields ih =>
    cases j <;> rw [decode]
    case object members =>
      exact (pointsInto_decodeFields ih members).bind fun _ _ => pointsInto_ok _
    all_goals simp
  | wrapper name field inner ih =>
    rw [decode]
    exact ih j
  | blocked d obstacle =>
    rw [decode]
    refine pointsInto_fail ?_
    rintro ⟨⟩

end Wire

/-! ## Reports -/

/-- **Errors point at the place that failed**: what is reported under a name for the whole value is
the path of steps that can be followed from there, up to a member that is missing.  Nothing else
depends on the name, neither in reading nor in writing. -/
theorem Descriptor.located (d : Descriptor) :
    (∀ root j failure, d.decodeUnder root j = .error failure → ∃ steps,
      failure.path = root ++ Step.render steps ∧ d.decode j = .error ⟨steps, failure.cause⟩ ∧
        (WireError.mk steps failure.cause).PointsInto j) ∧
    (∀ root root' j, Reported.Alike root root' (d.decodeUnder root j) (d.decodeUnder root' j)) ∧
    ∀ root root' v, Reported.Alike root root' (d.encodeUnder root v) (d.encodeUnder root' v) := by
  refine ⟨fun root j failure failed => ?_, fun root root' j => ?_, fun root root' v => ?_⟩
  · rw [decodeUnder_eq] at failed
    cases read : d.decode j with
    | ok v =>
      rw [read] at failed
      cases failed
    | error e =>
      rw [read] at failed
      cases failed
      exact ⟨e.steps, rfl, rfl, Wire.pointsInto_decode d.shape j e read⟩
  · rw [decodeUnder_eq, decodeUnder_eq]
    exact Wired.alike_under root root' _
  · rw [encodeUnder_eq, encodeUnder_eq]
    exact Wired.alike_under root root' _

/-- A sheet whose second row has no number, and one whose row has hours for a day that is no
number. -/
theorem Descriptor.located_sheet :
    let row := record "Row"
      [("id", .scalar .int), ("hours", .mapping (.scalar .int) (.scalar .int))] false
    let sheet := record "Sheet" [("rows", .list row)] false
    let lacking := Json.object [("rows", .array [
      .object [("id", .ofInt64 1), ("hours", .object [])], .object [("hours", .object [])]])]
    let unread := Json.object [("rows", .array [
      .object [("id", .ofInt64 1), ("hours", .object [("4", .ofInt64 8), ("May", .null)])]])]
    sheet.decodeUnder "params" lacking = .error ⟨"params.rows[1].id", .missing⟩ ∧
      (∃ steps, "params.rows[1].id" = "params" ++ Step.render steps ∧
        sheet.decode lacking = .error ⟨steps, .missing⟩ ∧
        (WireError.mk steps .missing).PointsInto lacking) ∧
      sheet.decodeUnder "$" unread =
        .error ⟨"$.rows[0].hours[May]", .invalidLiteral "int" "May"⟩ ∧
      Reported.Alike "$" "data" (sheet.decodeUnder "$" unread)
        (sheet.decodeUnder "data" unread) := by
  intro row sheet lacking unread
  have failed :
      sheet.decodeUnder "params" lacking = .error ⟨"params.rows[1].id", .missing⟩ := rfl
  obtain ⟨points, alike, -⟩ := located sheet
  exact ⟨failed, points "params" lacking _ failed, rfl, alike "$" "data" unread⟩

end RpcBridge
