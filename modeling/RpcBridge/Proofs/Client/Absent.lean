import RpcBridge.Proofs.Client.Image
import RpcBridge.Proofs.Client.Keys
import RpcBridge.Proofs.Client.Restore

/-!
# Proofs/Client/Absent — restoring what is not there, or what does not change

A service leaves out what is absent, so generated code comes across members that are missing, and
members of members that are missing.  Some shapes pass them over, others break off; the shape alone
decides which.

* `restore_nowhere`, `restore_missing` — which shapes pass over what is not there;
* `restore_idle` — a shape that does not change leaves everything as it is;
* `restore_grows` — nothing that has been read gets lost.
-/

namespace RpcBridge

namespace Shape

mutual

/-- Whether the conversion of a member of an absent value passes over it. -/
def passesNowhere (same : Bool) : Shape → Bool
  | .scalar _ | .enum _ => same
  | .temporal _ | .optional _ => false
  | .list element => same && !element.changes .back
  | .mapping key value => same && !(key.changes .back || value.changes .back)
  | .tuple items => itemsPass same items
  | .record _ fields | .opened _ _ fields => fieldsPass same fields
  | .wrapper _ _ inner => inner.passesNowhere same
  | .bareTemplate _ _ _ | .blocked _ _ => true

/-- The same of the items of a tuple. -/
def itemsPass (same : Bool) : List Shape → Bool
  | [] => true
  | s :: rest => s.passesNowhere same && itemsPass same rest

/-- The same of the fields of a record. -/
def fieldsPass (same : Bool) : List (String × Shape) → Bool
  | [] => true
  | (_, s) :: rest => s.passesNowhere same && fieldsPass same rest

end

/-- Whether the conversion of a member that is missing passes over it. -/
def passesMissing (same : Bool) : Shape → Bool
  | .temporal _ => false
  | .tuple items => itemsPass same items
  | .record _ fields => fieldsPass same fields
  | .optional inner | .wrapper _ _ inner | .opened _ _ [(_, inner)] => inner.passesMissing same
  | _ => true

/-- The items of a tuple as the fields of a record, counting from `start`. -/
def numbered (start : Nat) : List Shape → List (String × Shape)
  | [] => []
  | s :: rest => (toString start, s) :: numbered (start + 1) rest

theorem mem_numbered {start : Nat} {items : List Shape} {f : String × Shape}
    (h : f ∈ numbered start items) : f.2 ∈ items := by
  induction items generalizing start with
  | nil => cases h
  | cons s rest ih =>
    rcases List.mem_cons.1 h with rfl | h
    · exact List.mem_cons_self ..
    · exact List.mem_cons_of_mem _ (ih h)

/-- Items are passed over exactly if the fields they are numbered as are. -/
theorem itemsPass_eq (same : Bool) (start : Nat) (items : List Shape) :
    itemsPass same items = fieldsPass same (numbered start items) := by
  induction items generalizing start with
  | nil => rw [itemsPass, numbered, fieldsPass]
  | cons s rest ih => rw [itemsPass, numbered, fieldsPass, ih]

end Shape

namespace Client

variable {same strict : Bool}

/-- A tuple is converted like a record whose fields are numbered. -/
theorem restoreItems_eq (same : Bool) (start : Nat) (items : List Shape) :
    restoreItems same start items = restoreFields same (Shape.numbered start items) := by
  induction items generalizing start with
  | nil => rw [restoreItems, Shape.numbered, restoreFields]
  | cons s rest ih => rw [restoreItems, Shape.numbered, restoreFields, ih]

/-! ## What is not there -/

/-- A conversion that passes over what it finds, or breaks off. -/
def Passes (b : Bool) (P : View → Prop) (r : Restored View) : Prop :=
  (b = true ∧ ∃ w, r = .ok w ∧ P w) ∨ (b = false ∧ ∃ fault, r = .error (some fault))

/-- The fields of what has no members are passed over if each of them is. -/
theorem walk_restoreFields_passes {fields : List (String × Shape)} {w : View}
    (memberless : ∀ key, w.member key = .nowhere)
    (each : ∀ f ∈ fields,
      Passes (f.2.passesNowhere same) (· = .nowhere) (restore same f.2 .nowhere)) :
    Passes (Shape.fieldsPass same fields) (· = w) (w.walk (restoreFields same fields)) := by
  induction fields with
  | nil =>
    rw [Shape.fieldsPass, restoreFields, View.walk]
    exact Or.inl ⟨rfl, w, rfl, rfl⟩
  | cons f rest ih =>
    rw [List.forall_mem_cons] at each
    rw [Shape.fieldsPass, restoreFields, View.walk, View.inside, memberless]
    rcases each.1 with ⟨passes, _, ran, rfl⟩ | ⟨stops, fault, ran⟩
    · rw [passes, ran, Bool.true_and]
      exact ih each.2
    · rw [stops, ran, Bool.false_and]
      exact Or.inr ⟨rfl, fault, rfl⟩

/-- A copy of nothing breaks off, unless it goes to where it comes from. -/
theorem copy_nowhere (same : Bool) :
    Passes same (· = .nowhere) (View.copy same .nowhere) := by
  cases same
  · exact Or.inr ⟨rfl, _, rfl⟩
  · exact Or.inl ⟨rfl, _, rfl, rfl⟩

/-- **Members of absent values**: they are passed over where nothing is read or written. -/
theorem restore_nowhere {s : Shape} (supported : s.Supported)
    (kept : s.keysKept .back strict = true) :
    Passes (s.passesNowhere same) (· = .nowhere) (restore same s .nowhere) := by
  induction s generalizing strict with
  | scalar | enum =>
    rw [Shape.passesNowhere, restore]
    exact copy_nowhere same
  | temporal | optional =>
    rw [Shape.passesNowhere, restore]
    exact Or.inr ⟨rfl, _, rfl⟩
  | list element =>
    rw [Shape.passesNowhere, restore]
    cases element.changes .back
    · simpa using copy_nowhere same
    · simp only [Bool.not_true, Bool.and_false]
      exact Or.inr ⟨rfl, _, rfl⟩
  | mapping key value =>
    rw [Shape.passesNowhere, restore]
    cases key.changes .back || value.changes .back
    · simpa using copy_nowhere same
    · simp only [Bool.not_true, Bool.and_false]
      exact Or.inr ⟨rfl, _, rfl⟩
  | tuple items ih =>
    rw [Shape.passesNowhere, Shape.itemsPass_eq same 0, restore, restoreItems_eq]
    rw [Shape.keysKept, Shape.itemsKept_iff] at kept
    cases supported with
    | tuple inner =>
      refine walk_restoreFields_passes (fun _ => rfl) fun f hf => ?_
      have item := Shape.mem_numbered hf
      exact ih f.2 item (inner f.2 item) (kept f.2 item)
  | record name fields ih =>
    rw [Shape.passesNowhere, restore]
    rw [Shape.keysKept, Shape.fieldsKept_iff] at kept
    cases supported with
    | record inner =>
      exact walk_restoreFields_passes (fun _ => rfl) fun f hf => ih f hf (inner f hf) (kept f hf)
  | wrapper _ _ inner ih =>
    rw [Shape.passesNowhere, restore]
    cases supported with
    | wrapper wrapped => exact ih wrapped kept
  | opened _ _ fields ih =>
    cases supported with
    | opened wrapped =>
      rw [Shape.keysKept, Shape.fieldsKept_iff] at kept
      rw [Shape.passesNowhere, Shape.fieldsPass, Shape.fieldsPass, Bool.and_true, restore]
      exact ih _ (List.mem_singleton.2 rfl) wrapped (kept _ (List.mem_singleton.2 rfl))
  | bareTemplate | blocked => cases supported

/-- A slot that is missing, or holds undefined. -/
def View.IsUndefined (w : View) : Prop :=
  ∃ content, w = .slot content ∧ content.getD (.atom .undefined) = .atom .undefined

theorem View.isUndefined_missing : (View.slot none).IsUndefined := ⟨none, rfl, rfl⟩

/-- A missing member that nothing touches. -/
theorem passes_untouched : Passes true View.IsUndefined (.ok (.slot none)) :=
  Or.inl ⟨rfl, _, rfl, View.isUndefined_missing⟩

/-- A copy of a missing member leaves undefined behind, or nothing. -/
theorem passes_copied : Passes true View.IsUndefined (View.copy same (.slot none)) := by
  cases same
  · exact Or.inl ⟨rfl, _, rfl, some (.atom .undefined), rfl, rfl⟩
  · exact passes_untouched

/-- The fields of a record that is missing. -/
theorem passes_fields {fields : List (String × Shape)} (inner : ∀ f ∈ fields, f.2.Supported)
    (kept : ∀ f ∈ fields, f.2.keysKept .back strict = true) :
    Passes (Shape.fieldsPass same fields) View.IsUndefined
      (View.walk (restoreFields same fields) (.slot none)) := by
  rcases walk_restoreFields_passes (w := .slot none) (fun _ => rfl) fun f hf =>
      @restore_nowhere same strict f.2 (inner f hf) (kept f hf) with ⟨passes, _, ran, rfl⟩ | stops
  · exact Or.inl ⟨passes, _, ran, View.isUndefined_missing⟩
  · exact Or.inr stops

/-- A dictionary that is missing has no entries to convert. -/
theorem passes_mapping {key value : Shape} (keys : key.changes .back = false) :
    Passes true View.IsUndefined (restore same (.mapping key value) (.slot none)) := by
  rw [restore, keys]
  cases value.changes .back
  · exact passes_copied
  · have known : (!false && (key.isPlainKey || (Tree.atom .undefined).keys.isEmpty)) = true := by
      simp [Tree.keys]
    simp only [View.read, Option.getD_none, ok_bind, known, Bool.or_true, if_true]
    exact passes_untouched

/-- **Members that are missing**: nothing appears in their place but undefined. -/
theorem restore_missing {s : Shape} (supported : s.Supported)
    (kept : s.keysKept .back strict = true) :
    Passes (s.passesMissing same) View.IsUndefined (restore same s (.slot none)) := by
  induction s generalizing strict with
  | scalar | enum =>
    rw [Shape.passesMissing, restore]
    · exact passes_copied
    all_goals (intros; contradiction)
  | temporal kind =>
    rw [Shape.passesMissing, restore]
    exact Or.inr ⟨rfl, _, rfl⟩
  | list element =>
    rw [Shape.passesMissing, restore]
    · cases element.changes .back
      · exact passes_copied
      · exact passes_untouched
    all_goals (intros; contradiction)
  | mapping key value =>
    rw [Shape.keysKept, Bool.and_eq_true, Bool.and_eq_true, Bool.not_eq_true'] at kept
    rw [Shape.passesMissing]
    · exact passes_mapping kept.1.1
    all_goals (intros; contradiction)
  | tuple items ih =>
    rw [Shape.keysKept, Shape.itemsKept_iff] at kept
    rw [Shape.passesMissing, Shape.itemsPass_eq same 0, restore, restoreItems_eq]
    cases supported with
    | tuple inner =>
      exact passes_fields (fun f hf => inner f.2 (Shape.mem_numbered hf)) fun f hf =>
        kept f.2 (Shape.mem_numbered hf)
  | optional inner ih =>
    rw [Shape.passesMissing, restore]
    cases supported with
    | optional present => exact ih present kept
  | record name fields ih =>
    rw [Shape.keysKept, Shape.fieldsKept_iff] at kept
    rw [Shape.passesMissing, restore]
    cases supported with
    | record inner => exact passes_fields inner kept
  | wrapper _ _ inner ih =>
    rw [Shape.passesMissing, restore]
    cases supported with
    | wrapper wrapped => exact ih wrapped kept
  | opened _ _ fields ih =>
    cases supported with
    | opened wrapped =>
      rw [Shape.keysKept, Shape.fieldsKept_iff] at kept
      rw [Shape.passesMissing, restore]
      exact ih _ (List.mem_singleton.2 rfl) wrapped (kept _ (List.mem_singleton.2 rfl))
  | bareTemplate | blocked => cases supported

/-! ## What does not change -/

/-- A member that is put back changes nothing. -/
theorem View.replace_member (key : String) (w : View) : (w.member key).replace key w = w := by
  match w with
  | .slot (some (.node isArray members)) =>
    simp only [member, Option.getD_some, ofMember]
    cases h : members.lookup key with
    | none => rfl
    | some t => rw [replace, putEntry_self h]
  | .slot (some (.atom a)) =>
    simp only [member, Option.getD_some, ofMember]
    cases a.isAbsent <;> rfl
  | .slot none | .shut | .nowhere => rfl

/-- A walk whose steps do nothing does nothing. -/
theorem walk_restoreFields_idle {fields : List (String × Shape)} {w : View}
    (each : ∀ f ∈ fields, ∀ w, restore true f.2 w = .ok w) :
    w.walk (restoreFields true fields) = .ok w := by
  induction fields with
  | nil => rw [restoreFields, View.walk]
  | cons f rest ih =>
    rw [List.forall_mem_cons] at each
    rw [restoreFields, View.walk, View.inside, each.1, ok_bind, pure_eq_ok, ok_bind,
      View.replace_member, ih each.2]

/-- **A shape that does not change leaves everything as it is.** -/
theorem restore_idle {s : Shape} (supported : s.Supported) (unchanged : s.changes .back = false)
    (w : View) : restore true s w = .ok w := by
  induction s generalizing w with
  | scalar | enum =>
    rw [restore]
    rfl
  | temporal | optional => cases unchanged
  | list element =>
    rw [Shape.changes] at unchanged
    rw [restore, unchanged]
    rfl
  | mapping key value =>
    rw [Shape.changes] at unchanged
    rw [restore, unchanged]
    rfl
  | tuple items ih =>
    rw [Shape.changes] at unchanged
    rw [restore, restoreItems_eq]
    cases supported with
    | tuple inner =>
      refine walk_restoreFields_idle fun f hf w => ?_
      have item := Shape.mem_numbered hf
      exact ih f.2 item (inner f.2 item) (anyItem_eq_false unchanged f.2 item) w
  | record name fields ih =>
    rw [Shape.changes] at unchanged
    rw [restore]
    cases supported with
    | record inner =>
      exact walk_restoreFields_idle fun f hf w =>
        ih f hf (inner f hf) (anyField_eq_false unchanged f hf) w
  | wrapper _ _ inner ih =>
    rw [Shape.changes] at unchanged
    rw [restore]
    cases supported with
    | wrapper wrapped => exact ih wrapped unchanged w
  | opened _ _ fields ih =>
    rw [Shape.changes] at unchanged
    cases supported with
    | opened wrapped =>
      rw [restore]
      exact ih _ (List.mem_singleton.2 rfl) wrapped
        (anyField_eq_false unchanged _ (List.mem_singleton.2 rfl)) w
  | bareTemplate | blocked => cases supported

/-! ## What is kept -/

/-- What is found now is at least what was found before: a slot that was there is there, and holds
a value that is at least as deep. -/
inductive View.Grows : View → View → Prop where
  | slot {before after : Option Tree} (stays : after = none → before = none)
    (deeper : (before.getD (.atom .undefined)).depth ≤ (after.getD (.atom .undefined)).depth) :
    Grows (.slot before) (.slot after)
  | shut : Grows .shut .shut
  | nowhere : Grows .nowhere .nowhere

namespace View.Grows

theorem refl (w : View) : w.Grows w := by
  cases w with
  | slot content => exact .slot id (Nat.le_refl _)
  | shut => exact .shut
  | nowhere => exact .nowhere

/-- What grows twice has grown. -/
theorem trans {w w' w'' : View} (first : w.Grows w') (second : w'.Grows w'') : w.Grows w'' := by
  cases first with
  | slot stays deeper =>
    cases second with
    | slot stays' deeper' =>
      exact .slot (fun none => stays (stays' none)) (Nat.le_trans deeper deeper')
  | shut => exact second
  | nowhere => exact second

/-- Where a member grows, the whole grows. -/
theorem replace {key : String} {w part : View} (h : (w.member key).Grows part) :
    w.Grows (part.replace key w) := by
  match w with
  | .slot (some (.node isArray members)) =>
    have view : (View.slot (some (.node isArray members))).member key =
        .slot (members.lookup key) := rfl
    rw [view] at h
    cases h with
    | @slot _ content stays deeper =>
      match content with
      | none => exact refl _
      | some t =>
        refine .slot nofun (Tree.depth_node_le fun m hm => Or.inr ?_)
        obtain ⟨front, back, parts, put⟩ := exists_putEntry members key
        rw [put]
        rw [parts] at hm
        rcases List.mem_append.1 hm with hm | hm
        · rcases List.mem_append.1 hm with hm | hm
          · exact ⟨m, List.mem_append_left _ hm, Nat.le_refl _⟩
          · refine ⟨(key, t), List.mem_append_right _ (List.mem_cons_self ..), ?_⟩
            cases found : members.lookup key with
            | none =>
              rw [found] at hm
              cases hm
            | some old =>
              rw [found] at hm deeper
              obtain rfl := List.mem_singleton.1 hm
              exact deeper
        · exact ⟨m, List.mem_append_right _ (List.mem_cons_of_mem _ hm), Nat.le_refl _⟩
  | .slot (some (.atom a)) =>
    have whole : part.replace key (.slot (some (.atom a))) = .slot (some (.atom a)) := by
      rcases part with ⟨_ | _⟩ | _ | _ <;> rfl
    rw [whole]
    exact refl _
  | .slot none | .shut | .nowhere =>
    cases h
    exact refl _

end View.Grows

/-- A conversion under which everything grows, or which breaks off. -/
def Tame (f : View → Restored View) : Prop :=
  ∀ w, (∃ w', f w = .ok w' ∧ w.Grows w') ∨ ∃ fault, f w = .error (some fault)

namespace Tame

variable {f : View → Restored View}

/-- A copy leaves everything as it is. -/
theorem copy (same : Bool) : Tame (View.copy same) := by
  intro w
  cases same with
  | true => exact Or.inl ⟨w, rfl, .refl w⟩
  | false =>
    cases w with
    | slot content => exact Or.inl ⟨_, rfl, .slot (by rintro ⟨⟩) (Nat.le_refl _)⟩
    | shut => exact Or.inr ⟨_, rfl⟩
    | nowhere => exact Or.inr ⟨_, rfl⟩

/-- A text becomes a moment, which is as deep; nothing else is decoded. -/
theorem decode (kind : TemporalKind) :
    Tame (fun w => do w.write (← (← w.read).decoded kind)) := by
  intro w
  match w with
  | .slot content =>
    cases h : content.getD (.atom .undefined) with
    | node =>
      right
      simp only [View.read, h, ok_bind, Tree.decoded]
      exact ⟨_, rfl⟩
    | atom a =>
      cases a with
      | string s =>
        left
        simp only [View.read, h, ok_bind, Tree.decoded]
        refine ⟨_, rfl, .slot (by rintro ⟨⟩) ?_⟩
        rw [h]
        exact Nat.le_refl _
      | _ =>
        right
        simp only [View.read, h, ok_bind, Tree.decoded]
        exact ⟨_, rfl⟩
  | .shut | .nowhere => exact Or.inr ⟨_, rfl⟩

/-- Inside a member, everything else stays as it is. -/
theorem inside (tame : Tame f) (key : String) (w : View) :
    (∃ w', w.inside f key = .ok w' ∧ w.Grows w') ∨
      ∃ fault, w.inside f key = .error (some fault) := by
  rcases tame (w.member key) with ⟨part, ran, grows⟩ | ⟨fault, ran⟩
  · left
    refine ⟨part.replace key w, ?_, grows.replace⟩
    rw [View.inside, ran, ok_bind, pure_eq_ok]
  · right
    refine ⟨fault, ?_⟩
    rw [View.inside, ran, error_bind]

/-- A walk of tame steps is tame. -/
theorem walk {steps : List (String × (View → Restored View))} (tame : ∀ step ∈ steps, Tame step.2) :
    Tame (View.walk steps) := by
  induction steps with
  | nil => exact fun w => Or.inl ⟨w, by rw [View.walk], .refl w⟩
  | cons step rest ih =>
    intro w
    rw [List.forall_mem_cons] at tame
    rw [View.walk]
    rcases tame.1.inside step.1 w with ⟨w', ran, grows⟩ | ⟨fault, ran⟩
    · rw [ran, ok_bind]
      rcases ih tame.2 w' with ⟨w'', ran, more⟩ | stops
      · exact Or.inl ⟨w'', ran, grows.trans more⟩
      · exact Or.inr stops
    · rw [ran, error_bind]
      exact Or.inr ⟨fault, rfl⟩

/-- A tame conversion of every member is tame. -/
theorem each (tame : Tame f) : Tame (View.each f) := by
  intro w
  have walked (keys : List String) : Tame (View.walk (keys.map fun key => (key, f))) :=
    walk fun step hstep => by
      obtain ⟨key, -, rfl⟩ := List.mem_map.1 hstep
      exact tame
  cases w with
  | slot content => exact walked _ _
  | shut => exact walked _ _
  | nowhere => exact Or.inr ⟨_, rfl⟩

end Tame

/-- Each step of a walk over fields is the conversion of one of them. -/
theorem mem_restoreFields {fields : List (String × Shape)}
    {step : String × (View → Restored View)} (h : step ∈ restoreFields same fields) :
    ∃ f ∈ fields, step = (f.1, restore same f.2) := by
  induction fields with
  | nil =>
    rw [restoreFields] at h
    cases h
  | cons f rest ih =>
    rw [restoreFields] at h
    rcases List.mem_cons.1 h with rfl | h
    · exact ⟨f, List.mem_cons_self .., rfl⟩
    · obtain ⟨g, hg, same⟩ := ih h
      exact ⟨g, List.mem_cons_of_mem _ hg, same⟩

/-- A walk over fields is tame if the conversions of the fields are. -/
theorem tame_fields {fields : List (String × Shape)}
    (each : ∀ f ∈ fields, Tame (restore same f.2)) : Tame (View.walk (restoreFields same fields)) := by
  refine Tame.walk fun step hstep => ?_
  obtain ⟨f, hf, rfl⟩ := mem_restoreFields hstep
  exact each f hf

/-- A dictionary whose keys can stay is walked entry by entry. -/
theorem tame_mapping {key value : Shape} (plain : key.isPlainKey = true)
    (keys : key.changes .back = false) (values : Tame (restore false value)) :
    Tame (restore same (.mapping key value)) := by
  intro w
  rw [restore]
  split
  · cases hread : w.read with
    | error fault =>
      cases w with
      | nowhere =>
        cases hread
        exact Or.inr ⟨_, rfl⟩
      | slot | shut => cases hread
    | ok t =>
      simp only [ok_bind, keys, plain, Bool.not_false, Bool.true_or, Bool.and_self, if_true]
      exact values.each w
  · exact Tame.copy same w

/-- A null becomes undefined, which is as deep; anything else is converted. -/
theorem tame_optional {inner : Shape} (tame : Tame (restore same inner)) :
    Tame (restore same (.optional inner)) := by
  intro w
  rw [restore]
  cases w with
  | slot content =>
    rw [View.read, ok_bind]
    split
    · next isNull =>
      refine Or.inl ⟨_, rfl, .slot (by rintro ⟨⟩) ?_⟩
      unfold Tree.isNull at isNull
      split at isNull
      · next null =>
        rw [null]
        exact Nat.le_refl _
      · cases isNull
    · exact tame (.slot content)
  | shut => exact tame .shut
  | nowhere => exact Or.inr ⟨_, rfl⟩

/-- **Nothing that has been read gets lost.** -/
theorem restore_grows (same : Bool) {s : Shape} (supported : s.Supported)
    (kept : s.keysKept .back true = true) : Tame (restore same s) := by
  induction s generalizing same with
  | scalar | enum =>
    intro w
    rw [restore]
    exact Tame.copy same w
  | temporal kind =>
    intro w
    rw [restore]
    exact Tame.decode kind w
  | list element ih =>
    intro w
    cases supported with
    | list inner =>
      rw [restore]
      split
      · exact (ih same inner kept).each w
      · exact Tame.copy same w
  | mapping key value _ ihValue =>
    rw [Shape.keysKept, Bool.and_eq_true, Bool.and_eq_true, Bool.not_eq_true', Bool.not_true,
      Bool.false_or] at kept
    cases supported with
    | mapping keys values => exact tame_mapping kept.1.2 kept.1.1 (ihValue false values kept.2)
  | tuple items ih =>
    intro w
    rw [Shape.keysKept, Shape.itemsKept_iff] at kept
    rw [restore, restoreItems_eq]
    cases supported with
    | tuple inner =>
      refine tame_fields (fun f hf => ?_) w
      have item := Shape.mem_numbered hf
      exact ih f.2 item same (inner f.2 item) (kept f.2 item)
  | optional inner ih =>
    cases supported with
    | optional present => exact tame_optional (ih same present kept)
  | record name fields ih =>
    intro w
    rw [Shape.keysKept, Shape.fieldsKept_iff] at kept
    rw [restore]
    cases supported with
    | record inner => exact tame_fields (fun f hf => ih f hf same (inner f hf) (kept f hf)) w
  | wrapper _ _ inner ih =>
    intro w
    rw [restore]
    cases supported with
    | wrapper wrapped => exact ih same wrapped kept w
  | opened _ _ fields ih =>
    intro w
    cases supported with
    | opened wrapped =>
      rw [Shape.keysKept, Shape.fieldsKept_iff] at kept
      rw [restore]
      exact ih _ (List.mem_singleton.2 rfl) same wrapped (kept _ (List.mem_singleton.2 rfl)) w
  | bareTemplate | blocked => cases supported

end Client

end RpcBridge
