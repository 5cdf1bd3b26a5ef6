import RpcBridge.Client.Export
import RpcBridge.Proofs.Client.Absent

/-!
# Proofs/Client/Received — what a client makes of a result

A client reads a result by running the statements that are generated for its type on what the
service has sent.  The statements cope with null, which a list or a dictionary holds for what is
absent, but not with members that are left out: where a record leaves out a field, they go on as if
it were there.  They do not look for the field of a transparent record that is applied to nothing,
either.

* `Shape.restorable` — the values that are read back as they should be;
* `restore_ends` — on values, a conversion in place ends with the image exactly for those;
* `received_iff` — on memories, the generated statements do.
-/

namespace RpcBridge

namespace Shape

mutual

/-- Whether a client that reads what a service has written holds the value in the end; `same` tells
whether the place that is read and the place that is written have the same text. -/
def restorable (same : Bool) : Shape → Value → Bool
  | .list element, .list vs => vs.all (element.restorable (same || !element.changes .back))
  | .tuple items, .list vs => itemsRestorable same items vs
  | .mapping _ value, .map entries =>
    entries.all fun e => value.restorable (!value.changes .back) e.2
  | .optional _, .null => true
  | .optional inner, v => inner.restorable same v
  | .record _ fields, .record _ vs => fieldsRestorable same fields vs
  | .wrapper _ _ inner, v => inner.restorable same v
  | .opened _ _ _, _ => false
  | _, _ => true

/-- The same of the items of a tuple. -/
def itemsRestorable (same : Bool) : List Shape → List Value → Bool
  | s :: rest, v :: vs => s.restorable same v && itemsRestorable same rest vs
  | _, _ => true

/-- The same of the fields of a record: one that is left out has to be passed over. -/
def fieldsRestorable (same : Bool) : List (String × Shape) → List (String × Value) → Bool
  | [], _ => true
  | (name, s) :: rest, vs =>
    (if (Value.fieldOf vs name).isNull && s.allowsAbsence then s.passesMissing same
      else s.restorable same (Value.fieldOf vs name)) && fieldsRestorable same rest vs

end

/-- The same of a single field. -/
def fieldRestorable (same : Bool) (s : Shape) (v : Value) : Bool :=
  if v.isNull && s.allowsAbsence then s.passesMissing same else s.restorable same v

/-- The fields are restorable one by one. -/
theorem fieldsRestorable_cons (same : Bool) (name : String) (s : Shape)
    (rest : List (String × Shape)) (vs : List (String × Value)) :
    fieldsRestorable same ((name, s) :: rest) vs =
      (fieldRestorable same s (Value.fieldOf vs name) && fieldsRestorable same rest vs) := by
  rw [fieldsRestorable, fieldRestorable]

/-- A present optional is restorable as what it holds. -/
theorem restorable_optional {same : Bool} {inner : Shape} {v : Value} (present : v ≠ .null) :
    (optional inner).restorable same v = inner.restorable same v := by
  cases v <;> first | exact absurd rfl present | (rw [restorable]; simp)

end Shape

namespace Client

open Wire

variable {same : Bool}

/-! ## Conversions that end as they should -/

/-- A conversion that ends with a value, which is the right one exactly if `b` says so, or breaks
off. -/
def Ends (P : Tree → Prop) (b : Bool) (r : Restored View) : Prop :=
  (∃ t, r = .ok (.slot (some t)) ∧ (P t ↔ b = true)) ∨
    (b = false ∧ ∃ fault, r = .error (some fault))

/-- A slot that holds something is copied as it stands. -/
theorem copy_slot (same : Bool) (t : Tree) :
    View.copy same (.slot (some t)) = .ok (.slot (some t)) := by
  cases same <;> rfl

/-- What is left as it is, and is right. -/
theorem ends_copy {P : Tree → Prop} {t : Tree} (right : P t) :
    Ends P true (View.copy same (.slot (some t))) :=
  Or.inl ⟨t, copy_slot same t, fun _ => rfl, fun _ => right⟩

section Walks

variable {isArray : Bool} {finished members : List (String × Tree)} {key : String} {t : Tree}
  {f : View → Restored View} {rest : List (String × (View → Restored View))}

/-- One turn of a walk over the members of an object. -/
theorem walk_present {P : Tree → Prop} {b : Bool} (ends : Ends P b (f (.slot (some t))))
    (absent : finished.lookup key = none) :
    (∃ t', (P t' ↔ b = true) ∧
      View.walk ((key, f) :: rest)
          (.slot (some (.node isArray (finished ++ (key, t) :: members)))) =
        View.walk rest (.slot (some (.node isArray (finished ++ [(key, t')] ++ members))))) ∨
    (b = false ∧ ∃ fault,
      View.walk ((key, f) :: rest)
          (.slot (some (.node isArray (finished ++ (key, t) :: members)))) =
        .error (some fault)) := by
  have member : (View.slot (some (.node isArray (finished ++ (key, t) :: members)))).member key =
      .slot (some t) := by
    rw [View.member, Option.getD_some, View.ofMember, lookup_append_of_none absent,
      List.lookup_cons_self]
  rcases ends with ⟨t', ran, right⟩ | ⟨wrong, fault, ran⟩
  · refine Or.inl ⟨t', right, ?_⟩
    rw [View.walk, View.inside, member, ran]
    simp only [ok_bind, pure_eq_ok, View.replace, putEntry_append_cons absent, List.append_assoc,
      List.singleton_append]
  · refine Or.inr ⟨wrong, fault, ?_⟩
    rw [View.walk, View.inside, member, ran]
    rfl

/-- A walk over all members, which are converted in the same way. -/
theorem walk_all {α : Type} {P : α → Tree → Prop} {b : α → Bool} {as : List α}
    (each : List.Forall₂ (fun a m => Ends (P a) (b a) (f (.slot (some m.2)))) as members)
    (distinct : (members.map (·.1)).Nodup)
    (absent : ∀ m ∈ members, finished.lookup m.1 = none) :
    (∃ members', View.walk (members.map fun m => (m.1, f))
        (.slot (some (.node isArray (finished ++ members)))) =
          .ok (.slot (some (.node isArray (finished ++ members')))) ∧
        members'.map (·.1) = members.map (·.1) ∧
        (List.Forall₂ (fun a m => P a m.2) as members' ↔ as.all b = true)) ∨
      (as.all b = false ∧ ∃ fault, View.walk (members.map fun m => (m.1, f))
        (.slot (some (.node isArray (finished ++ members)))) = .error (some fault)) := by
  induction each generalizing finished with
  | nil => exact Or.inl ⟨[], rfl, rfl, by simp⟩
  | @cons a m as members first _ ih =>
    obtain ⟨key, t⟩ := m
    rw [List.map_cons, List.nodup_cons] at distinct
    rw [List.forall_mem_cons] at absent
    rw [List.map_cons, List.all_cons]
    rcases walk_present first absent.1 with ⟨t', right, turn⟩ | ⟨wrong, fault, turn⟩
    · have absent_rest : ∀ m ∈ members, (finished ++ [(key, t')]).lookup m.1 = none := by
        intro m hm
        rw [lookup_append_of_none (absent.2 m hm), lookup_cons_eq, if_neg]
        · rfl
        · intro same
          exact distinct.1 (List.mem_map.2 ⟨m, hm, same⟩)
      rw [turn]
      rcases ih distinct.2 absent_rest with ⟨members', ran, names, all⟩ | ⟨wrong, fault, ran⟩
      · refine Or.inl ⟨(key, t') :: members', ?_, ?_, ?_⟩
        · rw [ran, List.append_assoc, List.singleton_append]
        · rw [List.map_cons, List.map_cons, names]
        · rw [List.forall₂_cons, right, all, Bool.and_eq_true]
      · exact Or.inr ⟨by rw [wrong, Bool.and_false], fault, ran⟩
    · exact Or.inr ⟨by rw [wrong, Bool.false_and], fault, turn⟩

/-- A walk over all members of an object. -/
theorem each_ends {α : Type} {P : α → Tree → Prop} {b : α → Bool} {as : List α}
    (each : List.Forall₂ (fun a m => Ends (P a) (b a) (f (.slot (some m.2)))) as members)
    (distinct : (members.map (·.1)).Nodup) :
    (∃ members', View.each f (.slot (some (.node isArray members))) =
          .ok (.slot (some (.node isArray members'))) ∧
        members'.map (·.1) = members.map (·.1) ∧
        (List.Forall₂ (fun a m => P a m.2) as members' ↔ as.all b = true)) ∨
      (as.all b = false ∧ ∃ fault,
        View.each f (.slot (some (.node isArray members))) = .error (some fault)) := by
  have walked : View.each f (.slot (some (.node isArray members))) =
      View.walk (members.map fun m => (m.1, f)) (.slot (some (.node isArray ([] ++ members)))) := by
    simp only [View.each, View.read, Option.getD_some, ok_bind, Tree.keys, List.map_map]
    rfl
  rw [walked]
  exact walk_all each distinct fun _ _ => rfl

end Walks

/-! ## Along the shape -/

/-- The items of a tuple, one after the other. -/
theorem walk_items {items : List Shape} {start : Nat} {vs : List Value} {js : List Json}
    (finished : List (String × Tree))
    (each : ∀ s ∈ items, ∀ {v j}, s.Conforms v → encode s v = .ok j →
      Ends (s.Images AsRead v) (s.restorable same v) (restore same s (.slot (some (.ofJson j)))))
    (conform : Shape.ItemsConform items vs) (written : encodeItems items start vs = .ok js)
    (absent : ∀ i, start ≤ i → finished.lookup (toString i) = none) :
    (∃ ts, View.walk (restoreItems same start items)
        (.slot (some (.node true (finished ++ Tree.indexed start (js.map .ofJson))))) =
          .ok (.slot (some (.node true (finished ++ Tree.indexed start ts)))) ∧
        (Shape.ItemsImage AsRead items vs ts ↔ Shape.itemsRestorable same items vs = true)) ∨
      (Shape.itemsRestorable same items vs = false ∧ ∃ fault,
        View.walk (restoreItems same start items)
          (.slot (some (.node true (finished ++ Tree.indexed start (js.map .ofJson))))) =
            .error (some fault)) := by
  induction items generalizing start vs js finished with
  | nil =>
    rw [Shape.ItemsConform] at conform
    subst conform
    rw [encodeItems] at written
    · cases written
      refine Or.inl ⟨[], ?_, ?_⟩
      · rw [restoreItems, View.walk]
        rfl
      · rw [Shape.ItemsImage, Shape.itemsRestorable]
        · simp
        all_goals (intros; contradiction)
    all_goals (intros; contradiction)
  | cons s rest ih =>
    rw [List.forall_mem_cons] at each
    rw [Shape.ItemsConform] at conform
    obtain ⟨v, vs, rfl, conforms, conform⟩ := conform
    obtain ⟨j, js, rfl, encoded, written⟩ := written_items written
    rw [restoreItems, List.map_cons, Tree.indexed, Shape.itemsRestorable]
    rcases walk_present (each.1 conforms encoded) (absent start (Nat.le_refl _)) with
      ⟨t', right, turn⟩ | ⟨wrong, fault, turn⟩
    · have absent_rest : ∀ i, start + 1 ≤ i →
          (finished ++ [(toString start, t')]).lookup (toString i) = none := by
        intro i le
        rw [lookup_append_of_none (absent i (Nat.le_of_succ_le le)), lookup_cons_eq, if_neg]
        · rfl
        · intro same
          have := Tree.toString_injective same
          omega
      rw [turn]
      rcases ih _ each.2 conform written absent_rest with ⟨ts, ran, all⟩ | ⟨wrong, fault, ran⟩
      · refine Or.inl ⟨t' :: ts, ?_, ?_⟩
        · rw [ran, List.append_assoc, List.singleton_append, Tree.indexed]
        · rw [Shape.ItemsImage, Bool.and_eq_true, ← right, ← all]
          constructor
          · rintro ⟨_, _, _, _, ⟨⟩, ⟨⟩, first, others⟩
            exact ⟨first, others⟩
          · rintro ⟨first, others⟩
            exact ⟨v, vs, t', ts, rfl, rfl, first, others⟩
      · exact Or.inr ⟨by rw [wrong, Bool.and_false], fault, ran⟩
    · exact Or.inr ⟨by rw [wrong, Bool.false_and], fault, turn⟩

/-- The members of an object after one of them has been converted. -/
def entered (members : List (String × Tree)) (name : String) : Option Tree → List (String × Tree)
  | some t => putEntry members name t
  | none => members

/-- Entering a member changes what is found under its name only. -/
theorem lookup_entered {members : List (String × Tree)} {name : String} {content : Option Tree}
    (stays : content = none → members.lookup name = none) (key : String) :
    (entered members name content).lookup key =
      if key = name then content else members.lookup key := by
  cases content with
  | none =>
    rw [entered]
    split
    · next same => rw [same, stays rfl]
    · rfl
  | some t => rw [entered, lookup_putEntry]

/-- A member after entering one is that one or was there before. -/
theorem mem_entered {members : List (String × Tree)} {name : String} {content : Option Tree}
    {m : String × Tree} (h : m ∈ entered members name content) : m.1 = name ∨ m ∈ members := by
  cases content with
  | none => exact Or.inr h
  | some t => exact (mem_putEntry h).imp (fun same => by rw [same]) id

/-- Entering a member keeps the names distinct. -/
theorem nodup_entered {members : List (String × Tree)} {name : String} (content : Option Tree)
    (distinct : (members.map (·.1)).Nodup) : ((entered members name content).map (·.1)).Nodup := by
  cases content with
  | none => exact distinct
  | some t =>
    rw [entered]
    induction members with
    | nil => simp [putEntry]
    | cons m rest ih =>
      obtain ⟨n, old⟩ := m
      rw [List.map_cons, List.nodup_cons] at distinct
      rw [putEntry]
      split
      · rw [List.map_cons, List.nodup_cons]
        exact distinct
      · next ne =>
        rw [List.map_cons, List.nodup_cons]
        refine ⟨fun there => ?_, ih distinct.2⟩
        obtain ⟨m, hm, same⟩ := List.mem_map.1 there
        rcases mem_putEntry hm with rfl | hm
        · exact ne same.symm
        · exact distinct.1 (List.mem_map.2 ⟨m, hm, same⟩)

/-- One turn of a walk over the fields of a record. -/
theorem walk_field {isArray : Bool} {members : List (String × Tree)} {name : String}
    {f : View → Restored View} {content : Option Tree}
    {rest : List (String × (View → Restored View))}
    (ran : f (.slot (members.lookup name)) = .ok (.slot content)) :
    View.walk ((name, f) :: rest) (.slot (some (.node isArray members))) =
      View.walk rest (.slot (some (.node isArray (entered members name content)))) := by
  have member : (View.slot (some (.node isArray members))).member name =
      .slot (members.lookup name) := rfl
  rw [View.walk, View.inside, member, ran]
  cases content <;> rfl

/-- A field of a record, which may be missing. -/
theorem restore_field {s : Shape} {name : String} {vs : List (String × Value)} {ms : Members}
    (each : ∀ {v j}, s.Conforms v → encode s v = .ok j →
      Ends (s.Images AsRead v) (s.restorable same v) (restore same s (.slot (some (.ofJson j)))))
    (missing : Passes (s.passesMissing same) View.IsUndefined (restore same s (.slot none)))
    (conform : (Value.fieldOf vs name = .null ∧ s.allowsAbsence = true) ∨
      s.Conforms (Value.fieldOf vs name))
    (written : FieldWritten vs ms (name, s)) :
    (∃ content, restore same s (.slot ((ms.lookup name).map .ofJson)) = .ok (.slot content) ∧
        (content = none → (ms.lookup name).map Tree.ofJson = none) ∧
        (s.Images AsRead (Value.fieldOf vs name) (content.getD (.atom .undefined)) ↔
          s.fieldRestorable same (Value.fieldOf vs name) = true)) ∨
      (s.fieldRestorable same (Value.fieldOf vs name) = false ∧
        ∃ fault, restore same s (.slot ((ms.lookup name).map .ofJson)) = .error (some fault)) := by
  unfold Shape.fieldRestorable
  rcases written with ⟨null, allowed, absent⟩ | ⟨needed, j, encoded, there⟩
  · simp only at null allowed absent
    rw [absent, null, allowed]
    rcases missing with ⟨passes, _, ran, content, rfl, undefined⟩ | ⟨stops, fault, ran⟩
    · refine Or.inl ⟨content, ran, fun _ => rfl, ?_⟩
      rw [undefined]
      exact ⟨fun _ => passes, fun _ => Shape.images_undefined allowed⟩
    · exact Or.inr ⟨stops, fault, ran⟩
  · simp only at needed encoded there
    have conforms : s.Conforms (Value.fieldOf vs name) := by
      rcases conform with ⟨null, allowed⟩ | conforms
      · rw [needed null] at allowed
        cases allowed
      · exact conforms
    have present : ((Value.fieldOf vs name).isNull && s.allowsAbsence) = false := by
      cases null : (Value.fieldOf vs name).isNull
      · rfl
      · unfold Value.isNull at null
        split at null
        · next h => rw [needed h, Bool.and_false]
        · cases null
    rw [there, present]
    rcases each conforms encoded with ⟨t, ran, right⟩ | ⟨wrong, fault, ran⟩
    · exact Or.inl ⟨some t, ran, nofun, right⟩
    · exact Or.inr ⟨wrong, fault, ran⟩

/-- The fields of a record, one after the other. -/
theorem walk_fields {fields : List (String × Shape)} {vs : List (String × Value)}
    {ms : Members} {members : List (String × Tree)} (distinct : (fields.map (·.1)).Nodup)
    (each : ∀ f ∈ fields, ∀ {v j}, f.2.Conforms v → encode f.2 v = .ok j →
      Ends (f.2.Images AsRead v) (f.2.restorable same v)
        (restore same f.2 (.slot (some (.ofJson j)))))
    (missing : ∀ f ∈ fields,
      Passes (f.2.passesMissing same) View.IsUndefined (restore same f.2 (.slot none)))
    (conform : ∀ f ∈ fields, (Value.fieldOf vs f.1 = .null ∧ f.2.allowsAbsence = true) ∨
      f.2.Conforms (Value.fieldOf vs f.1))
    (written : ∀ f ∈ fields, FieldWritten vs ms f)
    (untouched : ∀ f ∈ fields, members.lookup f.1 = (ms.lookup f.1).map .ofJson)
    (nodup : (members.map (·.1)).Nodup) :
    (∃ members', View.walk (restoreFields same fields) (.slot (some (.node false members))) =
        .ok (.slot (some (.node false members'))) ∧ (members'.map (·.1)).Nodup ∧
        (∀ m ∈ members', m.1 ∈ fields.map (·.1) ∨ m ∈ members) ∧
        (∀ key, key ∉ fields.map (·.1) → members'.lookup key = members.lookup key) ∧
        (Shape.FieldsImage AsRead fields vs members' ↔
          Shape.fieldsRestorable same fields vs = true)) ∨
      (Shape.fieldsRestorable same fields vs = false ∧ ∃ fault,
        View.walk (restoreFields same fields) (.slot (some (.node false members))) =
          .error (some fault)) := by
  induction fields generalizing members with
  | nil =>
    refine Or.inl ⟨members, ?_, nodup, fun m hm => Or.inr hm, fun _ _ => rfl, ?_⟩
    · rw [restoreFields, View.walk]
    · simp [Shape.FieldsImage, Shape.fieldsRestorable]
  | cons f rest ih =>
    obtain ⟨name, s⟩ := f
    rw [List.map_cons, List.nodup_cons] at distinct
    rw [List.forall_mem_cons] at each missing conform written untouched
    rw [restoreFields, Shape.fieldsRestorable_cons]
    rcases restore_field each.1 missing.1 conform.1 written.1 with
      ⟨content, ran, stays, right⟩ | ⟨wrong, fault, ran⟩
    · rw [← untouched.1] at ran stays
      have others : ∀ f ∈ rest, (entered members name content).lookup f.1 =
          (ms.lookup f.1).map .ofJson := by
        intro f hf
        rw [lookup_entered stays, if_neg, untouched.2 f hf]
        rintro rfl
        exact distinct.1 (List.mem_map.2 ⟨f, hf, rfl⟩)
      rw [walk_field ran]
      rcases ih distinct.2 each.2 missing.2 conform.2 written.2 others
          (nodup_entered content nodup) with
        ⟨members', walked, nodup', known, kept, all⟩ | ⟨wrong, fault, broken⟩
      · refine Or.inl ⟨members', walked, nodup', fun m hm => ?_, fun key hkey => ?_, ?_⟩
        · rw [List.map_cons, List.mem_cons]
          rcases known m hm with later | there
          · exact Or.inl (Or.inr later)
          · exact (mem_entered there).imp Or.inl id
        · rw [List.map_cons, List.mem_cons, not_or] at hkey
          rw [kept key hkey.2, lookup_entered stays, if_neg hkey.1]
        · have final : members'.lookup name = content := by
            rw [kept name distinct.1, lookup_entered stays, if_pos rfl]
          rw [Shape.FieldsImage, final, right, all, Bool.and_eq_true]
      · exact Or.inr ⟨by rw [wrong, Bool.and_false], fault, broken⟩
    · rw [← untouched.1] at ran
      refine Or.inr ⟨by rw [wrong, Bool.false_and], fault, ?_⟩
      have member : (View.slot (some (.node false members))).member name =
          .slot (members.lookup name) := rfl
      rw [View.walk, View.inside, member, ran]
      rfl

/-- What stands for an untyped or a scalar value stays as it is. -/
theorem scalar_image {kind : ScalarKind} {v : Value} {j : Json} (carries : kind.Carries v)
    (written : encodeScalar kind v = .ok j) : kind.Images AsRead v (.ofJson j) := by
  cases carries <;> simp only [encodeScalar] at written
  case float x =>
    cases written
    exact .float (.real x)
  all_goals cases written
  case string s => exact .string s
  case bool b => exact .bool b
  case int n => exact .int n
  case any => exact .any rfl
  case anyList => exact .anyList rfl
  case none => exact .null

/-- Two relations that decide the same test element by element hold of the same lists. -/
theorem forall₂_iff_all {α β : Type} {R P : α → β → Prop} {b : α → Bool} {as : List α}
    {bs : List β} (h : List.Forall₂ R as bs)
    (each : ∀ a ∈ as, ∀ x, R a x → (P a x ↔ b a = true)) :
    List.Forall₂ P as bs ↔ as.all b = true := by
  induction h with
  | nil => simp
  | cons first _ ih =>
    rw [List.forall_mem_cons] at each
    rw [List.forall₂_cons, List.all_cons, Bool.and_eq_true, each.1 _ first, ih each.2]

/-- What holds of related elements holds of related lists, element by element. -/
theorem forall₂_of_mem {α β : Type} {R S : α → β → Prop} {as : List α} {bs : List β}
    (h : List.Forall₂ R as bs) (each : ∀ a ∈ as, ∀ b, R a b → S a b) : List.Forall₂ S as bs := by
  induction h with
  | nil => exact .nil
  | cons first _ ih =>
    rw [List.forall_mem_cons] at each
    exact .cons (each.1 _ first) (ih each.2)

/-- What does not change is right as it is, or not at all. -/
theorem idle_image {s : Shape} {v : Value} {t : Tree} (supported : s.Supported)
    (unchanged : s.changes .back = false)
    (ends : Ends (s.Images AsRead v) (s.restorable true v) (restore true s (.slot (some t)))) :
    s.Images AsRead v t ↔ s.restorable true v = true := by
  rw [restore_idle supported unchanged] at ends
  rcases ends with ⟨t', ⟨⟩, right⟩ | ⟨-, fault, broken⟩
  · exact right
  · cases broken

/-- The conversion in place of what is written for a value of a shape ends with the image of the
value exactly if the value is restorable. -/
def RestoresWritten (s : Shape) : Prop :=
  ∀ same v j, s.Supported → s.keysKept .back false = true → s.Conforms v → encode s v = .ok j →
    Ends (s.Images AsRead v) (s.restorable same v) (restore same s (.slot (some (.ofJson j))))

/-- A written scalar is restored as it stands. -/
theorem restoresWritten_scalar (kind : ScalarKind) : RestoresWritten (.scalar kind) := by
  intro same v j _ _ conforms written
  rw [Shape.Conforms] at conforms
  have right : (Shape.scalar kind).Images AsRead v (.ofJson j) := by
    rw [Shape.Images]
    exact scalar_image conforms (by simpa only [encode] using written)
  rw [restore, Shape.restorable]
  · exact ends_copy right
  all_goals (intros; contradiction)

/-- A written enum member is restored as it stands. -/
theorem restoresWritten_enum (e : EnumDef) : RestoresWritten (.enum e) := by
  intro same v j _ _ conforms written
  rw [Shape.Conforms] at conforms
  obtain ⟨m, first, rfl, member, -⟩ := conforms
  simp only [encode, encodeEnum, if_true, member] at written
  cases written
  have right : (Shape.enum e).Images AsRead (.enum e.name m.name) (.ofJson m.value.toJson) := by
    rw [Shape.Images]
    exact ⟨m, rfl, member, rfl⟩
  rw [restore, Shape.restorable]
  · exact ends_copy right
  all_goals (intros; contradiction)

/-- A written temporal value is restored by parsing it. -/
theorem restoresWritten_temporal (kind : TemporalKind) : RestoresWritten (.temporal kind) := by
  intro same v j _ _ conforms written
  rw [Shape.Conforms] at conforms
  rw [restore, Shape.restorable]
  · cases conforms <;> (
      simp only [encode, encodeTemporal] at written
      cases written
      refine Or.inl ⟨_, rfl, fun _ => rfl, fun _ => ?_⟩
      rw [Shape.Images])
    · exact .date _
    · exact .dateTime _
  all_goals (intros; contradiction)

/-- A written list is restored when its elements are. -/
theorem restoresWritten_list {element : Shape} (ih : RestoresWritten element) :
    RestoresWritten (.list element) := by
  intro same v j supported kept conforms written
  rw [Shape.Conforms] at conforms
  obtain ⟨vs, rfl, conform⟩ := conforms
  obtain ⟨_, js, ⟨⟩, rfl, encoded⟩ := written_list written
  cases supported with
  | list inner =>
    rw [restore, Shape.restorable, Tree.ofJson, Tree.ofItems_eq]
    cases changes : element.changes .back
    · -- the list is not walked: what is in it stays as it is
      refine Or.inl ⟨_, copy_slot _ _, ?_⟩
      rw [Shape.images_list, List.forall₂_map_right_iff, Bool.not_false, Bool.or_true]
      refine forall₂_iff_all encoded fun v hv j encoded => ?_
      exact idle_image inner changes (ih true v j inner kept (conform v hv) encoded)
    · rw [if_pos rfl, Bool.not_true, Bool.or_false]
      have each : List.Forall₂ (fun v (m : String × Tree) =>
          Ends (element.Images AsRead v) (element.restorable same v)
            (restore same element (.slot (some m.2)))) vs
          (Tree.indexed 0 (js.map .ofJson)) := by
        refine (Tree.forall₂_indexed (R := fun v t => Ends (element.Images AsRead v)
          (element.restorable same v) (restore same element (.slot (some t))))).2
            (List.forall₂_map_right_iff.2 ?_)
        exact forall₂_of_mem encoded fun v hv j encoded =>
          ih same v j inner kept (conform v hv) encoded
      rw [Tree.array]
      rcases each_ends each (Tree.nodup_indexed 0 _) with
        ⟨members, ran, names, all⟩ | ⟨wrong, fault, ran⟩
      · obtain ⟨ts, rfl⟩ : ∃ ts, members = Tree.indexed 0 ts := ⟨_, Tree.eq_indexed names⟩
        refine Or.inl ⟨.array ts, ran, ?_⟩
        rw [Shape.images_list, ← all]
        exact Tree.forall₂_indexed.symm
      · exact Or.inr ⟨wrong, fault, ran⟩

/-- A written mapping is restored when its values are. -/
theorem restoresWritten_mapping {key value : Shape} (ih : RestoresWritten value) :
    RestoresWritten (.mapping key value) := by
  intro same v j supported kept conforms written
  rw [Shape.Conforms] at conforms
  obtain ⟨entries, rfl, distinct, conform⟩ := conforms
  obtain ⟨ms, rfl, encoded⟩ := written_mapping distinct written
  rw [Shape.keysKept, Bool.and_eq_true, Bool.and_eq_true, Bool.not_eq_true'] at kept
  obtain ⟨⟨unchanged, -⟩, kept⟩ := kept
  cases supported with
  | mapping keys values =>
    have named := names_of_entries encoded
    rw [named] at distinct
    have same : (ms.map fun m => (m.1, Tree.ofJson m.2)).map (·.1) = ms.map (·.1) := by
      rw [List.map_map]
      rfl
    have nodup : ((ms.map fun m => (m.1, Tree.ofJson m.2)).map (·.1)).Nodup := by
      rw [same]
      exact List.Pairwise.of_map Except.ok (fun _ _ ne same => ne (by rw [same])) distinct
    rw [restore, Shape.restorable, Tree.ofJson, Tree.ofMembers_eq, unchanged, Bool.false_or]
    cases changes : value.changes .back
    · -- the dictionary is not walked: what is in it stays as it is
      refine Or.inl ⟨_, copy_slot _ _, ?_⟩
      rw [Shape.images_mapping, Bool.not_false, and_iff_right nodup, same, and_iff_right named,
        List.forall₂_map_right_iff]
      refine forall₂_iff_all encoded fun e he m encoded => ?_
      exact idle_image values changes (ih true e.2 m.2 values kept (conform e he).2 encoded.2)
    · have known : (!false && (key.isPlainKey ||
          (Tree.node false (ms.map fun m => (m.1, Tree.ofJson m.2))).keys.isEmpty)) = true := by
        cases encoded with
        | nil => simp [Tree.keys]
        | cons first _ =>
          rw [isPlainKey_of_keyName keys unchanged first.1]
          rfl
      rw [if_pos rfl, View.read, Option.getD_some, ok_bind]
      simp only [known, if_true, Bool.not_true]
      have each : List.Forall₂ (fun (e : Value × Value) (m : String × Tree) =>
          Ends (value.Images AsRead e.2) (value.restorable false e.2)
            (restore false value (.slot (some m.2)))) entries
          (ms.map fun m => (m.1, Tree.ofJson m.2)) :=
        List.forall₂_map_right_iff.2 (forall₂_of_mem encoded fun e he m encoded =>
          ih false e.2 m.2 values kept (conform e he).2 encoded.2)
      rcases each_ends each nodup with ⟨members, ran, names, all⟩ | ⟨wrong, fault, ran⟩
      · refine Or.inl ⟨.node false members, ran, ?_⟩
        have renamed : entries.map (fun e => keyName key e.1) = (members.map (·.1)).map .ok := by
          rw [named, names, same]
        rw [Shape.images_mapping, and_iff_right (names ▸ nodup), and_iff_right renamed, all]
      · exact Or.inr ⟨wrong, fault, ran⟩

/-- A written tuple is restored when its items are. -/
theorem restoresWritten_tuple {items : List Shape} (ih : ∀ s ∈ items, RestoresWritten s) :
    RestoresWritten (.tuple items) := by
  intro same v j supported kept conforms written
  rw [Shape.Conforms] at conforms
  obtain ⟨vs, rfl, conform⟩ := conforms
  obtain ⟨_, js, ⟨⟩, rfl, -, encoded⟩ := written_tuple written
  rw [Shape.keysKept, Shape.itemsKept_iff] at kept
  cases supported with
  | tuple inner =>
    rw [restore, Shape.restorable, Tree.ofJson, Tree.ofItems_eq]
    rcases walk_items [] (fun s hs {v j} => ih s hs same v j (inner s hs) (kept s hs)) conform
        encoded (fun _ _ => rfl) with ⟨ts, ran, all⟩ | ⟨wrong, fault, ran⟩
    · refine Or.inl ⟨.array ts, ran, ?_⟩
      rw [Shape.images_tuple, all]
    · exact Or.inr ⟨wrong, fault, ran⟩

/-- A written optional is restored when what it may hold is. -/
theorem restoresWritten_optional {inner : Shape} (ih : RestoresWritten inner) :
    RestoresWritten (.optional inner) := by
  intro same v j supported kept conforms written
  rw [Shape.Conforms] at conforms
  by_cases null : v = .null
  · subst null
    rw [encode] at written
    cases written
    rw [Shape.restorable, restore]
    refine Or.inl ⟨.atom .undefined, rfl, fun _ => rfl, fun _ => ?_⟩
    rw [Shape.Images]
    exact Or.inl ⟨rfl, rfl⟩
  · obtain ⟨notRaw, conforms⟩ := conforms.resolve_left null
    rw [encode_optional null] at written
    have there : j ≠ .null := by
      rintro rfl
      exact encode_ne_null conforms null notRaw written
    have isNull : (Tree.ofJson j).isNull = false := by
      cases j <;> first | exact absurd rfl there | rfl
    rw [Shape.restorable_optional null, restore, View.read, ok_bind, Option.getD_some, isNull,
      if_neg Bool.false_ne_true]
    cases supported with
    | optional present =>
      rcases ih same v j present kept conforms written with ⟨t, ran, right⟩ | broken
      · refine Or.inl ⟨t, ran, ?_⟩
        rw [← right, Shape.Images]
        exact ⟨fun h => (h.resolve_left fun h => null h.1).2, fun h => Or.inr ⟨null, h⟩⟩
      · exact Or.inr broken

/-- A written record is restored when its fields are. -/
theorem restoresWritten_record {name : String} {fields : List (String × Shape)}
    (ih : ∀ f ∈ fields, RestoresWritten f.2) : RestoresWritten (.record name fields) := by
  intro same v j supported kept conforms written
  rw [Shape.Conforms] at conforms
  obtain ⟨vs, rfl, distinct, -, conform⟩ := conforms
  rw [encode] at written
  obtain ⟨ms, encoded, ⟨⟩⟩ := bind_eq_ok.1 written
  obtain ⟨nodup, declared, fieldsWritten⟩ := written_record distinct encoded
  rw [Shape.keysKept, Shape.fieldsKept_iff] at kept
  cases supported with
  | record inner =>
    have nodup' : ((ms.map fun m => (m.1, Tree.ofJson m.2)).map (·.1)).Nodup := by
      rwa [List.map_map]
    rw [restore, Shape.restorable, Tree.ofJson, Tree.ofMembers_eq]
    rcases walk_fields distinct (fun f hf {v j} => ih f hf same v j (inner f hf) (kept f hf))
        (fun f hf => restore_missing (inner f hf) (kept f hf)) (fun f hf => conform.field hf)
        fieldsWritten (fun f _ => lookup_map Tree.ofJson ms f.1) nodup' with
      ⟨members, ran, nodup, known, -, all⟩ | ⟨wrong, fault, ran⟩
    · refine Or.inl ⟨.node false members, ran, ?_⟩
      have names : ∀ m ∈ members, m.1 ∈ fields.map (·.1) := by
        intro m hm
        refine (known m hm).elim id fun there => ?_
        obtain ⟨m', hm', rfl⟩ := List.mem_map.1 there
        exact declared m' hm'
      rw [Shape.images_record, ← all]
      exact ⟨fun h => h.2.2.2, fun h => ⟨distinct, nodup, names, h⟩⟩
    · exact Or.inr ⟨wrong, fault, ran⟩

/-- A written wrapper is restored when what it wraps is. -/
theorem restoresWritten_wrapper {name field : String} {inner : Shape}
    (ih : RestoresWritten inner) : RestoresWritten (.wrapper name field inner) := by
  intro same v j supported kept conforms written
  rw [Shape.Conforms] at conforms
  rw [encode] at written
  rw [restore, Shape.restorable]
  cases supported with
  | wrapper wrapped =>
    rcases ih same v j wrapped kept conforms written with ⟨t, ran, right⟩ | broken
    · refine Or.inl ⟨t, ran, ?_⟩
      rw [← right, Shape.Images]
    · exact Or.inr broken

/-- What is made of a transparent record that is applied to nothing is never its image: it is at
least as deep as what has been read, and the image is flatter than that. -/
theorem restoresWritten_opened {origin : Descriptor} {name : String}
    {fields : List (String × Shape)} : RestoresWritten (.opened origin name fields) := by
  intro same v j supported kept conforms written
  cases supported with
  | @opened _ _ field inner wrapped =>
    rw [Shape.keysKept, Shape.fieldsKept_iff] at kept
    have kept := kept _ (List.mem_singleton.2 rfl)
    rw [restore, Shape.restorable]
    rcases restore_grows same wrapped kept (.slot (some (.ofJson j))) with
      ⟨w, ran, grows⟩ | ⟨fault, ran⟩
    · cases grows with
      | @slot _ content stays deeper =>
        cases content with
        | some t =>
          refine Or.inl ⟨t, ran, fun image => ?_, by rintro ⟨⟩⟩
          have flatter := opened_depth (image_depth _) conforms written image
          exact absurd deeper (Nat.not_le_of_lt flatter)
        | none => cases stays rfl
    · exact Or.inr ⟨rfl, fault, ran⟩

/-- **What a client makes of a result, on values**: the conversion in place ends with the image of
the value exactly if the value is restorable. -/
theorem restore_ends (s : Shape) : RestoresWritten s := by
  induction s with
  | scalar kind => exact restoresWritten_scalar kind
  | enum e => exact restoresWritten_enum e
  | temporal kind => exact restoresWritten_temporal kind
  | list element ih => exact restoresWritten_list ih
  | mapping key value _ ih => exact restoresWritten_mapping ih
  | tuple items ih => exact restoresWritten_tuple ih
  | optional inner ih => exact restoresWritten_optional ih
  | record name fields ih => exact restoresWritten_record ih
  | wrapper _ _ inner ih => exact restoresWritten_wrapper ih
  | opened => exact restoresWritten_opened
  | bareTemplate | blocked =>
    intro same v j supported
    cases supported

/-! ## On memories -/

/-- A variable of a function holds a value. -/
def Memory.Shows (μ : Memory) (name : String) (t : Tree) : Prop :=
  ∃ L : Layout, μ.vars (.root name) = L.held ∧ L.Fits μ.objects ∧ L.tree = t

/-- A variable of a function holds what has just been read as JSON: no object stands in two
places. -/
def Memory.HasRead (μ : Memory) (name : String) (j : Json) : Prop :=
  ∃ L : Layout, μ.vars (.root name) = L.held ∧ L.Fits μ.objects ∧ L.Separate ∧
    L.tree = .ofJson j

/-- A variable is seen by itself. -/
theorem sees_root (js : Engine) {n : Nat} {μ : Memory} {name : String} {L : Layout}
    (holds : μ.vars (.root name) = L.held) (fits : L.Fits μ.objects)
    (separate : L.Separate) :
    Sees js n μ (.root name) (.root name) (.slot (.var (.root name)) (some L)) where
  source _ _ _ := rfl
  target _ _ _ := rfl
  keeps := by
    refine ⟨congrArg some holds, ?_, id⟩
    rintro _ ⟨⟩
    exact ⟨fits, separate⟩

/-- What stands in the slot of a root after a run is what the memory shows under its name. -/
theorem shows_of_after {n : Nat} {μ μ' : Memory} {name : String} {content : Option Layout}
    {σ : Sight} {t : Tree} (after : After n μ (.slot (.var (.root name)) content) μ' σ)
    (viewed : σ.view = .slot (some t)) : μ'.Shows name t := by
  match σ, after.spot with
  | .slot l (some L), spot =>
    cases spot
    cases viewed
    obtain ⟨there, inMemory, -⟩ := after.keeps
    exact ⟨L, Option.some.inj there, (inMemory L rfl).1, rfl⟩

/-- **What a client reads.**  Run on what the service has written for a value of an output type,
the statements for the type leave the image of the value behind exactly if the value is
restorable. -/
theorem received_iff {d : Descriptor} {r next : Resolver} {code : Code}
    (accepted : Yields (Resolver.code .back d Caller.data Caller.data) r code next)
    (kept : d.shape.keysKept .back false = true) {v : Value} {j : Json} (conforms : d.Conforms v)
    (written : d.encode v = .ok j) (js : Engine) {μ : Memory} (read : μ.HasRead "data" j) :
    (∃ μ' t, Statement.runAll js code.body μ = .ok μ' ∧ μ'.Shows "data" t ∧
        d.shape.Images AsRead v t) ↔
      d.shape.restorable true v = true := by
  obtain ⟨L, holds, fits, separate, parsed⟩ := read
  have generated := yields_generating accepted
  have ends : Ends (d.shape.Images AsRead v) (d.shape.restorable true v)
      (restore true d.shape (.slot (some (.ofJson j)))) :=
    restore_ends d.shape true v j (supported_of_convert generated) kept conforms written
  have follows := restore_follows generated (sees_root js holds fits separate)
  rw [decide_eq_true rfl, Sight.view, Option.map_some, parsed] at follows
  rcases ends with ⟨t, ran, right⟩ | ⟨wrong, fault, ran⟩
  · rw [ran] at follows
    obtain ⟨μ', σ, finished, after, viewed⟩ := follows
    obtain ⟨L', holds', fits', rfl⟩ := shows_of_after after viewed
    rw [← right]
    constructor
    · rintro ⟨μ'', _, finished', ⟨L'', holds'', fits'', rfl⟩, image⟩
      rw [finished] at finished'
      cases finished'
      rwa [fits'.tree_eq fits'' (holds'.symm.trans holds'')]
    · intro image
      exact ⟨μ', L'.tree, finished, ⟨L', holds', fits', rfl⟩, image⟩
  · rw [ran] at follows
    have broken : Statement.runAll js code.body μ = .error fault := follows
    rw [wrong, broken]
    constructor
    · rintro ⟨μ', t, ⟨⟩, -⟩
    · rintro ⟨⟩

/-- A visit may have a day.  A day that is there is read; one that is left out is taken for a text
all the same. -/
theorem received_iff_visit :
    let visit := Descriptor.record "Visit" [("on", .optional (.temporal .date))] false
    let day : Date := ⟨⟨2024, 2, 29⟩, rfl⟩
    let js : Engine := ⟨fun _ text => text⟩
    let read (members : List (String × Held)) : Memory :=
      ⟨fun x => if x = .root "data" then .object 0 else .atom .undefined,
        fun _ => ⟨false, members⟩, 1⟩
    ∃ code r next, Yields (Resolver.code .back visit Caller.data Caller.data) r code next ∧
      (∃ μ' t, Statement.runAll js code.body (read [("on", .atom (.string day.toText))]) = .ok μ' ∧
        μ'.Shows "data" t ∧ visit.shape.Images AsRead (.record "Visit" [("on", .date day)]) t) ∧
      ¬∃ μ' t, Statement.runAll js code.body (read []) = .ok μ' ∧
        μ'.Shows "data" t ∧ visit.shape.Images AsRead (.record "Visit" [("on", .null)]) t := by
  intro visit day js read
  have shape : visit.shape = .record "Visit" [("on", .optional (.temporal .date))] := rfl
  have kept : visit.shape.keysKept .back false = true := by rw [shape]; rfl
  have conforms {v : Value} (h : v = .null ∨ v = .date day) :
      visit.Conforms (.record "Visit" [("on", v)]) := by
    rw [Descriptor.Conforms, shape, Shape.Conforms]
    refine ⟨_, rfl, by decide, by simp, ?_⟩
    simp only [Shape.FieldsConform, lookup_cons_eq, reduceIte, Shape.Conforms]
    refine ⟨h.imp id ?_, trivial⟩
    rintro rfl
    exact ⟨by rintro ⟨⟩, .date day⟩
  obtain ⟨code, next, accepted⟩ : ∃ code next,
      Yields (Resolver.code .back visit Caller.data Caller.data) .empty code next := ⟨_, _, rfl⟩
  have there := received_iff (j := .object [("on", .string day.toText)]) accepted kept
    (conforms (Or.inr rfl)) rfl js (μ := read [("on", .atom (.string day.toText))])
    ⟨.node 0 false [("on", .atom (.string day.toText))], rfl,
      .node rfl (List.forall_mem_singleton.2 (.atom _)),
      .node (List.forall_mem_singleton.2 Layout.not_uses_atom) (List.pairwise_singleton _ _)
        (List.forall_mem_singleton.2 (.atom _)), rfl⟩
  have absent := received_iff (j := .object []) accepted kept (conforms (Or.inl rfl)) rfl js
    (μ := read []) ⟨.node 0 false [], rfl, .node rfl (List.forall_mem_nil _),
      .node (List.forall_mem_nil _) .nil (List.forall_mem_nil _), rfl⟩
  refine ⟨code, .empty, next, accepted, there.2 rfl, fun finished => ?_⟩
  exact Bool.false_ne_true (absent.1 finished)

end Client

end RpcBridge
