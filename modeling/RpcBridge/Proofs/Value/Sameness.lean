import RpcBridge.Proofs.Json.Sameness
import RpcBridge.Proofs.Value.Parts

/-!
# Proofs/Value/Sameness — values are the same up to null fields

Records are compared over the names of both, a missing field being null.  What this comes to is
seen once every null field is deleted, at every depth (`Value.erase`): two values are the same just
if what remains has one shape, `Value.Alike`.  So among settled values sameness is an equivalence, but
for what holds a number that is not the same as itself.

* `Value.same_iff_alike` — sameness is having one shape up to null fields;
* `Value.same_symm`, `Value.same_trans`, `Value.same_self_iff` — the laws of an equivalence.
-/

namespace RpcBridge

/-! ## Numbers -/

section Numbers

variable {x y z : Double}

/-- Equality of doubles is symmetric. -/
theorem Double.same_symm (h : x.same y = true) : y.same x = true := by
  cases x <;> cases y <;> simp only [same, Bool.false_eq_true] at h ⊢
  · rwa [beq_iff_eq, eq_comm, ← beq_iff_eq]
  · exact Finite.same_symm h

/-- Equality of doubles is transitive. -/
theorem Double.same_trans (h : x.same y = true) (h' : y.same z = true) : x.same z = true := by
  cases x <;> cases y <;> simp only [same, Bool.false_eq_true] at h
  · rw [beq_iff_eq] at h
    rwa [h]
  · cases z <;> simp only [same, Bool.false_eq_true] at h' ⊢
    exact Finite.same_trans h h'

/-- Every double but NaN equals itself. -/
theorem Double.same_self_iff : x.same x = true ↔ x ≠ .nan := by
  cases x <;> simp [same, Finite.same]

end Numbers

namespace Value

/-! ## What is left without null fields -/

mutual

/-- The value without its null fields, at every depth. -/
def erase : Value → Value
  | .list items => .list (eraseItems items)
  | .map entries => .map (eraseEntries entries)
  | .record typeName fields => .record typeName (eraseFields fields)
  | v => v

/-- Every item without its null fields. -/
def eraseItems : List Value → List Value
  | [] => []
  | v :: rest => v.erase :: eraseItems rest

/-- Every key and every value without its null fields. -/
def eraseEntries : List (Value × Value) → List (Value × Value)
  | [] => []
  | (k, v) :: rest => (k.erase, v.erase) :: eraseEntries rest

/-- The fields that are not null, each without its null fields. -/
def eraseFields : List (String × Value) → List (String × Value)
  | [] => []
  | (name, v) :: rest =>
    if v.isNull then eraseFields rest else (name, v.erase) :: eraseFields rest

end

/-- The same leaf: numbers are compared as floating-point arithmetic does, untyped values as JSON
values. -/
def SameLeaf : Value → Value → Prop
  | .null, .null => True
  | .bool a, .bool b => a = b
  | .int m, .int n => m = n
  | .float x, .float y => x.same y = true
  | .string s, .string t => s = t
  | .date d, .date e => d = e
  | .dateTime i, .dateTime k => i = k
  | .enum n a, .enum m b => n = m ∧ a = b
  | .raw j, .raw k => j.same k = true
  | _, _ => False

/-- Two values of one shape: of the same kind, with the same leaves, lists of one length, maps with
the entries in one order, records of one type with the same names, and alike part by part. -/
inductive Alike : Value → Value → Prop where
  | leaf {v w : Value} (same : SameLeaf v w) : Alike v w
  | list {vs ws : List Value} (items : List.Forall₂ Alike vs ws) : Alike (.list vs) (.list ws)
  | map {es fs : List (Value × Value)}
      (keys : List.Forall₂ Alike (es.map (·.1)) (fs.map (·.1)))
      (values : List.Forall₂ Alike (es.map (·.2)) (fs.map (·.2))) : Alike (.map es) (.map fs)
  | record {typeName : String} {fs gs : List (String × Value)}
      (names : ∀ name, name ∈ fs.map (·.1) ↔ name ∈ gs.map (·.1))
      (each : ∀ name v w, (name, v) ∈ fs → (name, w) ∈ gs → Alike v w) :
    Alike (.record typeName fs) (.record typeName gs)

section Erasing

attribute [local simp] isLeaf erase eraseItems eraseEntries eraseFields SameLeaf

/-! ### Leaves -/

section Leaves

variable {v w : Value}

/-- Erasing leaves leaves alone. -/
theorem erase_leaf (leaf : v.isLeaf = true) : v.erase = v := by
  cases v <;> simp at leaf ⊢

theorem isLeaf_erase : v.erase.isLeaf = v.isLeaf := by cases v <;> simp

/-- Only leaves are the same leaf. -/
theorem SameLeaf.isLeaf (h : v.SameLeaf w) : v.isLeaf = true ∧ w.isLeaf = true := by
  cases v <;> cases w <;> first | exact ⟨rfl, rfl⟩ | exact h.elim

/-- A leaf is alike to nothing but the same leaf. -/
theorem alike_leaf (leaf : v.isLeaf = true) : v.Alike w ↔ v.SameLeaf w := by
  refine ⟨fun alike => ?_, .leaf⟩
  cases alike with
  | leaf same => exact same
  | _ => cases leaf

/-- A leaf equals nothing but the same leaf. -/
theorem same_leaf (leaf : v.isLeaf = true) : v.same w = true ↔ v.SameLeaf w := by
  cases v <;> simp at leaf <;> cases w <;> simp [same]

/-- A leaf is not the same as what has parts, whether null fields are deleted or not. -/
theorem sameLeaf_erase : v.SameLeaf w.erase ↔ v.SameLeaf w := by
  by_cases leaf : w.isLeaf = true
  · rw [erase_leaf leaf]
  · constructor <;> intro same
    · exact absurd (isLeaf_erase ▸ same.isLeaf.2) leaf
    · exact absurd same.isLeaf.2 leaf

/-- Being the same leaf is symmetric for settled values. -/
theorem SameLeaf.symm (settled : v.Settled) (h : v.SameLeaf w) : w.SameLeaf v := by
  cases v <;> cases w <;> simp only [SameLeaf] at h ⊢
  case float => exact Double.same_symm h
  case raw => exact Json.same_symm (settled.untyped _ .here) h
  case enum => exact h.imp Eq.symm Eq.symm
  all_goals exact h.symm

/-- Being the same leaf is transitive. -/
theorem SameLeaf.trans {u : Value} (h : v.SameLeaf w) (h' : w.SameLeaf u) : v.SameLeaf u := by
  cases v <;> cases w <;> simp only [SameLeaf] at h <;> cases u <;> simp only [SameLeaf] at h' ⊢
  case float => exact Double.same_trans h h'
  case raw => exact Json.same_trans h h'
  case enum => exact ⟨h.1.trans h'.1, h.2.trans h'.2⟩
  all_goals exact h.trans h'

/-- Every settled leaf but NaN is the same leaf as itself. -/
theorem sameLeaf_self_iff (leaf : v.isLeaf = true) (settled : v.Settled) :
    v.SameLeaf v ↔ .float .nan ≠ v := by
  cases v <;> simp at leaf <;> simp
  case float x => rw [Double.same_self_iff, ne_comm, ne_eq]
  case raw j => exact Json.same_refl (settled.untyped j .here)

end Leaves

/-! ### Parts -/

theorem eraseItems_eq (items : List Value) : eraseItems items = items.map erase := by
  induction items with
  | nil => rw [eraseItems, List.map_nil]
  | cons v rest ih => rw [eraseItems, ih, List.map_cons]

theorem eraseEntries_eq (entries : List (Value × Value)) :
    eraseEntries entries = entries.map fun e => (e.1.erase, e.2.erase) := by
  induction entries with
  | nil => rw [eraseEntries, List.map_nil]
  | cons e rest ih => rw [eraseEntries, ih, List.map_cons]

theorem isNull_iff {v : Value} : v.isNull = true ↔ v = .null := by cases v <;> simp [isNull]

/-- The fields that remain are those that hold something, each erased. -/
theorem mem_eraseFields {fields : List (String × Value)} {name : String} {x : Value} :
    (name, x) ∈ eraseFields fields ↔ ∃ v, (name, v) ∈ fields ∧ v ≠ .null ∧ x = v.erase := by
  induction fields with
  | nil => simp
  | cons f rest ih =>
    obtain ⟨n, v⟩ := f
    rw [eraseFields]
    split
    · next null =>
      rw [isNull_iff] at null
      subst null
      rw [ih]
      refine exists_congr fun w => ⟨fun ⟨there, other⟩ => ⟨.tail _ there, other⟩, ?_⟩
      rintro ⟨there, present, erased⟩
      rcases List.mem_cons.1 there with first | there
      · cases first
        exact absurd rfl present
      · exact ⟨there, present, erased⟩
    · next present =>
      rw [isNull_iff] at present
      simp only [List.mem_cons, ih, Prod.mk.injEq]
      constructor
      · rintro (⟨rfl, rfl⟩ | ⟨w, there, other⟩)
        · exact ⟨v, .inl ⟨rfl, rfl⟩, present, rfl⟩
        · exact ⟨w, .inr there, other⟩
      · rintro ⟨w, ⟨rfl, rfl⟩ | there, other, erased⟩
        · exact .inl ⟨rfl, erased⟩
        · exact .inr ⟨w, there, other, erased⟩

section Fields

variable {fields : List (String × Value)} {name : String} {x : Value}

/-- **What is left of a record** are the fields that do not read as null. -/
theorem mem_eraseFields_iff (distinct : (fields.map (·.1)).Nodup) :
    (name, x) ∈ eraseFields fields ↔
      fieldOf fields name ≠ .null ∧ x = (fieldOf fields name).erase := by
  rw [mem_eraseFields]
  constructor
  · rintro ⟨v, there, present, rfl⟩
    rw [fieldOf_of_mem distinct there]
    exact ⟨present, rfl⟩
  · rintro ⟨present, rfl⟩
    exact ⟨_, mem_of_fieldOf_ne present, present, rfl⟩

/-- A name remains exactly when something stands under it. -/
theorem name_mem_eraseFields (distinct : (fields.map (·.1)).Nodup) :
    name ∈ (eraseFields fields).map (·.1) ↔ fieldOf fields name ≠ .null := by
  rw [List.mem_map]
  constructor
  · rintro ⟨⟨_, x⟩, there, rfl⟩
    exact ((mem_eraseFields_iff distinct).1 there).1
  · exact fun present => ⟨(name, _), (mem_eraseFields_iff distinct).2 ⟨present, rfl⟩, rfl⟩

end Fields

/-! ### Values of one shape -/

/-- Only lists are erased to lists. -/
theorem erase_eq_list {v : Value} {xs : List Value} :
    v.erase = .list xs ↔ ∃ vs, v = .list vs ∧ xs = vs.map erase := by
  cases v <;> simp [eraseItems_eq, eq_comm]

/-- Only maps are erased to maps. -/
theorem erase_eq_map {v : Value} {xs : List (Value × Value)} :
    v.erase = .map xs ↔ ∃ es, v = .map es ∧ xs = es.map fun e => (e.1.erase, e.2.erase) := by
  cases v <;> simp [eraseEntries_eq, eq_comm]

/-- Only records are erased to records. -/
theorem erase_eq_record {v : Value} {n : String} {xs : List (String × Value)} :
    v.erase = .record n xs ↔ ∃ fs, v = .record n fs ∧ xs = eraseFields fs := by
  cases v <;> simp [eq_comm]

/-- An erased list is alike to nothing but erased lists of alike items. -/
theorem alike_erase_list {vs : List Value} {w : Value} :
    (list vs).erase.Alike w.erase ↔
      ∃ ws, w = .list ws ∧ List.Forall₂ (fun v w => v.erase.Alike w.erase) vs ws := by
  rw [erase, eraseItems_eq]
  constructor
  · generalize erased : w.erase = x
    intro alike
    cases alike with
    | leaf same => cases same.isLeaf.1
    | list items =>
      obtain ⟨ws, rfl, rfl⟩ := erase_eq_list.1 erased
      rw [List.forall₂_map_left_iff, List.forall₂_map_right_iff] at items
      exact ⟨ws, rfl, items⟩
  · rintro ⟨ws, rfl, items⟩
    rw [erase, eraseItems_eq]
    refine .list ?_
    rwa [List.forall₂_map_left_iff, List.forall₂_map_right_iff]

/-- An erased map is alike to nothing but erased maps of alike entries. -/
theorem alike_erase_map {es : List (Value × Value)} {w : Value} :
    (map es).erase.Alike w.erase ↔ ∃ fs, w = .map fs ∧
      List.Forall₂ (fun e f => e.1.erase.Alike f.1.erase ∧ e.2.erase.Alike f.2.erase) es fs := by
  simp only [forall₂_and]
  rw [erase, eraseEntries_eq]
  constructor
  · generalize erased : w.erase = x
    intro alike
    cases alike with
    | leaf same => cases same.isLeaf.1
    | map keys values =>
      obtain ⟨fs, rfl, rfl⟩ := erase_eq_map.1 erased
      simp only [List.map_map, List.forall₂_map_left_iff, List.forall₂_map_right_iff] at keys values
      exact ⟨fs, rfl, keys, values⟩
  · rintro ⟨fs, rfl, keys, values⟩
    rw [erase, eraseEntries_eq]
    refine .map ?_ ?_
    · rwa [List.map_map, List.map_map, List.forall₂_map_left_iff, List.forall₂_map_right_iff]
    · rwa [List.map_map, List.map_map, List.forall₂_map_left_iff, List.forall₂_map_right_iff]

/-- An erased record is alike to nothing but erased records with alike fields under the same names.
-/
theorem alike_erase_record {n : String} {fs : List (String × Value)} {w : Value} :
    (record n fs).erase.Alike w.erase ↔ ∃ gs, w = .record n gs ∧
      (∀ name, name ∈ (eraseFields fs).map (·.1) ↔ name ∈ (eraseFields gs).map (·.1)) ∧
      ∀ name x y, (name, x) ∈ eraseFields fs → (name, y) ∈ eraseFields gs → x.Alike y := by
  rw [erase]
  constructor
  · generalize erased : w.erase = x
    intro alike
    cases alike with
    | leaf same => cases same.isLeaf.1
    | record names each =>
      obtain ⟨gs, rfl, rfl⟩ := erase_eq_record.1 erased
      exact ⟨gs, rfl, names, each⟩
  · rintro ⟨gs, rfl, names, each⟩
    rw [erase]
    exact .record names each

end Erasing

/-! ## Sameness is having one shape up to null fields -/

/-- A field and its counterpart are the same, one of them is missing just if the other is, and what
is left of them is alike. -/
theorem same_iff_left {v w : Value} (ih : v ≠ .null → (v.same w = true ↔ v.erase.Alike w.erase)) :
    v.same w = true ↔ (v ≠ .null ↔ w ≠ .null) ∧
      (v ≠ .null → w ≠ .null → v.erase.Alike w.erase) := by
  by_cases left : v = .null
  · subst left
    constructor
    · intro same
      rw [same_null_left same]
      exact ⟨Iff.rfl, fun absent => absurd rfl absent⟩
    · rintro ⟨both, -⟩
      rw [not_not.1 fun present => both.2 present rfl, same]
  · rw [ih left]
    constructor
    · intro alike
      refine ⟨iff_of_true left ?_, fun _ _ => alike⟩
      rintro rfl
      exact left (same_null_right ((ih left).2 alike))
    · rintro ⟨both, alike⟩
      exact alike left (both.1 left)

/-- **Two values are the same just if they have one shape up to null fields.** -/
theorem same_iff_alike {v w : Value} (hv : v.Settled) (hw : w.Settled) :
    v.same w = true ↔ v.erase.Alike w.erase := by
  induction v generalizing w with
  | leaf v leaf => rw [erase_leaf leaf, alike_leaf leaf, sameLeaf_erase, same_leaf leaf]
  | list vs ih =>
    rw [alike_erase_list, same_list]
    refine exists_congr fun ws => and_congr_right ?_
    rintro rfl
    exact forall₂_congr_of fun v hv' w hw' => ih v hv' (hv.item v hv') (hw.item w hw')
  | map es ih =>
    rw [alike_erase_map, same_map]
    refine exists_congr fun fs => and_congr_right ?_
    rintro rfl
    exact forall₂_congr_of fun e he f hf => and_congr
      ((ih e he).1 (hv.key e he) (hw.key f hf)) ((ih e he).2 (hv.value e he) (hw.value f hf))
  | record n fs ih =>
    rw [alike_erase_record, same_record hv hw]
    refine exists_congr fun gs => and_congr_right ?_
    rintro rfl
    have each (name : String) := same_iff_left fun present =>
      ih _ (mem_of_fieldOf_ne present) (hv.fieldOf name) (hw.fieldOf name)
    constructor
    · refine fun same => ⟨fun name => ?_, fun name x y hx hy => ?_⟩
      · rw [name_mem_eraseFields hv.names, name_mem_eraseFields hw.names]
        exact ((each name).1 (same name)).1
      · obtain ⟨present, rfl⟩ := (mem_eraseFields_iff hv.names).1 hx
        obtain ⟨present', rfl⟩ := (mem_eraseFields_iff hw.names).1 hy
        exact ((each name).1 (same name)).2 present present'
    · refine fun ⟨names, alike⟩ name => (each name).2 ⟨?_, fun present present' => ?_⟩
      · rw [← name_mem_eraseFields hv.names, ← name_mem_eraseFields hw.names]
        exact names name
      · exact alike name _ _ ((mem_eraseFields_iff hv.names).2 ⟨present, rfl⟩)
          ((mem_eraseFields_iff hw.names).2 ⟨present', rfl⟩)

/-! ## Laws -/

/-- Sameness of settled values is symmetric. -/
theorem same_symm {v w : Value} (hv : v.Settled) (hw : w.Settled) (h : v.same w = true) :
    w.same v = true := by
  induction v generalizing w with
  | leaf v leaf =>
    have same := (same_leaf leaf).1 h
    exact (same_leaf same.isLeaf.2).2 (same.symm hv)
  | list vs ih =>
    obtain ⟨ws, rfl, items⟩ := same_list.1 h
    exact same_list.2 ⟨vs, rfl, forall₂_symm_of items fun v hv' w hw' =>
      ih v hv' (hv.item v hv') (hw.item w hw')⟩
  | map es ih =>
    obtain ⟨fs, rfl, entries⟩ := same_map.1 h
    exact same_map.2 ⟨es, rfl, forall₂_symm_of entries fun e he f hf same =>
      ⟨(ih e he).1 (hv.key e he) (hw.key f hf) same.1,
        (ih e he).2 (hv.value e he) (hw.value f hf) same.2⟩⟩
  | record n fs ih =>
    obtain ⟨gs, rfl, each⟩ := (same_record hv hw).1 h
    refine (same_record hw hv).2 ⟨fs, rfl, fun name => ?_⟩
    have same := each name
    by_cases present : fieldOf fs name = .null
    · rw [present] at same ⊢
      rw [same_null_left same, Value.same]
    · exact ih _ (mem_of_fieldOf_ne present) (hv.fieldOf name) (hw.fieldOf name) same

/-- Sameness of settled values is transitive. -/
theorem same_trans {v w u : Value} (hv : v.Settled) (hw : w.Settled) (hu : u.Settled)
    (h : v.same w = true) (h' : w.same u = true) : v.same u = true := by
  induction v generalizing w u with
  | leaf v leaf =>
    have same := (same_leaf leaf).1 h
    exact (same_leaf leaf).2 (same.trans ((same_leaf same.isLeaf.2).1 h'))
  | list vs ih =>
    obtain ⟨ws, rfl, items⟩ := same_list.1 h
    obtain ⟨us, rfl, items'⟩ := same_list.1 h'
    exact same_list.2 ⟨us, rfl, forall₂_trans_of items items' fun v hv' w hw' u hu' =>
      ih v hv' (hv.item v hv') (hw.item w hw') (hu.item u hu')⟩
  | map es ih =>
    obtain ⟨fs, rfl, entries⟩ := same_map.1 h
    obtain ⟨gs, rfl, entries'⟩ := same_map.1 h'
    exact same_map.2 ⟨gs, rfl, forall₂_trans_of entries entries' fun e he f hf g hg same same' =>
      ⟨(ih e he).1 (hv.key e he) (hw.key f hf) (hu.key g hg) same.1 same'.1,
        (ih e he).2 (hv.value e he) (hw.value f hf) (hu.value g hg) same.2 same'.2⟩⟩
  | record n fs ih =>
    obtain ⟨gs, rfl, each⟩ := (same_record hv hw).1 h
    obtain ⟨ks, rfl, each'⟩ := (same_record hw hu).1 h'
    refine (same_record hv hu).2 ⟨ks, rfl, fun name => ?_⟩
    have same := each name
    by_cases present : fieldOf fs name = .null
    · rw [present] at same ⊢
      rw [← same_null_left same]
      exact each' name
    · exact ih _ (mem_of_fieldOf_ne present) (hv.fieldOf name) (hw.fieldOf name)
        (hu.fieldOf name) same (each' name)

/-- A settled value is the same as itself just if it holds no number that is not. -/
theorem same_self_iff {v : Value} (hv : v.Settled) :
    v.same v = true ↔ ¬(float .nan).OccursIn v := by
  induction v with
  | leaf v leaf =>
    rw [same_leaf leaf, occursIn_leaf leaf]
    exact sameLeaf_self_iff leaf hv
  | list vs ih =>
    rw [same_list, occursIn_list rfl, not_exists]
    simp only [list.injEq, exists_eq_left', List.forall₂_same, not_and]
    exact forall₂_congr fun v hv' => ih v hv' (hv.item v hv')
  | map es ih =>
    rw [same_map, occursIn_map rfl, not_exists]
    simp only [map.injEq, exists_eq_left', List.forall₂_same, not_and, not_or, SameEntry]
    exact forall₂_congr fun e he =>
      and_congr ((ih e he).1 (hv.key e he)) ((ih e he).2 (hv.value e he))
  | record n fs ih =>
    rw [same_record hv hv, occursIn_record rfl, not_exists]
    simp only [record.injEq, true_and, exists_eq_left', not_and]
    constructor
    · rintro each ⟨name, v⟩ hf
      have same := each name
      rw [fieldOf_of_mem hv.names hf] at same
      exact (ih _ hf (hv.field _ hf)).1 same
    · intro each name
      by_cases present : fieldOf fs name = .null
      · rw [present, same]
      · have hf := mem_of_fieldOf_ne present
        exact (ih _ hf (hv.field _ hf)).2 (each _ hf)

/-- **Sameness is having one shape up to null fields**, so it is symmetric and transitive, and
reflexive on whatever holds no number that is not the same as itself. -/
theorem same_up_to_null {v w u : Value} (hv : v.Settled) (hw : w.Settled) (hu : u.Settled) :
    (v.same w = true ↔ v.erase.Alike w.erase) ∧
      (v.same w = true → w.same v = true) ∧
      (v.same w = true → w.same u = true → v.same u = true) ∧
      (v.same v = true ↔ ¬(float .nan).OccursIn v) :=
  ⟨same_iff_alike hv hw, same_symm hv hw, same_trans hv hw hu, same_self_iff hv⟩

theorem same_up_to_null_user :
    let v := record "User" [("age", .null), ("tag", .record "Tag" [("note", .null)])]
    let w := record "User" [("tag", .record "Tag" [])]
    v.Settled ∧ w.Settled ∧ (v.same w = true ↔ v.erase.Alike w.erase) ∧
      (v.same w = true → w.same v = true) ∧
      (v.same w = true → w.same v = true → v.same v = true) ∧
      (v.same v = true ↔ ¬(float .nan).OccursIn v) := by
  have left : (record "User" [("age", .null), ("tag", .record "Tag" [("note", .null)])]).Settled := by
    refine settled_record (by decide) ?_
    simp only [List.forall_mem_cons]
    refine ⟨settled_null, settled_record (by decide) ?_, nofun⟩
    simp only [List.forall_mem_cons]
    exact ⟨settled_null, nofun⟩
  have right : (record "User" [("tag", .record "Tag" [])]).Settled := by
    refine settled_record (by decide) ?_
    simp only [List.forall_mem_cons]
    exact ⟨settled_record (by decide) nofun, nofun⟩
  exact ⟨left, right, same_up_to_null left right left⟩

end Value

end RpcBridge
