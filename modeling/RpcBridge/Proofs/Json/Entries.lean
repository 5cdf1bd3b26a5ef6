import RpcBridge.Value.Basic

/-!
# Proofs/Json/Entries — entering and finding by name

Members of objects are entered with `putEntry`, fields of records with `Value.putField`; both are
found with `List.lookup`.

* `lookup_putEntry`, `lookup_putField` — what has been entered is found, all else is as before;
* `putEntry_of_lookup_eq_none`, `exists_putEntry` — a new name comes last, one that is there
  keeps its place;
* `lookup_ofFields`, `perm_enterFields` — fields of distinct names are found in the record made of
  them, and are all there is in it.
-/

namespace RpcBridge

variable {α : Type}

/-! ## Finding -/

theorem lookup_cons_eq (name : String) (value : α) (rest : List (String × α)) (a : String) :
    ((name, value) :: rest).lookup a = if a = name then some value else rest.lookup a := by
  by_cases h : a = name
  · rw [if_pos h, h, List.lookup_cons_self]
  · rw [if_neg h, List.lookup_cons, beq_false_of_ne h]

theorem mem_of_lookup_eq_some {entries : List (String × α)} {name : String} {value : α}
    (h : entries.lookup name = some value) : (name, value) ∈ entries := by
  obtain ⟨before, after, rfl, -⟩ := List.lookup_eq_some_iff.1 h
  simp

theorem lookup_eq_none {entries : List (String × α)} {name : String}
    (h : name ∉ entries.map (·.1)) : entries.lookup name = none := by
  refine List.lookup_eq_none_iff.2 fun e he => ?_
  have : name ≠ e.1 := fun same => h (List.mem_map.2 ⟨e, he, same.symm⟩)
  simpa using this

theorem exists_lookup {entries : List (String × α)} {name : String}
    (h : name ∈ entries.map (·.1)) : ∃ value, entries.lookup name = some value := by
  obtain ⟨e, he, rfl⟩ := List.mem_map.1 h
  cases there : entries.lookup e.1 with
  | some value => exact ⟨value, rfl⟩
  | none => simpa using List.lookup_eq_none_iff.1 there e he

/-- **Among distinct names, what is there is found.** -/
theorem lookup_eq_some_of_mem {entries : List (String × α)} {name : String} {value : α}
    (distinct : (entries.map (·.1)).Nodup) (h : (name, value) ∈ entries) :
    entries.lookup name = some value := by
  induction entries with
  | nil => cases h
  | cons e rest ih =>
    simp only [List.map_cons, List.nodup_cons] at distinct
    rw [lookup_cons_eq]
    rcases List.mem_cons.1 h with rfl | h
    · rw [if_pos rfl]
    · have : name ≠ e.1 := fun same => distinct.1 (List.mem_map.2 ⟨_, h, same⟩)
      rw [if_neg this, ih distinct.2 h]

theorem lookup_append_of_none {before after : List (String × α)} {name : String}
    (h : before.lookup name = none) : (before ++ after).lookup name = after.lookup name := by
  rw [List.lookup_append, h, Option.none_or]

/-! ## Entering members -/

theorem lookup_putEntry (entries : List (String × α)) (name : String) (value : α) (a : String) :
    (putEntry entries name value).lookup a = if a = name then some value else entries.lookup a := by
  induction entries with
  | nil => rw [putEntry, lookup_cons_eq]
  | cons e rest ih =>
    obtain ⟨n, v⟩ := e
    rw [putEntry]
    by_cases hn : n = name
    · subst hn
      rw [if_pos rfl, lookup_cons_eq, lookup_cons_eq]
      split <;> rfl
    · rw [if_neg hn, lookup_cons_eq, lookup_cons_eq, ih]
      by_cases ha : a = n
      · rw [if_pos ha, if_pos ha, if_neg (ha ▸ hn)]
      · rw [if_neg ha, if_neg ha]

/-- A new name comes last. -/
theorem putEntry_of_lookup_eq_none {entries : List (String × α)} {name : String} (value : α)
    (h : entries.lookup name = none) :
    putEntry entries name value = entries ++ [(name, value)] := by
  induction entries with
  | nil => rw [putEntry, List.nil_append]
  | cons e rest ih =>
    obtain ⟨n, v⟩ := e
    rw [lookup_cons_eq] at h
    by_cases hn : name = n
    · rw [if_pos hn] at h
      cases h
    · rw [if_neg hn] at h
      rw [putEntry, if_neg (Ne.symm hn), ih h, List.cons_append]

/-- A name that is there keeps its place. -/
theorem putEntry_append_cons {before after : List (String × α)} {name : String} {old value : α}
    (h : before.lookup name = none) :
    putEntry (before ++ (name, old) :: after) name value = before ++ (name, value) :: after := by
  induction before with
  | nil => rw [List.nil_append, putEntry, if_pos rfl, List.nil_append]
  | cons e rest ih =>
    obtain ⟨n, v⟩ := e
    rw [lookup_cons_eq] at h
    by_cases hn : name = n
    · rw [if_pos hn] at h
      cases h
    · rw [if_neg hn] at h
      rw [List.cons_append, putEntry, if_neg (Ne.symm hn), ih h, List.cons_append]

/-- The first entry of a name gives way to the new one; without one, the new one comes last. -/
theorem exists_putEntry (entries : List (String × α)) (name : String) :
    ∃ before after,
      entries = before ++ ((entries.lookup name).map (Prod.mk name)).toList ++ after ∧
      ∀ value, putEntry entries name value = before ++ (name, value) :: after := by
  induction entries with
  | nil => exact ⟨[], [], rfl, fun value => by rw [putEntry, List.nil_append]⟩
  | cons e rest ih =>
    obtain ⟨n, v⟩ := e
    by_cases hn : name = n
    · subst hn
      refine ⟨[], rest, ?_, fun value => by rw [putEntry, if_pos rfl, List.nil_append]⟩
      rw [List.lookup_cons_self]
      rfl
    · obtain ⟨before, after, parts, put⟩ := ih
      refine ⟨(n, v) :: before, after, ?_, fun value => ?_⟩
      · rw [lookup_cons_eq, if_neg hn, List.cons_append, List.cons_append, ← parts]
      · rw [putEntry, if_neg (Ne.symm hn), put, List.cons_append]

theorem mem_putEntry {entries : List (String × α)} {name : String} {value : α} {e : String × α}
    (h : e ∈ putEntry entries name value) : e = (name, value) ∨ e ∈ entries := by
  obtain ⟨before, after, parts, put⟩ := exists_putEntry entries name
  rw [put] at h
  rw [parts]
  rcases List.mem_append.1 h with h | h
  · exact Or.inr (List.mem_append_left _ (List.mem_append_left _ h))
  · rcases List.mem_cons.1 h with rfl | h
    · exact Or.inl rfl
    · exact Or.inr (List.mem_append_right _ h)

/-- Names stay distinct. -/
theorem nodup_putEntry {entries : List (String × α)} (distinct : (entries.map (·.1)).Nodup)
    (name : String) (value : α) : ((putEntry entries name value).map (·.1)).Nodup := by
  induction entries with
  | nil => simp [putEntry]
  | cons e rest ih =>
    obtain ⟨n, v⟩ := e
    rw [List.map_cons, List.nodup_cons] at distinct
    by_cases hn : n = name
    · rw [putEntry, if_pos hn, List.map_cons, List.nodup_cons]
      exact distinct
    · rw [putEntry, if_neg hn, List.map_cons, List.nodup_cons]
      refine ⟨fun there => ?_, ih distinct.2⟩
      obtain ⟨e, he, same⟩ := List.mem_map.1 there
      rcases mem_putEntry he with rfl | he
      · exact hn same.symm
      · exact distinct.1 (List.mem_map.2 ⟨e, he, same⟩)

/-- Entering what is there already changes nothing. -/
theorem putEntry_self {entries : List (String × α)} {name : String} {value : α}
    (h : entries.lookup name = some value) : putEntry entries name value = entries := by
  obtain ⟨before, after, parts, put⟩ := exists_putEntry entries name
  rw [h] at parts
  rw [put, parts]
  simp

/-- Of two values entered under one name the later one counts. -/
theorem putEntry_putEntry (entries : List (String × α)) (name : String) (first second : α) :
    putEntry (putEntry entries name first) name second = putEntry entries name second := by
  induction entries with
  | nil => simp only [putEntry, if_true]
  | cons e rest ih =>
    obtain ⟨n, v⟩ := e
    by_cases hn : n = name
    · simp only [putEntry, hn, if_true]
    · simp only [putEntry, hn, if_false, ih]

theorem map_putEntry {β : Type} (f : α → β) (entries : List (String × α)) (name : String)
    (value : α) :
    (putEntry entries name value).map (fun e => (e.1, f e.2)) =
      putEntry (entries.map fun e => (e.1, f e.2)) name (f value) := by
  induction entries with
  | nil => rfl
  | cons e rest ih =>
    obtain ⟨n, v⟩ := e
    by_cases hn : n = name
    · simp only [putEntry, hn, if_true, List.map_cons]
    · simp only [putEntry, hn, if_false, List.map_cons, ih]

theorem lookup_map {β : Type} (f : α → β) (entries : List (String × α)) (name : String) :
    (entries.map fun e => (e.1, f e.2)).lookup name = (entries.lookup name).map f := by
  induction entries with
  | nil => rfl
  | cons e rest ih =>
    rw [List.map_cons, lookup_cons_eq, lookup_cons_eq, ih]
    split <;> rfl

/-! ## Entering fields -/

namespace Value

theorem lookup_putField (fields : List (String × Value)) (name : String) (value : Value)
    (a : String) :
    (putField fields name value).lookup a = if a = name then some value else fields.lookup a := by
  induction fields with
  | nil => rw [putField, lookup_cons_eq]
  | cons f rest ih =>
    obtain ⟨n, v⟩ := f
    rw [putField]
    by_cases before : name < n
    · rw [if_pos before, lookup_cons_eq]
    · rw [if_neg before]
      by_cases hn : n = name
      · subst hn
        rw [if_pos rfl, lookup_cons_eq, lookup_cons_eq]
        split <;> rfl
      · rw [if_neg hn, lookup_cons_eq, lookup_cons_eq, ih]
        by_cases ha : a = n
        · rw [if_pos ha, if_pos ha, if_neg (ha ▸ hn)]
        · rw [if_neg ha, if_neg ha]

theorem mem_putField {fields : List (String × Value)} {name : String} {value : Value}
    {f : String × Value} (h : f ∈ putField fields name value) :
    f = (name, value) ∨ f ∈ fields := by
  induction fields with
  | nil => simpa [putField] using h
  | cons g rest ih =>
    obtain ⟨n, v⟩ := g
    rw [putField] at h
    split at h
    · simpa using h
    · split at h
      · rcases List.mem_cons.1 h with rfl | h
        · exact Or.inl rfl
        · exact Or.inr (List.mem_cons_of_mem _ h)
      · rcases List.mem_cons.1 h with rfl | h
        · exact Or.inr (List.mem_cons_self ..)
        · exact (ih h).imp id (List.mem_cons_of_mem _)

/-- A new field comes to those that are there. -/
theorem perm_putField {fields : List (String × Value)} {name : String} (value : Value)
    (h : name ∉ fields.map (·.1)) : (putField fields name value).Perm ((name, value) :: fields) := by
  induction fields with
  | nil => exact .refl _
  | cons f rest ih =>
    obtain ⟨n, v⟩ := f
    rw [List.map_cons, List.mem_cons, not_or] at h
    rw [putField]
    split
    · exact .refl _
    · rw [if_neg (Ne.symm h.1)]
      exact ((ih h.2).cons (n, v)).trans (.swap ..)

/-- The fields of a record that is made of `fields` on top of `done`. -/
def enterFields (done fields : List (String × Value)) : List (String × Value) :=
  fields.foldl (fun done f => putField done f.1 f.2) done

theorem ofFields_eq (typeName : String) (fields : List (String × Value)) :
    ofFields typeName fields = .record typeName (enterFields [] fields) := rfl

theorem lookup_enterFields {fields : List (String × Value)} (distinct : (fields.map (·.1)).Nodup)
    (done : List (String × Value)) (a : String) :
    (enterFields done fields).lookup a = (fields.lookup a).or (done.lookup a) := by
  induction fields generalizing done with
  | nil => rfl
  | cons f rest ih =>
    simp only [List.map_cons, List.nodup_cons] at distinct
    have step : enterFields done (f :: rest) = enterFields (putField done f.1 f.2) rest := rfl
    rw [step, ih distinct.2, lookup_putField, lookup_cons_eq]
    by_cases ha : a = f.1
    · rw [if_pos ha, if_pos ha, lookup_eq_none (ha ▸ distinct.1)]
      rfl
    · rw [if_neg ha, if_neg ha]

/-- Fields of distinct names are all in the record made of them. -/
theorem perm_enterFields {fields done : List (String × Value)}
    (distinct : (fields.map (·.1)).Nodup) (new : ∀ f ∈ fields, f.1 ∉ done.map (·.1)) :
    (enterFields done fields).Perm (fields ++ done) := by
  induction fields generalizing done with
  | nil => exact .refl _
  | cons f rest ih =>
    obtain ⟨name, v⟩ := f
    rw [List.map_cons, List.nodup_cons] at distinct
    rw [List.forall_mem_cons] at new
    have step : enterFields done ((name, v) :: rest) = enterFields (putField done name v) rest :=
      rfl
    have entered := perm_putField v new.1
    have new_rest : ∀ f ∈ rest, f.1 ∉ (putField done name v).map (·.1) := by
      intro f hf there
      rcases List.mem_cons.1 ((entered.map (·.1)).mem_iff.1 there) with same | there
      · exact distinct.1 (List.mem_map.2 ⟨f, hf, same⟩)
      · exact new.2 f hf there
    rw [step]
    refine (ih distinct.2 new_rest).trans ?_
    exact (entered.append_left rest).trans List.perm_middle

theorem mem_enterFields {fields done : List (String × Value)} {f : String × Value}
    (h : f ∈ enterFields done fields) : f ∈ fields ∨ f ∈ done := by
  induction fields generalizing done with
  | nil => exact Or.inr h
  | cons g rest ih =>
    rcases ih h with inRest | inPut
    · exact Or.inl (List.mem_cons_of_mem _ inRest)
    · rcases mem_putField inPut with rfl | inDone
      · exact Or.inl (List.mem_cons_self ..)
      · exact Or.inr inDone

/-- **Fields of distinct names are found in the record made of them.** -/
theorem lookup_ofFields {fields : List (String × Value)} (distinct : (fields.map (·.1)).Nodup)
    (a : String) : (enterFields [] fields).lookup a = fields.lookup a := by
  rw [lookup_enterFields distinct, List.lookup_nil, Option.or_none]

end Value

end RpcBridge
