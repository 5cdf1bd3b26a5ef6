import RpcBridge.Proofs.Client.Generation
import RpcBridge.Proofs.Client.Memory
import RpcBridge.Proofs.Wire.Keys

/-!
# Proofs/Client/Changes — where generated code has something to do

Whether the conversion of a shape changes anything is known from the shape alone, and so is
whether two places that are built step by step have the same text.

* `transforms_eq` — code transforms exactly if its shape changes;
* `copied_of_list`, `copied_of_mapping`, … — a container whose code does not is copied whole;
* `Place.toText_slot_ne` — slots of different temporaries never have the same text;
* `runAll_key` — what is done to a key that is handed over as it is.
-/

namespace RpcBridge

namespace Shape

mutual

/-- Whether the conversion of a shape changes anything. -/
def changes (direction : Client.Direction) : Shape → Bool
  | .scalar _ | .enum _ | .bareTemplate _ _ _ | .blocked _ _ => false
  | .temporal _ => true
  | .list element => element.changes direction
  | .tuple items => anyItem direction items
  | .mapping key value => key.changes direction || value.changes direction
  | .optional inner => direction = .back || inner.changes direction
  | .record _ fields | .opened _ _ fields => anyField direction fields
  | .wrapper _ _ inner => inner.changes direction

/-- Whether the conversion of an item changes anything. -/
def anyItem (direction : Client.Direction) : List Shape → Bool
  | [] => false
  | s :: rest => s.changes direction || anyItem direction rest

/-- Whether the conversion of a field changes anything. -/
def anyField (direction : Client.Direction) : List (String × Shape) → Bool
  | [] => false
  | (_, s) :: rest => s.changes direction || anyField direction rest

end

/-- Whether a key of the shape is handed over as it is. -/
def isPlainKey : Shape → Bool
  | .scalar _ | .enum _ => true
  | .optional inner | .wrapper _ _ inner => inner.isPlainKey
  | _ => false

end Shape

namespace Client

/-! ## Parts of what does not change -/

theorem anyItem_eq_any (direction : Direction) (items : List Shape) :
    Shape.anyItem direction items = items.any (Shape.changes direction) := by
  induction items with
  | nil => rfl
  | cons s rest ih => rw [Shape.anyItem, List.any_cons, ih]

theorem anyField_eq_any (direction : Direction) (fields : List (String × Shape)) :
    Shape.anyField direction fields = fields.any fun f => f.2.changes direction := by
  induction fields with
  | nil => rfl
  | cons f rest ih => rw [Shape.anyField, List.any_cons, ih]

/-- Where no item changes, each item stays. -/
theorem anyItem_eq_false {direction : Direction} {items : List Shape}
    (h : Shape.anyItem direction items = false) : ∀ s ∈ items, s.changes direction = false := by
  rw [anyItem_eq_any, List.any_eq_false] at h
  exact fun s hs => Bool.eq_false_iff.2 (h s hs)

/-- Where no field changes, each field stays. -/
theorem anyField_eq_false {direction : Direction} {fields : List (String × Shape)}
    (h : Shape.anyField direction fields = false) :
    ∀ f ∈ fields, f.2.changes direction = false := by
  rw [anyField_eq_any, List.any_eq_false] at h
  exact fun f hf => Bool.eq_false_iff.2 (h f hf)

/-! ## Code that transforms -/

section Transforms

variable {direction : Direction} {source target : Place} {n m : Nat} {code : Code}

@[simp] theorem transforms_copy (source target : Place) :
    (Code.copy source target).transforms = false := by
  unfold Code.copy
  split <;> rfl

@[simp] theorem transforms_ofList (direction : Direction) (index : Temp) (source target : Place)
    (inner : Code) :
    (Code.ofList direction index source target inner).transforms = inner.transforms := by
  unfold Code.ofList
  cases h : inner.transforms <;> simp

@[simp] theorem transforms_ofMoved (source target : Place) (inPlace : Code) :
    (Code.ofMoved source target inPlace).transforms = inPlace.transforms := by
  unfold Code.ofMoved
  cases h : inPlace.transforms <;> simp

@[simp] theorem transforms_ofMapping (direction : Direction) (key prepared : Temp)
    (source target : Place) (keys values : Code) :
    (Code.ofMapping direction key prepared source target keys values).transforms =
      (keys.transforms || values.transforms) := by
  unfold Code.ofMapping
  cases h : keys.transforms || values.transforms <;> simp

@[simp] theorem transforms_ofTuple (direction : Direction) (source target : Place) (inner : Code) :
    (Code.ofTuple direction source target inner).transforms = inner.transforms := by
  cases direction with
  | out =>
    simp only [Code.ofTuple]
    cases h : inner.transforms <;> simp
  | back => rfl

@[simp] theorem transforms_ofOptional (direction : Direction) (source target : Place)
    (inner : Code) : (Code.ofOptional direction source target inner).transforms =
      (direction = .back || inner.transforms) := by
  cases direction <;> rfl

/-- Items are transformed exactly if one of them changes. -/
theorem transforms_convertItems {items : List Shape} {start : Nat}
    (each : ∀ s ∈ items, ∀ {source target n code m},
      Yields (convert direction s source target) n code m → code.transforms = s.changes direction)
    (h : Yields (convertItems direction items start source target) n code m) :
    code.transforms = Shape.anyItem direction items := by
  induction items generalizing start n code with
  | nil => rw [(convertItems_nil h).1, Code.empty, Shape.anyItem]
  | cons s rest ih =>
    rw [List.forall_mem_cons] at each
    obtain ⟨head, between, tail, first, others, rfl⟩ := convertItems_cons h
    rw [Code.append, Shape.anyItem, each.1 first, ih each.2 others]

/-- Fields are transformed exactly if one of them changes. -/
theorem transforms_convertFields {record : String} {fields : List (String × Shape)}
    (each : ∀ f ∈ fields, ∀ {source target n code m},
      Yields (convert direction f.2 source target) n code m →
        code.transforms = f.2.changes direction)
    (h : Yields (convertFields direction record fields source target) n code m) :
    code.transforms = Shape.anyField direction fields := by
  induction fields generalizing n code with
  | nil => rw [(convertFields_nil h).1, Code.empty, Shape.anyField]
  | cons f rest ih =>
    rw [List.forall_mem_cons] at each
    obtain ⟨head, between, tail, -, first, others, rfl⟩ := convertFields_cons h
    rw [Code.append, Shape.anyField, each.1 first, ih each.2 others]

/-- **Code transforms exactly if its shape changes.** -/
theorem transforms_eq {s : Shape} (h : Yields (convert direction s source target) n code m) :
    code.transforms = s.changes direction := by
  induction s generalizing source target n code m with
  | scalar => rw [(convert_scalar h).1, transforms_copy, Shape.changes]
  | enum => rw [(convert_enum h).1, transforms_copy, Shape.changes]
  | temporal =>
    rw [(convert_temporal h).1, Shape.changes]
    rfl
  | list element ih =>
    obtain ⟨inner, generated, rfl⟩ := convert_list h
    rw [transforms_ofList, ih generated, Shape.changes]
  | mapping key value ihKey ihValue =>
    obtain ⟨keys, between, walked, generated, ⟨-, values, rfl⟩ | ⟨-, values, rfl⟩⟩ :=
      convert_mapping h
    · rw [transforms_ofMapping, ihKey generated, ihValue values, Shape.changes]
    · rw [transforms_ofMapping, transforms_ofMoved, ihKey generated, ihValue values, Shape.changes]
  | tuple items ih =>
    obtain ⟨inner, generated, rfl⟩ := convert_tuple h
    rw [transforms_ofTuple, transforms_convertItems (fun s hs => ih s hs) generated, Shape.changes]
  | optional inner ih =>
    obtain ⟨present, generated, rfl⟩ := convert_optional h
    rw [transforms_ofOptional, ih generated, Shape.changes]
  | record name fields ih =>
    obtain ⟨inner, generated, rfl⟩ := convert_record h
    rw [Shape.changes, ← transforms_convertFields (fun f hf => ih f hf) generated]
  | wrapper _ _ inner ih => rw [Shape.changes, ih (convert_wrapper h)]
  | opened _ _ fields ih =>
    obtain ⟨field, inner, rfl, generated⟩ := convert_opened h
    rw [Shape.changes, Shape.anyField, Shape.anyField, Bool.or_false]
    exact ih _ (List.mem_singleton.2 rfl) generated
  | bareTemplate => exact (convert_bareTemplate h).elim
  | blocked => exact (convert_blocked h).elim

end Transforms

/-! ## Containers that are copied whole -/

section Copied

variable {direction : Direction} {source target : Place} {n m : Nat} {code : Code}

/-- An array that is not transformed is copied. -/
theorem copied_of_list {element : Shape}
    (h : Yields (convert direction (.list element) source target) n code m)
    (unchanged : code.transforms = false) : code = .copy source target := by
  obtain ⟨inner, -, rfl⟩ := convert_list h
  rw [transforms_ofList] at unchanged
  rw [Code.ofList, unchanged, if_neg Bool.false_ne_true]

/-- A dictionary that is not transformed is copied, whatever has been generated for its entries. -/
theorem copied_ofMapping {key prepared : Temp} {keys values : Code}
    (unchanged :
      (Code.ofMapping direction key prepared source target keys values).transforms = false) :
    Code.ofMapping direction key prepared source target keys values = .copy source target := by
  rw [transforms_ofMapping] at unchanged
  rw [Code.ofMapping, unchanged, if_neg Bool.false_ne_true]

/-- The code for a dictionary that does not transform is a copy. -/
theorem copied_of_mapping {key value : Shape}
    (h : Yields (convert direction (.mapping key value) source target) n code m)
    (unchanged : code.transforms = false) : code = .copy source target := by
  obtain ⟨keys, -, walked, -, ⟨-, -, rfl⟩ | ⟨-, -, rfl⟩⟩ := convert_mapping h
  · exact copied_ofMapping unchanged
  · exact copied_ofMapping unchanged

/-- A tuple that is not transformed is copied on the way out. -/
theorem copied_of_tuple {items : List Shape}
    (h : Yields (convert .out (.tuple items) source target) n code m)
    (unchanged : code.transforms = false) : code = .copy source target := by
  obtain ⟨inner, -, rfl⟩ := convert_tuple h
  rw [transforms_ofTuple] at unchanged
  simp only [Code.ofTuple, unchanged, if_neg Bool.false_ne_true]

end Copied

/-! ## Texts of places -/

namespace Place

variable {p q : Place}

/-- Fields of one name have the same text exactly if they are fields of the same text. -/
theorem toText_field_eq_iff (name : String) :
    (field p name).toText = (field q name).toText ↔ p.toText = q.toText := by
  simp only [toText, String.append_left_inj]

theorem toText_item_eq_iff (i : Nat) :
    (item p i).toText = (item q i).toText ↔ p.toText = q.toText := by
  simp only [toText, String.append_left_inj]

theorem toText_slot_eq_iff (t : Temp) :
    (slot p t).toText = (slot q t).toText ↔ p.toText = q.toText := by
  simp only [toText, String.append_left_inj]

/-- A number behind a letter is read off the end of a text. -/
theorem digits_of_append {front back : List Char} {a b : Nat} {c d : Char}
    (hc : c.isDigit = false) (hd : d.isDigit = false)
    (h : front ++ c :: Nat.toDigits 10 a = back ++ d :: Nat.toDigits 10 b) : a = b := by
  have read {l : List Char} {e : Char} {k : Nat} (he : e.isDigit = false) :
      (l ++ e :: Nat.toDigits 10 k).reverse.takeWhile Char.isDigit =
        (Nat.toDigits 10 k).reverse := by
    rw [List.reverse_append, List.reverse_cons, List.append_assoc, List.takeWhile_append_of_pos,
      List.singleton_append, List.takeWhile_cons_of_neg, List.append_nil]
    · simp [he]
    · intro x hx
      exact List.all_eq_true.1 (Numeral.isDigit_toDigits k) x (List.mem_reverse.1 hx)
  have same := congrArg (fun l => l.reverse.takeWhile Char.isDigit) h
  simp only [read hc, read hd, List.reverse_inj] at same
  rw [← Numeral.ofDigits_toDigits a, ← Numeral.ofDigits_toDigits b, same]

/-- Temporaries of different numbers never have the same text, whatever stands in front. -/
theorem append_name_ne (front back : String) {a b : Nat} (ne : a ≠ b) :
    front ++ Temp.name ⟨"k", a⟩ ≠ back ++ Temp.name ⟨"k", b⟩ := by
  intro same
  have digits (n : Nat) : (toString n).toList = Nat.toDigits 10 n := Nat.toList_repr
  have lists := congrArg String.toList same
  simp only [Temp.name, String.toList_append, digits] at lists
  exact ne (digits_of_append (c := 'k') (d := 'k') rfl rfl lists)

/-- Keys of different numbers have different texts. -/
theorem toText_temp_ne {a b : Nat} (ne : a ≠ b) :
    (temp ⟨"k", a⟩).toText ≠ (temp ⟨"k", b⟩).toText := by
  intro same
  refine append_name_ne "" "" ne ?_
  rw [String.empty_append, String.empty_append]
  exact same

/-- **Slots of different temporaries never have the same text.** -/
theorem toText_slot_ne {a b : Nat} (ne : a ≠ b) :
    (slot p ⟨"k", a⟩).toText ≠ (slot q ⟨"k", b⟩).toText := by
  intro same
  simp only [toText, String.append_left_inj] at same
  exact append_name_ne _ _ ne same

end Place

/-! ## Keys -/

/-- **A plain key is handed over as it is.** -/
theorem runAll_key {js : Engine} {direction : Direction} {key : Shape}
    (plain : key.isPlainKey = true) {a b n m : Nat} (ne : a ≠ b) {code : Code}
    (h : Yields (convert direction key (.temp ⟨"k", a⟩) (.temp ⟨"k", b⟩)) n code m)
    {μ : Memory} {text : String} (there : μ.vars (.temp ⟨"k", a⟩) = .atom (.string text)) :
    Statement.runAll js code.body μ =
      .ok (μ.put (.var (.temp ⟨"k", b⟩)) (some (.atom (.string text)))) := by
  have reads : μ.value js (.temp ⟨"k", a⟩) = .ok (.atom (.string text)) := by
    rw [← there]
    rfl
  have copied : Statement.runAll js (Code.copy (.temp ⟨"k", a⟩) (.temp ⟨"k", b⟩)).body μ =
      .ok (μ.put (.var (.temp ⟨"k", b⟩)) (some (.atom (.string text)))) := by
    rw [Code.copy, if_neg (Place.toText_temp_ne ne)]
    simp only [Statement.runAll, Statement.run, Operand.run, reads, Memory.spot, Memory.store,
      ok_bind, pure_eq_ok]
  induction key generalizing n code m with
  | scalar => rwa [(convert_scalar h).1]
  | enum => rwa [(convert_enum h).1]
  | wrapper _ _ inner ih =>
    rw [Shape.isPlainKey] at plain
    exact ih plain (convert_wrapper h)
  | optional inner ih =>
    rw [Shape.isPlainKey] at plain
    obtain ⟨present, generated, rfl⟩ := convert_optional h
    have inside := ih plain generated
    cases direction <;>
      simp [Code.ofOptional, Statement.runAll, Statement.run, reads, inside]
  | temporal | list | mapping | tuple | record | bareTemplate | opened | blocked =>
    simp [Shape.isPlainKey] at plain

end Client

end RpcBridge
