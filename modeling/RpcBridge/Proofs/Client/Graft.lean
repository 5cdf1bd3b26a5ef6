import RpcBridge.Proofs.Client.Alike
import RpcBridge.Proofs.Client.Scoping

/-!
# Proofs/Client/Graft — one conversion in two places

The code that converts a value in place is the same wherever the value stands, up to the place and
the numbers of the temporaries.  A *graft* says how the code for the variable of a result becomes
the code for a slot somewhere else.  Code that is carried over uses only temporaries that it has
introduced itself, copies and converts what is there, and makes no containers.

* `Graft.Moves`, `Graft.Carries` — places and statements, carried over to the slot;
* `carries_of_convert` — two conversions of one shape on the way back;
* `body_of_unchanged` — a conversion in place that changes nothing does nothing.
-/

namespace RpcBridge.Client

/-- A slot that takes the place of the variable of a result, and the first numbers of the
temporaries on both sides. -/
structure Graft where
  place : Place
  first : Nat
  first' : Nat

namespace Graft

/-- The number that takes the place of another one. -/
def number (g : Graft) (n : Nat) : Nat := g.first' + (n - g.first)

/-- The temporary that takes the place of another one. -/
def temp (g : Graft) (t : Temp) : Temp := ⟨t.letter, g.number t.number⟩

/-- Numbers that are not older than the first one keep their distances. -/
theorem number_add {g : Graft} {n : Nat} (late : g.first ≤ n) (k : Nat) :
    g.number (n + k) = g.number n + k := by
  unfold number
  omega

/-- Temporaries that are not older than the first one are kept apart. -/
theorem temp_injective {g : Graft} {t u : Temp} (ht : g.first ≤ t.number) (hu : g.first ≤ u.number)
    (same : g.temp t = g.temp u) : t = u := by
  rw [temp, temp, Temp.mk.injEq] at same
  obtain ⟨letters, shifted⟩ := same
  have numbers : t.number = u.number := by
    unfold number at shifted
    omega
  cases t
  cases u
  cases letters
  cases numbers
  rfl

/-- No number becomes older than the first one on the other side. -/
theorem le_number (g : Graft) (n : Nat) : g.first' ≤ g.number n := Nat.le_add_right _ _

/-- A place, and the place that takes its place.  The temporaries in it are those of a scope. -/
inductive Moves (g : Graft) (scope : List Temp) : Place → Place → Prop where
  | root : Moves g scope Caller.data g.place
  | temp {t : Temp} (ht : t ∈ scope) : Moves g scope (.temp t) (.temp (g.temp t))
  | field {p p' : Place} (hp : Moves g scope p p') (name : String) :
    Moves g scope (.field p name) (.field p' name)
  | item {p p' : Place} (hp : Moves g scope p p') (i : Nat) :
    Moves g scope (.item p i) (.item p' i)
  | slot {p p' : Place} {t : Temp} (hp : Moves g scope p p') (ht : t ∈ scope) :
    Moves g scope (.slot p t) (.slot p' (g.temp t))

/-- Statements, and the statements that take their place.  The temporaries in them are those of a
scope, and those that they introduce themselves. -/
inductive Carries (g : Graft) : List Temp → List Statement → List Statement → Prop where
  | nil (scope : List Temp) : Carries g scope [] []
  | copy {scope : List Temp} {p p' q q' : Place} {rest rest' : List Statement}
    (hp : g.Moves scope p p') (hq : g.Moves scope q q') (others : Carries g scope rest rest') :
    Carries g scope (.assign q (.place p) :: rest) (.assign q' (.place p') :: rest')
  | convert {scope : List Temp} {p p' q q' : Place} {rest rest' : List Statement} (c : Conversion)
    (hp : g.Moves scope p p') (hq : g.Moves scope q q') (others : Carries g scope rest rest') :
    Carries g scope (.assign q (.converted c p) :: rest) (.assign q' (.converted c p') :: rest')
  | declare {scope : List Temp} {t : Temp} {rest rest' : List Statement}
    (late : g.first ≤ t.number) (others : Carries g (t :: scope) rest rest') :
    Carries g scope (.declare t :: rest) (.declare (g.temp t) :: rest')
  | forKeys {scope : List Temp} {t : Temp} {p p' : Place} {body body' rest rest' : List Statement}
    (late : g.first ≤ t.number) (hp : g.Moves scope p p')
    (inner : Carries g (t :: scope) body body') (others : Carries g scope rest rest') :
    Carries g scope (.forKeys t p body :: rest) (.forKeys (g.temp t) p' body' :: rest')
  | unlessNull {scope : List Temp} {p p' q q' : Place} {body body' rest rest' : List Statement}
    (hp : g.Moves scope p p') (hq : g.Moves scope q q') (inner : Carries g scope body body')
    (others : Carries g scope rest rest') :
    Carries g scope (.unlessNull p q body :: rest) (.unlessNull p' q' body' :: rest')

section Scopes

variable {g : Graft} {scope wider : List Temp} {p p' : Place}
  {front front' rest rest' : List Statement}

/-- A place that is carried over in a scope is carried over in a wider one. -/
theorem Moves.mono (h : g.Moves scope p p') (subset : scope ⊆ wider) : g.Moves wider p p' := by
  induction h with
  | root => exact .root
  | temp ht => exact .temp (subset ht)
  | field _ name ih => exact ih.field name
  | item _ i ih => exact ih.item i
  | slot _ ht ih => exact ih.slot (subset ht)

/-- Statements that are carried over in a scope are carried over in a wider one. -/
theorem Carries.mono (h : g.Carries scope front front') (subset : scope ⊆ wider) :
    g.Carries wider front front' := by
  induction h generalizing wider with
  | nil => exact .nil _
  | copy hp hq _ ih => exact .copy (hp.mono subset) (hq.mono subset) (ih subset)
  | convert c hp hq _ ih => exact .convert c (hp.mono subset) (hq.mono subset) (ih subset)
  | declare late _ ih => exact .declare late (ih (List.cons_subset_cons _ subset))
  | forKeys late hp _ _ ihInner ih =>
    exact .forKeys late (hp.mono subset) (ihInner (List.cons_subset_cons _ subset)) (ih subset)
  | unlessNull hp hq _ _ ihInner ih =>
    exact .unlessNull (hp.mono subset) (hq.mono subset) (ihInner subset) (ih subset)

/-- Statements one after the other are carried over one after the other. -/
theorem Carries.append (first : g.Carries scope front front')
    (second : g.Carries scope rest rest') : g.Carries scope (front ++ rest) (front' ++ rest') := by
  induction first with
  | nil => exact second
  | copy hp hq _ ih => exact .copy hp hq (ih second)
  | convert c hp hq _ ih => exact .convert c hp hq (ih second)
  | declare late _ ih => exact .declare late (ih (second.mono (List.subset_cons_self _ _)))
  | forKeys late hp inner _ _ ih => exact .forKeys late hp inner (ih second)
  | unlessNull hp hq inner _ _ ih => exact .unlessNull hp hq inner (ih second)

end Scopes

end Graft

/-! ## Conversions -/

section Conversions

variable {g : Graft} {scope : List Temp} {p p' q q' : Place} {n n' m m' : Nat} {code code' : Code}

/-- A step ends at one number only. -/
theorem yields_finish {α : Type} {step : Generating α} {a b : α} (h : Yields step n a m)
    (h' : Yields step n b m') : m = m' := by
  cases h.symm.trans h'
  rfl

/-- Conversions of one shape take as many temporaries. -/
theorem taken_of_convert {direction : Direction} {s : Shape}
    (h : Yields (convert direction s p q) n code m)
    (h' : Yields (convert direction s p' q') n' code' m') : m + n' = m' + n := by
  obtain ⟨taken, ⟨a, b, first, second⟩ | ⟨e, failed, -⟩⟩ :=
    @convert_alike direction direction p q p' q' s n n'
  · rw [yields_finish h first, yields_finish h' second]
    omega
  · exact (h.not_fails failed).elim

/-- The number of the next temporary takes the place of that on the other side. -/
theorem finish_of_convert {s : Shape} (late : g.first ≤ n)
    (h : Yields (convert .back s p q) n code m)
    (h' : Yields (convert .back s p' q') (g.number n) code' m') : m' = g.number m := by
  have taken := taken_of_convert h h'
  have le := convert_le h
  unfold Graft.number at taken ⊢
  omega

/-- Two places that have the same text, on both sides or on none. -/
def SameText (p q p' q' : Place) : Prop := p.toText = q.toText ↔ p'.toText = q'.toText

theorem sameText_self (p p' : Place) : SameText p p p' p' := iff_of_true rfl rfl

/-- Members of one name are as equal in text as what they are members of. -/
theorem SameText.field (same : SameText p q p' q') (name : String) :
    SameText (.field p name) (.field q name) (.field p' name) (.field q' name) := by
  rw [SameText, Place.toText_field_eq_iff, Place.toText_field_eq_iff]
  exact same

theorem SameText.item (same : SameText p q p' q') (i : Nat) :
    SameText (.item p i) (.item q i) (.item p' i) (.item q' i) := by
  rw [SameText, Place.toText_item_eq_iff, Place.toText_item_eq_iff]
  exact same

theorem SameText.slot (same : SameText p q p' q') (t t' : Temp) :
    SameText (.slot p t) (.slot q t) (.slot p' t') (.slot q' t') := by
  rw [SameText, Place.toText_slot_eq_iff, Place.toText_slot_eq_iff]
  exact same

/-- A copy is carried over to a copy, or to nothing where the slot is the place itself. -/
theorem carries_copy (same : SameText p q p' q') (hp : g.Moves scope p p')
    (hq : g.Moves scope q q') :
    g.Carries scope (Code.copy p q).body (Code.copy p' q').body := by
  unfold Code.copy
  by_cases h : p.toText = q.toText
  · rw [if_pos h, if_pos (same.1 h)]
    exact .nil _
  · rw [if_neg h, if_neg (mt same.2 h)]
    exact .copy hp hq (.nil _)

/-- A loop over an array is carried over with its index. -/
theorem carries_ofList {index : Temp} {inner inner' : Code} (same : SameText p q p' q')
    (late : g.first ≤ index.number) (hp : g.Moves scope p p') (hq : g.Moves scope q q')
    (transforms : inner.transforms = inner'.transforms)
    (body : g.Carries (index :: scope) inner.body inner'.body) :
    g.Carries scope (Code.ofList .back index p q inner).body
      (Code.ofList .back (g.temp index) p' q' inner').body := by
  unfold Code.ofList
  rw [← transforms]
  split
  · exact .forKeys late hp body (.nil _)
  · exact carries_copy same hp hq

/-- A loop over a dictionary is carried over with its key and its prepared key. -/
theorem carries_ofMapping {key prepared : Temp} {keys keys' values values' : Code}
    (same : SameText p q p' q') (hkey : g.first ≤ key.number)
    (hprepared : g.first ≤ prepared.number) (hp : g.Moves scope p p') (hq : g.Moves scope q q')
    (keysTransform : keys.transforms = keys'.transforms)
    (valuesTransform : values.transforms = values'.transforms)
    (keyBody : g.Carries (key :: prepared :: scope) keys.body keys'.body)
    (valueBody : g.Carries (key :: prepared :: scope) values.body values'.body) :
    g.Carries scope (Code.ofMapping .back key prepared p q keys values).body
      (Code.ofMapping .back (g.temp key) (g.temp prepared) p' q' keys' values').body := by
  unfold Code.ofMapping
  rw [← keysTransform, ← valuesTransform]
  split
  · refine .declare hprepared (.forKeys hkey (hp.mono (List.subset_cons_self _ _)) ?_ (.nil _))
    exact keyBody.append valueBody
  · exact carries_copy same hp hq

/-- A value that has been moved to its new slot is carried over with the move. -/
theorem carries_ofMoved {inner inner' : Code} (same : SameText p q p' q')
    (hp : g.Moves scope p p') (hq : g.Moves scope q q')
    (transforms : inner.transforms = inner'.transforms)
    (body : g.Carries scope inner.body inner'.body) :
    g.Carries scope (Code.ofMoved p q inner).body (Code.ofMoved p' q' inner').body := by
  unfold Code.ofMoved
  rw [← transforms]
  split
  · exact .copy hp hq body
  · exact carries_copy same hp hq

/-- A conversion of one shape at a place, and at the place that takes its place. -/
def Carried (g : Graft) (s : Shape) : Prop :=
  ∀ {scope : List Temp} {p p' q q' : Place} {n m m' : Nat} {code code' : Code},
    g.Moves scope p p' → g.Moves scope q q' → SameText p q p' q' → g.first ≤ n →
    Yields (convert .back s p q) n code m →
    Yields (convert .back s p' q') (g.number n) code' m' →
      g.Carries scope code.body code'.body

/-- Items are carried over one by one; the numbers behind an item are the same on both sides. -/
theorem carries_convertItems {items : List Shape} {start : Nat}
    (each : ∀ s ∈ items, Carried g s) (hp : g.Moves scope p p') (hq : g.Moves scope q q')
    (same : SameText p q p' q') (late : g.first ≤ n)
    (h : Yields (convertItems .back items start p q) n code m)
    (h' : Yields (convertItems .back items start p' q') (g.number n) code' m') :
    g.Carries scope code.body code'.body := by
  induction items generalizing start n code code' with
  | nil =>
    rw [(convertItems_nil h).1, (convertItems_nil h').1]
    exact .nil _
  | cons s rest ih =>
    rw [List.forall_mem_cons] at each
    obtain ⟨head, between, tail, first, others, rfl⟩ := convertItems_cons h
    obtain ⟨head', between', tail', first', others', rfl⟩ := convertItems_cons h'
    have later := convert_le first
    rw [finish_of_convert late first first'] at others'
    exact (each.1 (hp.item _) (hq.item _) (same.item _) late first first').append
      (ih each.2 (Nat.le_trans late later) others others')

/-- Fields are carried over one by one; the numbers behind a field are the same on both sides. -/
theorem carries_convertFields {record : String} {fields : List (String × Shape)}
    (each : ∀ f ∈ fields, Carried g f.2) (hp : g.Moves scope p p') (hq : g.Moves scope q q')
    (same : SameText p q p' q') (late : g.first ≤ n)
    (h : Yields (convertFields .back record fields p q) n code m)
    (h' : Yields (convertFields .back record fields p' q') (g.number n) code' m') :
    g.Carries scope code.body code'.body := by
  induction fields generalizing n code code' with
  | nil =>
    rw [(convertFields_nil h).1, (convertFields_nil h').1]
    exact .nil _
  | cons f rest ih =>
    rw [List.forall_mem_cons] at each
    obtain ⟨head, between, tail, -, first, others, rfl⟩ := convertFields_cons h
    obtain ⟨head', between', tail', -, first', others', rfl⟩ := convertFields_cons h'
    have later := convert_le first
    rw [finish_of_convert late first first'] at others'
    exact (each.1 (hp.field _) (hq.field _) (same.field _) late first first').append
      (ih each.2 (Nat.le_trans late later) others others')

/-- An array is carried over with its index, which is a temporary of its own. -/
theorem carried_list {element : Shape} (h : Carried g element) : Carried g (.list element) := by
  intro scope p p' q q' n m m' code code' hp hq same late generated generated'
  obtain ⟨inner, walked, rfl⟩ := convert_list generated
  obtain ⟨inner', walked', rfl⟩ := convert_list generated'
  have index : (⟨"i", n⟩ : Temp) ∈ (⟨"i", n⟩ : Temp) :: scope := List.mem_cons_self ..
  have wider := List.subset_cons_self (⟨"i", n⟩ : Temp) scope
  have transforms := (transforms_eq walked).trans (transforms_eq walked').symm
  rw [← Graft.number_add late] at walked'
  refine carries_ofList same late hp hq transforms ?_
  exact h ((hp.mono wider).slot index) ((hq.mono wider).slot index) (same.slot _ _)
    (Nat.le_succ_of_le late) walked walked'

/-- A dictionary is carried over with its two temporaries.  Its values are converted on the way from
one slot to another, or in place where the keys have moved them. -/
theorem carried_mapping {key value : Shape} (hkey : Carried g key) (hvalue : Carried g value) :
    Carried g (.mapping key value) := by
  intro scope p p' q q' n m m' code code' hp hq same late h h'
  let k : Temp := ⟨"k", n⟩
  let prepared : Temp := ⟨"k", n + 1⟩
  let inside := k :: prepared :: scope
  have here : k ∈ inside := List.mem_cons_self ..
  have there : prepared ∈ inside := List.mem_cons_of_mem _ (List.mem_cons_self ..)
  have wider : scope ⊆ inside := List.subset_append_right [k, prepared] scope
  have hsource := (hp.mono wider).slot here
  have htarget := (hq.mono wider).slot there
  obtain ⟨keys, between, walked, generated, walk⟩ := convert_mapping h
  obtain ⟨keys', between', walked', generated', walk'⟩ := convert_mapping h'
  rw [← Graft.number_add late 1, ← Graft.number_add late 2] at generated'
  rw [← Graft.number_add late 1] at walk'
  have late₂ : g.first ≤ n + 2 := Nat.le_add_right_of_le late
  have lateValue := Nat.le_trans late₂ (convert_le generated)
  rw [finish_of_convert late₂ generated generated'] at walk'
  have distinct : n ≠ n + 1 := Nat.ne_of_lt (Nat.lt_succ_self n)
  have distinct' : g.number n ≠ g.number (n + 1) := by
    rw [Graft.number_add late]
    exact Nat.ne_of_lt (Nat.lt_succ_self _)
  have keyBody : g.Carries inside keys.body keys'.body := by
    have texts : SameText (.temp k) (.temp prepared) (.temp (g.temp k))
        (.temp (g.temp prepared)) :=
      iff_of_false (Place.toText_temp_ne distinct) (Place.toText_temp_ne distinct')
    exact hkey (.temp here) (.temp there) texts late₂ generated generated'
  have slots : SameText (.slot p k) (.slot q prepared) (.slot p' (g.temp k))
      (.slot q' (g.temp prepared)) :=
    iff_of_false (Place.toText_slot_ne distinct) (Place.toText_slot_ne distinct')
  have keysTransform := (transforms_eq generated).trans (transforms_eq generated').symm
  rw [keysTransform] at walk
  rcases walk with ⟨stays, values, rfl⟩ | ⟨moved, values, rfl⟩
  · obtain ⟨-, values', rfl⟩ := walk'.resolve_right fun moved => by
      rw [moved.1] at stays
      cases stays
    have valuesTransform := (transforms_eq values).trans (transforms_eq values').symm
    exact carries_ofMapping same late (Nat.le_succ_of_le late) hp hq keysTransform
      valuesTransform keyBody (hvalue hsource htarget slots lateValue values values')
  · obtain ⟨-, values', rfl⟩ := walk'.resolve_left fun stays => by
      rw [stays.1] at moved
      cases moved
    have valuesTransform := (transforms_eq values).trans (transforms_eq values').symm
    have inPlace := hvalue htarget htarget (sameText_self _ _) lateValue values values'
    refine carries_ofMapping same late (Nat.le_succ_of_le late) hp hq keysTransform ?_ keyBody
      (carries_ofMoved slots hsource htarget valuesTransform inPlace)
    rw [transforms_ofMoved, transforms_ofMoved, valuesTransform]

/-- What may be absent is carried over under the test for null. -/
theorem carried_optional {inner : Shape} (h : Carried g inner) : Carried g (.optional inner) := by
  intro scope p p' q q' n m m' code code' hp hq same late generated generated'
  obtain ⟨present, walked, rfl⟩ := convert_optional generated
  obtain ⟨present', walked', rfl⟩ := convert_optional generated'
  exact .unlessNull hp hq (h hp hq same late walked walked') (.nil _)

/-- **A conversion is carried over to the place that takes its place.** -/
theorem carries_of_convert (s : Shape) : Carried g s := by
  induction s with
  | scalar =>
    intro scope p p' q q' n m m' code code' hp hq same late h h'
    rw [(convert_scalar h).1, (convert_scalar h').1]
    exact carries_copy same hp hq
  | enum =>
    intro scope p p' q q' n m m' code code' hp hq same late h h'
    rw [(convert_enum h).1, (convert_enum h').1]
    exact carries_copy same hp hq
  | temporal kind =>
    intro scope p p' q q' n m m' code code' hp hq same late h h'
    rw [(convert_temporal h).1, (convert_temporal h').1]
    exact .convert _ hp hq (.nil _)
  | list _ ih => exact carried_list ih
  | mapping _ _ ihKey ihValue => exact carried_mapping ihKey ihValue
  | tuple items ih =>
    intro scope p p' q q' n m m' code code' hp hq same late h h'
    obtain ⟨inner, generated, rfl⟩ := convert_tuple h
    obtain ⟨inner', generated', rfl⟩ := convert_tuple h'
    exact carries_convertItems ih hp hq same late generated generated'
  | optional _ ih => exact carried_optional ih
  | record name fields ih =>
    intro scope p p' q q' n m m' code code' hp hq same late h h'
    obtain ⟨inner, generated, rfl⟩ := convert_record h
    obtain ⟨inner', generated', rfl⟩ := convert_record h'
    exact carries_convertFields ih hp hq same late generated generated'
  | wrapper _ _ inner ih =>
    intro scope p p' q q' n m m' code code' hp hq same late h h'
    exact ih hp hq same late (convert_wrapper h) (convert_wrapper h')
  | opened _ _ fields ih =>
    intro scope p p' q q' n m m' code code' hp hq same late h h'
    obtain ⟨field, inner, rfl, generated⟩ := convert_opened h
    obtain ⟨_, _, ⟨⟩, generated'⟩ := convert_opened h'
    exact ih _ (List.mem_singleton.2 rfl) hp hq same late generated generated'
  | bareTemplate => exact fun _ _ _ _ h => (convert_bareTemplate h).elim
  | blocked => exact fun _ _ _ _ h => (convert_blocked h).elim

/-! ## Conversions that change nothing -/

/-- A copy to the same place is none. -/
theorem body_copy_self (same : p.toText = q.toText) : (Code.copy p q).body = [] := by
  rw [Code.copy, if_pos same]
  rfl

/-- **A conversion in place that changes nothing does nothing.** -/
theorem body_of_unchanged {s : Shape} (same : p.toText = q.toText)
    (h : Yields (convert .back s p q) n code m) (unchanged : s.changes .back = false) :
    code.body = [] := by
  have both {a b : List Statement} (ha : a = []) (hb : b = []) : a ++ b = [] := by
    rw [ha, hb, List.nil_append]
  induction s generalizing p q n code m with
  | scalar =>
    rw [(convert_scalar h).1]
    exact body_copy_self same
  | enum =>
    rw [(convert_enum h).1]
    exact body_copy_self same
  | temporal => cases unchanged
  | list element ih =>
    rw [copied_of_list h ((transforms_eq h).trans unchanged)]
    exact body_copy_self same
  | mapping key value ihKey ihValue =>
    rw [copied_of_mapping h ((transforms_eq h).trans unchanged)]
    exact body_copy_self same
  | tuple items ih =>
    obtain ⟨inner, generated, rfl⟩ := convert_tuple h
    rw [Shape.changes] at unchanged
    exact convertItems_walk (P := fun _ body _ => body = []) (fun _ => rfl) both
      (fun s hs _ _ _ _ walked => ih s hs ((Place.toText_item_eq_iff _).2 same) walked
        (anyItem_eq_false unchanged s hs)) generated
  | optional => cases unchanged
  | record name fields ih =>
    obtain ⟨inner, generated, rfl⟩ := convert_record h
    rw [Shape.changes] at unchanged
    exact convertFields_walk (P := fun _ body _ => body = []) (fun _ => rfl) both
      (fun f hf _ _ _ walked => ih f hf ((Place.toText_field_eq_iff _).2 same) walked
        (anyField_eq_false unchanged f hf)) generated
  | wrapper _ _ inner ih =>
    rw [Shape.changes] at unchanged
    exact ih same (convert_wrapper h) unchanged
  | opened _ _ fields ih =>
    obtain ⟨field, inner, rfl, generated⟩ := convert_opened h
    rw [Shape.changes] at unchanged
    have listed : (field, inner) ∈ [(field, inner)] := List.mem_singleton_self _
    exact ih _ listed same generated (anyField_eq_false unchanged _ listed)
  | bareTemplate => exact (convert_bareTemplate h).elim
  | blocked => exact (convert_blocked h).elim

/-- A value that has been moved to another slot is converted there, if there is anything to
convert. -/
theorem body_ofMoved {source : Place} {s : Shape} (ne : source.toText ≠ q.toText)
    (h : Yields (convert .back s q q) n code m) :
    (Code.ofMoved source q code).body = .assign q (.place source) :: code.body := by
  unfold Code.ofMoved
  split
  · rfl
  · next unchanged =>
    rw [Bool.not_eq_true, transforms_eq h] at unchanged
    rw [body_of_unchanged rfl h unchanged, Code.copy, if_neg ne]

end Conversions

end RpcBridge.Client
