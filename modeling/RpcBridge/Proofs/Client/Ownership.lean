import RpcBridge.Proofs.Client.Scoping

/-!
# Proofs/Client/Ownership — where code on its way out writes

A copy that takes the place of a walk shares the objects of its source, so a place that code on its
way out has written may hold an object of somebody else.  The code writes below a place only while
it holds a container that the code has made itself and has not bound again since.  This is a
property of its text; what it means for a run stands in `Proofs/Client/Undisturbed`.

* `Place.mayChange` — what a written place may change the meaning of;
* `Statement.Owns` — a statement writes into its target, its temporaries and its own containers;
* `owns_of_convert` — so does the code of every shape, on the way out.
-/

namespace RpcBridge.Client

/-! ## Places below places -/

/-- The name of a variable. -/
def Variable.name : Variable → String
  | .root name => name
  | .temp t => t.name

namespace Place

/-- The variable a place starts at. -/
def origin : Place → Variable
  | .root name => .root name
  | .temp t => .temp t
  | .field p _ | .item p _ | .slot p _ => p.origin

/-- The place a slot belongs to; a variable belongs to none. -/
def container? : Place → Option Place
  | .root _ | .temp _ => none
  | .field p _ | .item p _ | .slot p _ => some p

/-- A place, and the places it lies in. -/
def trail : Place → List Place
  | .root name => [.root name]
  | .temp t => [.temp t]
  | .field p name => .field p name :: p.trail
  | .item p i => .item p i :: p.trail
  | .slot p t => .slot p t :: p.trail

/-- The names of the variables of a place. -/
def names (p : Place) : List String := p.variables.map Variable.name

/-- Whether another place may name another slot, or hold another object, once a place is written:
a variable changes what names it, a slot what lies below its container. -/
def mayChange (written p : Place) : Bool :=
  match written.container? with
  | none => written.origin.name ∈ p.names
  | some c => c ∈ p.trail ∧ c ≠ p

/-- A place that names no temporary from a number on. -/
def Plain (n : Nat) (p : Place) : Prop := ∀ t : Temp, t.Lettered → n ≤ t.number → t.name ∉ p.names

/-- A place at or below another one, or at or below a temporary from a number on. -/
def Within (n : Nat) (w p : Place) : Prop :=
  p ∈ w.trail ∨ ∃ t : Temp, t.Lettered ∧ n ≤ t.number ∧ .temp t ∈ w.trail

variable {p q w c : Place} {n m : Nat}

/-- A place is on its own trail. -/
theorem mem_trail_self (p : Place) : p ∈ p.trail := by
  cases p <;> exact List.mem_cons_self ..

/-- The trail of a place goes on from its container. -/
theorem trail_of_container (h : p.container? = some c) : p.trail = p :: c.trail := by
  cases p with
  | root | temp => cases h
  | field | item | slot =>
    cases h
    rfl

/-- A variable has no trail but itself. -/
theorem trail_of_variable (h : p.container? = none) : p.trail = [p] := by
  cases p with
  | root | temp => rfl
  | field | item | slot => cases h

theorem mem_trail_iff (h : p.container? = some c) : q ∈ p.trail ↔ q = p ∨ q ∈ c.trail := by
  rw [trail_of_container h, List.mem_cons]

/-- A place is reached from the variable its container is reached from. -/
theorem origin_of_container (h : p.container? = some c) : p.origin = c.origin := by
  cases p with
  | root | temp => cases h
  | field | item | slot =>
    cases h
    rfl

/-- The names in the container of a place are among those of the place. -/
theorem names_of_container (h : p.container? = some c) : c.names ⊆ p.names := by
  cases p with
  | root | temp => cases h
  | field | item =>
    cases h
    exact List.Subset.refl _
  | slot =>
    cases h
    exact List.subset_cons_self _ _

/-- The variable a place is reached from is one of its names. -/
theorem origin_mem_names (p : Place) : p.origin.name ∈ p.names := by
  induction p with
  | root | temp => exact List.mem_singleton.2 rfl
  | field p _ ih | item p _ ih => exact ih
  | slot p t ih => exact List.mem_cons_of_mem _ ih

/-- An induction over the containers a place lies in. -/
theorem container_induction {motive : Place → Prop} (p : Place)
    (start : ∀ p : Place, p.container? = none → motive p)
    (slot : ∀ p c : Place, p.container? = some c → motive c → motive p) : motive p := by
  induction p with
  | root | temp => exact start _ rfl
  | field c _ ih | item c _ ih | slot c _ ih => exact slot _ c rfl ih

/-- Along the trail of a place: what holds of a place on it, and passes from containers to what they
contain, holds of the whole place. -/
theorem trail_induction {motive : Place → Prop} (self : motive q)
    (slot : ∀ p c : Place, p.container? = some c → q ∈ c.trail → motive c → motive p)
    (h : q ∈ p.trail) : motive p := by
  induction p using container_induction with
  | start p none =>
    rw [trail_of_variable none, List.mem_singleton] at h
    exact h ▸ self
  | slot p c some ih =>
    rcases (mem_trail_iff some).1 h with rfl | below
    · exact self
    · exact slot p c some below (ih below)

/-- All places of a trail are reached from one variable. -/
theorem origin_of_mem_trail (h : q ∈ p.trail) : p.origin = q.origin :=
  trail_induction (motive := fun p => p.origin = q.origin) rfl
    (fun _ _ some _ ih => (origin_of_container some).trans ih) h

/-- The names of a place on the trail are among those of the whole place. -/
theorem names_of_mem_trail (h : q ∈ p.trail) : q.names ⊆ p.names :=
  trail_induction (motive := fun p => q.names ⊆ p.names) (List.Subset.refl _)
    (fun _ _ some _ ih => List.Subset.trans ih (names_of_container some)) h

/-- A trail goes on along the trails of its places. -/
theorem mem_trail_trans (first : w ∈ q.trail) (second : q ∈ p.trail) : w ∈ p.trail :=
  trail_induction (motive := fun p => w ∈ p.trail) first
    (fun _ _ some _ ih => (mem_trail_iff some).2 (.inr ih)) second

/-- The trail of a place on it is no longer. -/
theorem length_trail_le (h : q ∈ p.trail) : q.trail.length ≤ p.trail.length :=
  trail_induction (motive := fun p => q.trail.length ≤ p.trail.length) (Nat.le_refl _)
    (fun _ _ some _ ih => by rw [trail_of_container some]; exact Nat.le_succ_of_le ih) h

/-- No place lies in its own slots. -/
theorem not_mem_trail_container (h : p.container? = some c) : p ∉ c.trail := by
  intro inside
  have := length_trail_le inside
  rw [trail_of_container h, List.length_cons] at this
  omega

/-! ## Plain places -/

/-- A place that is plain up to a number is plain up to a larger one. -/
theorem Plain.mono (h : p.Plain n) (le : n ≤ m) : p.Plain m :=
  fun t lettered ht => h t lettered (Nat.le_trans le ht)

/-- The container of a plain place is plain. -/
theorem Plain.container (h : p.Plain n) (some : p.container? = some c) : c.Plain n :=
  fun t lettered ht inside => h t lettered ht (names_of_container some inside)

/-- A place without further variables is as plain as the one it lies in. -/
theorem Plain.of_names (h : c.Plain n) (same : p.names = c.names) : p.Plain n :=
  fun t lettered ht => same ▸ h t lettered ht

/-- A temporary is plain for the numbers after its own. -/
theorem plain_temp {t : Temp} (lettered : t.Lettered) (lt : t.number < n) :
    (Place.temp t).Plain n := by
  intro u hu le same
  obtain rfl := Temp.name_injective hu lettered (List.mem_singleton.1 same)
  omega

/-- A slot of a plain place is plain if its temporary is. -/
theorem Plain.slot {t : Temp} (h : c.Plain n) (lettered : t.Lettered) (lt : t.number < n) :
    (Place.slot c t).Plain n := by
  intro u hu le same
  rcases List.mem_cons.1 same with same | same
  · exact plain_temp lettered lt u hu le (List.mem_singleton.2 same)
  · exact h u hu le same

/-- A plain place does not start at a temporary that comes later. -/
theorem Plain.not_temp {t : Temp} (h : p.Plain n) (lettered : t.Lettered) (le : n ≤ t.number) :
    Place.temp t ∉ p.trail :=
  fun inside => h t lettered le (names_of_mem_trail inside (List.mem_singleton.2 rfl))

/-! ## Places within -/

/-- A place is within itself. -/
theorem Within.self (n : Nat) (p : Place) : p.Within n p := .inl (mem_trail_self p)

/-- A new temporary is within every place. -/
theorem Within.temp {t : Temp} (lettered : t.Lettered) (le : n ≤ t.number) :
    (Place.temp t).Within n p :=
  .inr ⟨t, lettered, le, mem_trail_self _⟩

/-- What is within a place for later temporaries is so for earlier ones. -/
theorem Within.mono (h : w.Within m p) (le : n ≤ m) : w.Within n p :=
  h.imp_right fun ⟨t, lettered, ht, inside⟩ => ⟨t, lettered, Nat.le_trans le ht, inside⟩

/-- What lies below a slot lies below its container. -/
theorem Within.container (h : w.Within n p) (some : p.container? = some c) : w.Within n c :=
  h.imp_left (mem_trail_trans ((mem_trail_iff some).2 (.inr (mem_trail_self c))))

/-- What lies below a temporary that is late enough lies within anything. -/
theorem Within.of_temp {t : Temp} (h : w.Within m (.temp t)) (lettered : t.Lettered)
    (late : n ≤ t.number) (le : n ≤ m) : w.Within n p := by
  rcases h with inside | ⟨u, hu, bound, inside⟩
  · exact .inr ⟨t, lettered, late, inside⟩
  · exact .inr ⟨u, hu, Nat.le_trans le bound, inside⟩

/-- **What is written within a slot leaves the container of the slot what it is.** -/
theorem mayChange_of_within (some : p.container? = some c) (plain : c.Plain n)
    (h : w.Within n p) : w.mayChange c = false := by
  unfold mayChange
  split
  · next alone =>
    -- a variable is no slot, and a temporary is too young to be named
    rw [decide_eq_false_iff_not]
    rcases h with inside | ⟨t, lettered, le, inside⟩
    · rw [trail_of_variable alone, List.mem_singleton] at inside
      rw [inside, alone] at some
      cases some
    · rw [trail_of_variable alone, List.mem_singleton] at inside
      rw [← inside]
      exact plain t lettered le
  · next d slot =>
    rw [decide_eq_false_iff_not]
    rintro ⟨above, ne⟩
    rcases h with inside | ⟨t, lettered, le, inside⟩
    · rcases (mem_trail_iff slot).1 inside with rfl | below
      · rw [slot] at some
        exact ne (Option.some.inj some)
      · exact not_mem_trail_container some (mem_trail_trans below above)
    · rcases (mem_trail_iff slot).1 inside with rfl | below
      · cases slot
      · exact plain.not_temp lettered le (mem_trail_trans below above)

/-- What leaves a slot as it is leaves its container as it is. -/
theorem mayChange_container (some : p.container? = some c) (h : w.mayChange p = false) :
    w.mayChange c = false := by
  unfold mayChange at h ⊢
  split at h
  · rw [decide_eq_false_iff_not] at h ⊢
    exact fun named => h (names_of_container some named)
  · rw [decide_eq_false_iff_not] at h ⊢
    rintro ⟨above, ne⟩
    refine h ⟨(mem_trail_iff some).2 (.inr above), ?_⟩
    rintro rfl
    exact not_mem_trail_container some above

/-- What is written below a container changes nothing but what lies below it. -/
theorem mayChange_self_container (some : w.container? = some c) : w.mayChange c = false := by
  unfold mayChange
  rw [some]
  exact decide_eq_false fun h => h.2 rfl

/-- What is written within a place does not start at a variable that the place does not start at. -/
theorem origin_ne_of_within {source : Place} (apart : source.origin.name ≠ p.origin.name)
    (plain : source.Plain n) (h : w.Within n p) : w.origin.name ≠ source.origin.name := by
  rcases h with inside | ⟨t, lettered, le, inside⟩
  · rw [origin_of_mem_trail inside]
    exact apart.symm
  · rw [origin_of_mem_trail inside]
    rintro (same : t.name = source.origin.name)
    exact plain t lettered le (same ▸ origin_mem_names source)

end Place

/-! ## Containers of one's own -/

namespace Statement

mutual

/-- The places that a statement writes, whichever way it takes. -/
def writes : Statement → List Place
  | .assign target _ => [target]
  | .declare t => [.temp t]
  | .forKeys t _ body => .temp t :: writesAll body
  | .unlessUndefined _ body => writesAll body
  | .unlessNull _ target body => target :: writesAll body

/-- The places that statements write. -/
def writesAll : List Statement → List Place
  | [] => []
  | s :: rest => s.writes ++ writesAll rest

end

/-- The place in which a statement leaves a fresh container. -/
def makes : Statement → List Place
  | .assign target .emptyObject | .assign target .emptyArray => [target]
  | _ => []

/-- The places that no written place may have changed. -/
def kept (made written : List Place) : List Place :=
  made.filter fun p => written.all fun w => !w.mayChange p

/-- The places that hold a container of one's own after a statement. -/
def after (made : List Place) (s : Statement) : List Place := s.makes ++ kept made s.writes

/-- A place that may be written: it belongs to the target or to a declared temporary, and unless it
is the target or a variable, its container is one of one's own. -/
structure MayWrite (target : Place) (declared : List Temp) (made : List Place) (w : Place) :
    Prop where
  inside : target ∈ w.trail ∨ ∃ t ∈ declared, .temp t ∈ w.trail
  owned : w = target ∨ ∀ c ∈ w.container?, c ∈ made

mutual

/-- A statement writes nothing but what it may.  Around a loop only those containers count that no
turn of the loop may have changed. -/
def Owns (target : Place) (declared : List Temp) (made : List Place) : Statement → Prop
  | .assign w _ => MayWrite target declared made w
  | .declare _ => True
  | .forKeys t _ body => OwnsAll target declared (kept made (.temp t :: writesAll body)) body
  | .unlessUndefined _ body => OwnsAll target declared made body
  | .unlessNull _ w body =>
    MayWrite target declared made w ∧ OwnsAll target declared made body

/-- The statements of a block write nothing but what they may: a temporary counts once it has been
declared, a container once it has been made and until something may have changed it. -/
def OwnsAll (target : Place) (declared : List Temp) (made : List Place) :
    List Statement → Prop
  | [] => True
  | s :: rest => s.Owns target declared made ∧
      OwnsAll target (s.declares ++ declared) (after made s) rest

end

variable {target p c w : Place} {declared more : List Temp} {made wider written : List Place}

/-- Statements one after the other write what both parts write. -/
theorem writesAll_append (front rest : List Statement) :
    writesAll (front ++ rest) = writesAll front ++ writesAll rest := by
  induction front with
  | nil => rfl
  | cons s front ih => rw [List.cons_append, writesAll, writesAll, ih, List.append_assoc]

/-- A place is kept if nothing that is written may change it. -/
theorem mem_kept : p ∈ kept made written ↔
    p ∈ made ∧ ∀ w ∈ written, w.mayChange p = false := by
  simp only [kept, List.mem_filter, List.all_eq_true, Bool.not_eq_true']

/-- What is kept over two lists of writes is kept over the one and then over the other. -/
theorem kept_append (made first second : List Place) :
    kept made (first ++ second) = kept (kept made first) second := by
  ext p
  simp only [kept, List.filter_filter, List.all_append, Bool.and_comm]

/-- The order of two lists of writes does not matter to what is kept. -/
theorem kept_comm (made first second : List Place) :
    kept (kept made first) second = kept (kept made second) first :=
  List.filter_comm _ _ _

/-- What has been kept once is kept again. -/
theorem kept_kept {again : List Place} (subset : again ⊆ written) :
    kept (kept made written) again = kept made written := by
  refine List.filter_eq_self.2 fun p hp => ?_
  rw [List.all_eq_true]
  intro w hw
  rw [(mem_kept.1 hp).2 w (subset hw), Bool.not_false]

theorem kept_subset_self (made written : List Place) : kept made written ⊆ made :=
  List.filter_subset_self _

theorem kept_subset (subset : made ⊆ wider) : kept made written ⊆ kept wider written :=
  List.filter_subset _ subset

theorem after_subset (subset : made ⊆ wider) (s : Statement) : after made s ⊆ after wider s :=
  List.append_subset.2 ⟨List.subset_append_left _ _,
    List.subset_append_of_subset_right _ (kept_subset subset)⟩

/-- What may be written may still be written if more is declared and more has been made. -/
theorem MayWrite.mono (h : MayWrite target declared made w) (known : declared ⊆ more)
    (subset : made ⊆ wider) : MayWrite target more wider w where
  inside := h.inside.imp_right fun ⟨t, ht, inside⟩ => ⟨t, known ht, inside⟩
  owned := h.owned.imp_right fun owned c hc => subset (owned c hc)

mutual

/-- A statement owns what it writes also if more is declared and more has been made. -/
theorem Owns.mono : ∀ (s : Statement) {declared more : List Temp} {made wider : List Place},
    declared ⊆ more → made ⊆ wider → s.Owns target declared made → s.Owns target more wider
  | .assign _ _, _, _, _, _, known, subset, h => MayWrite.mono h known subset
  | .declare _, _, _, _, _, _, _, _ => trivial
  | .forKeys _ _ body, _, _, _, _, known, subset, h =>
    OwnsAll.mono body known (kept_subset subset) h
  | .unlessUndefined _ body, _, _, _, _, known, subset, h => OwnsAll.mono body known subset h
  | .unlessNull _ _ body, _, _, _, _, known, subset, h =>
    ⟨h.1.mono known subset, OwnsAll.mono body known subset h.2⟩

/-- More temporaries and more containers do no harm. -/
theorem OwnsAll.mono : ∀ (body : List Statement) {declared more : List Temp}
    {made wider : List Place}, declared ⊆ more → made ⊆ wider →
    OwnsAll target declared made body → OwnsAll target more wider body
  | [], _, _, _, _, _, _, _ => trivial
  | s :: rest, _, _, _, _, known, subset, h => ⟨Owns.mono s known subset h.1,
    OwnsAll.mono rest
      (List.append_subset.2
        ⟨List.subset_append_left _ _, List.subset_append_of_subset_right _ known⟩)
      (after_subset subset s) h.2⟩

end

/-- Statements own what they write if the first ones do, and the others do with what is still kept.
-/
theorem OwnsAll.append {front rest : List Statement} (first : OwnsAll target declared made front)
    (second : OwnsAll target declared (kept made (writesAll front)) rest) :
    OwnsAll target declared made (front ++ rest) := by
  induction front generalizing declared made with
  | nil =>
    rw [List.nil_append]
    exact second.mono rest (List.Subset.refl _) (kept_subset_self _ _)
  | cons s front ih =>
    refine ⟨first.1, ih first.2 ?_⟩
    rw [writesAll, kept_append] at second
    exact second.mono rest (List.subset_append_right _ _)
      (kept_subset (List.subset_append_right _ _))

/-! ### Slots of a container -/

variable {base : Place} {n : Nat}

/-- What is written within a slot leaves its container one of one's own. -/
theorem mem_kept_of_within (there : target ∈ made)
    (plain : target.Plain n) (some : p.container? = some target)
    (within : ∀ w ∈ written, w.Within n p) : target ∈ kept made written :=
  mem_kept.2 ⟨there, fun w hw => Place.mayChange_of_within some plain (within w hw)⟩

/-- A place that may be written is the target, a temporary, or a slot of a container of one's
own. -/
theorem MayWrite.cases (may : MayWrite target declared made w) :
    w = target ∨ (∃ t ∈ declared, w = .temp t) ∨ ∃ c ∈ made, w.container? = some c := by
  rcases may.owned with same | owned
  · exact .inl same
  · cases slot : w.container? with
    | none =>
      rcases may.inside with inside | ⟨t, ht, inside⟩
      · rw [Place.trail_of_variable slot, List.mem_singleton] at inside
        exact .inl inside.symm
      · rw [Place.trail_of_variable slot, List.mem_singleton] at inside
        exact .inr (.inl ⟨t, ht, inside.symm⟩)
    | some c => exact .inr (.inr ⟨c, owned c slot, rfl⟩)

/-- Writing a place leaves the container of the place what it is. -/
theorem MayWrite.again (may : MayWrite target declared made w) :
    MayWrite target declared (kept made [w]) w where
  inside := may.inside
  owned := may.owned.imp_right fun owned c hc =>
    mem_kept.2 ⟨owned c hc, List.forall_mem_singleton.2 (Place.mayChange_self_container hc)⟩

/-- A slot of a container of one's own. -/
theorem MayWrite.slot (may : MayWrite base declared made target) {here : List Place}
    (some : p.container? = some target) (there : target ∈ here) :
    MayWrite base declared here p where
  inside := by
    rw [Place.trail_of_container some]
    exact may.inside.imp (List.mem_cons_of_mem _)
      fun ⟨t, ht, inside⟩ => ⟨t, ht, List.mem_cons_of_mem _ inside⟩
  owned := by
    refine .inr fun c hc => ?_
    rw [some] at hc
    cases hc
    exact there

/-- A place may still be written after a temporary has been declared that it does not name. -/
theorem MayWrite.declare (may : MayWrite base declared made target) (plain : target.Plain n)
    {t : Temp} (lettered : t.Lettered) (le : n ≤ t.number) :
    MayWrite base ([t] ++ declared) (kept made [.temp t]) target where
  inside := may.inside.imp_right fun ⟨u, hu, inside⟩ => ⟨u, List.mem_append_right _ hu, inside⟩
  owned := by
    refine may.owned.imp_right fun owned c hc => ?_
    exact mem_kept_of_within (owned c hc) (plain.container hc) hc
      (List.forall_mem_singleton.2 (.temp lettered le))

end Statement

/-! ## The code of a shape -/

section Shapes

open Statement

variable {direction : Direction} {source target : Place} {n m : Nat} {code : Code}
  {declared : List Temp} {made : List Place}

/-- What is written is the target itself. -/
theorem within_of_subset {written : List Place} (h : written ⊆ [target]) :
    ∀ w ∈ written, w.Within n target := by
  intro w hw
  rw [List.mem_singleton.1 (h hw)]
  exact .self n target

/-- A copy writes its target. -/
theorem within_copy (source target : Place) :
    ∀ w ∈ writesAll (Code.copy source target).body, w.Within n target := by
  refine within_of_subset ?_
  unfold Code.copy
  split
  · exact List.nil_subset _
  · exact List.Subset.refl _

/-- A fresh container is written at the target. -/
theorem within_fresh (direction : Direction) (target : Place) (value : Operand) :
    ∀ w ∈ writesAll (Code.fresh direction target value), w.Within n target := by
  refine within_of_subset ?_
  cases direction with
  | out => exact List.Subset.refl _
  | back => exact List.nil_subset _

/-- A block with a fresh container in front of it. -/
theorem within_append {front rest : List Statement}
    (first : ∀ w ∈ writesAll front, w.Within n target)
    (second : ∀ w ∈ writesAll rest, w.Within n target) :
    ∀ w ∈ writesAll (front ++ rest), w.Within n target := by
  rw [writesAll_append]
  exact List.forall_mem_append.2 ⟨first, second⟩

/-- Blocks that follow one another, with the temporaries that they have numbered. -/
theorem within_then {k : Nat} {front rest : List Statement}
    (first : n ≤ k ∧ ∀ w ∈ writesAll front, w.Within n target)
    (second : k ≤ m ∧ ∀ w ∈ writesAll rest, w.Within k target) :
    n ≤ m ∧ ∀ w ∈ writesAll (front ++ rest), w.Within n target :=
  ⟨Nat.le_trans first.1 second.1,
    within_append first.2 fun w hw => (second.2 w hw).mono first.1⟩

/-- What is written within the slots of a target, and the temporary that runs over their keys. -/
theorem within_forKeys {t : Temp} {p : Place} {body : List Statement} (lettered : t.Lettered)
    (le : n ≤ t.number) (inner : ∀ w ∈ writesAll body, w.Within n target) :
    ∀ w ∈ writesAll [.forKeys t p body], w.Within n target := by
  rw [writesAll, writesAll, List.append_nil, writes]
  exact List.forall_mem_cons.2 ⟨.temp lettered le, inner⟩

/-- A value that has been moved is written where it is moved to, and inside of it. -/
theorem within_ofMoved {moved : Place} {inPlace : Code}
    (inner : ∀ w ∈ writesAll inPlace.body, w.Within n target) :
    ∀ w ∈ writesAll (Code.ofMoved moved target inPlace).body, w.Within n target := by
  unfold Code.ofMoved
  split
  · exact List.forall_mem_cons.2 ⟨.self n target, inner⟩
  · exact within_copy moved target

/-- The loop over a dictionary writes its two temporaries, and the target in slots of the prepared
key. -/
theorem within_ofMapping {keys values : Code}
    (hkeys : ∀ w ∈ writesAll keys.body, w.Within (n + 2) (.temp ⟨"k", n + 1⟩))
    (hvalues : ∀ w ∈ writesAll values.body, w.Within (n + 2) (.slot target ⟨"k", n + 1⟩)) :
    ∀ w ∈ writesAll (Code.ofMapping direction ⟨"k", n⟩ ⟨"k", n + 1⟩ source target keys
      values).body, w.Within n target := by
  unfold Code.ofMapping
  split
  · refine List.forall_mem_cons.2 ⟨.temp (.inr rfl) (Nat.le_succ n), ?_⟩
    refine within_append (within_fresh _ _ _) (within_forKeys (.inr rfl) (Nat.le_refl n) ?_)
    refine within_append (fun w hw => ?_) (fun w hw => ?_)
    · exact (hkeys w hw).of_temp (.inr rfl) (Nat.le_succ n) (Nat.le_add_right n 2)
    · exact ((hvalues w hw).container rfl).mono (Nat.le_add_right n 2)
  · exact within_copy source target

/-- **Generated code writes at and below its target**, and in temporaries of its own. -/
theorem within_of_convert {s : Shape} (h : Yields (convert direction s source target) n code m) :
    ∀ w ∈ writesAll code.body, w.Within n target := by
  induction s generalizing source target n code m with
  | scalar =>
    rw [(convert_scalar h).1]
    exact within_copy source target
  | enum =>
    rw [(convert_enum h).1]
    exact within_copy source target
  | temporal =>
    rw [(convert_temporal h).1]
    exact within_of_subset (List.Subset.refl _)
  | list element ih =>
    obtain ⟨inner, generated, rfl⟩ := convert_list h
    unfold Code.ofList
    split
    · refine within_append (within_fresh _ _ _) (within_forKeys (.inl rfl) (Nat.le_refl n) ?_)
      exact fun w hw => ((ih generated w hw).container rfl).mono (Nat.le_succ n)
    · exact within_copy source target
  | mapping key value ihKey ihValue =>
    obtain ⟨keys, between, walked, generated, walk⟩ := convert_mapping h
    have le := convert_le generated
    have hkeys := ihKey generated
    rcases walk with ⟨-, values, rfl⟩ | ⟨-, values, rfl⟩
    · exact within_ofMapping hkeys fun w hw => (ihValue values w hw).mono le
    · exact within_ofMapping hkeys (within_ofMoved fun w hw => (ihValue values w hw).mono le)
  | tuple items ih =>
    obtain ⟨inner, generated, rfl⟩ := convert_tuple h
    have body := (convertItems_walk
      (P := fun n body m => n ≤ m ∧ ∀ w ∈ writesAll body, w.Within n target)
      (fun n => ⟨Nat.le_refl n, List.forall_mem_nil _⟩)
      within_then
      (fun s hs _ _ _ _ h => ⟨convert_le h, fun w hw => (ih s hs h w hw).container rfl⟩)
      generated).2
    rcases body_ofTuple direction source target inner with copied | built
    · rw [copied]
      exact within_copy source target
    · rw [built]
      exact within_append (within_fresh _ _ _) body
  | optional inner ih =>
    obtain ⟨present, generated, rfl⟩ := convert_optional h
    have body := ih generated
    cases direction with
    | out =>
      rw [Code.ofOptional, writesAll, writesAll, List.append_nil, writes]
      exact body
    | back =>
      rw [Code.ofOptional, writesAll, writesAll, List.append_nil, writes]
      exact List.forall_mem_cons.2 ⟨.self n target, body⟩
  | record name fields ih =>
    obtain ⟨inner, generated, rfl⟩ := convert_record h
    refine within_append (within_fresh _ _ _) ?_
    exact (convertFields_walk
      (P := fun n body m => n ≤ m ∧ ∀ w ∈ writesAll body, w.Within n target)
      (fun n => ⟨Nat.le_refl n, List.forall_mem_nil _⟩)
      within_then
      (fun f hf _ _ _ h => ⟨convert_le h, fun w hw => (ih f hf h w hw).container rfl⟩)
      generated).2
  | wrapper _ _ inner ih => exact ih (convert_wrapper h)
  | opened _ _ fields ih =>
    obtain ⟨field, inner, rfl, generated⟩ := convert_opened h
    exact ih _ (List.mem_singleton.2 rfl) generated
  | bareTemplate => exact (convert_bareTemplate h).elim
  | blocked => exact (convert_blocked h).elim

/-! ### Slots of a fresh container -/

variable {base part : Place}

/-- Code that fills a container of one's own and leaves it one. -/
def FillsOwn (base target : Place) (declared : List Temp) (body : List Statement) : Prop :=
  ∀ made, target ∈ made →
    OwnsAll base declared made body ∧ target ∈ kept made (writesAll body)

/-- Code for a slot fills its container. -/
theorem fills_slot (part : Place) (some : part.container? = some target) (plain : target.Plain n)
    {body : List Statement} (owns : ∀ made, target ∈ made → OwnsAll base declared made body)
    (within : ∀ w ∈ writesAll body, w.Within n part) : FillsOwn base target declared body :=
  fun made there => ⟨owns made there, mem_kept_of_within there plain some within⟩

/-- Statements that fill their own target do so one after the other. -/
theorem FillsOwn.append {front rest : List Statement} (first : FillsOwn base target declared front)
    (second : FillsOwn base target declared rest) : FillsOwn base target declared (front ++ rest) := by
  intro made there
  have ⟨owns, kept⟩ := first made there
  have ⟨ownsRest, keptRest⟩ := second _ kept
  rw [writesAll_append, kept_append]
  exact ⟨owns.append ownsRest, keptRest⟩

theorem FillsOwn.none (n : Nat) : n ≤ n ∧ (target.Plain n → FillsOwn base target declared []) :=
  ⟨Nat.le_refl n, fun _ _ there => ⟨trivial, mem_kept.2 ⟨there, List.forall_mem_nil _⟩⟩⟩

/-- Blocks that fill one container, one after the other. -/
theorem FillsOwn.then {k : Nat} {front rest : List Statement}
    (first : n ≤ k ∧ (target.Plain n → FillsOwn base target declared front))
    (second : k ≤ m ∧ (target.Plain k → FillsOwn base target declared rest)) :
    n ≤ m ∧ (target.Plain n → FillsOwn base target declared (front ++ rest)) :=
  ⟨Nat.le_trans first.1 second.1,
    fun plain => (first.2 plain).append (second.2 (plain.mono first.1))⟩

/-- A container is made, and filled. -/
theorem FillsOwn.owns {body : List Statement} (fills : FillsOwn base target declared body)
    (may : MayWrite base declared made target) {value : Operand}
    (fresh : (Statement.assign target value).makes = [target]) :
    OwnsAll base declared made (.assign target value :: body) := by
  refine ⟨may, (fills _ ?_).1⟩
  rw [after, fresh]
  exact List.mem_cons_self ..

/-- A loop over the keys of something fills a container that its turns fill. -/
theorem FillsOwn.forKeys {t : Temp} {p : Place} {body : List Statement}
    (fills : FillsOwn base target declared body) (part : Place) (some : part.container? = some target)
    (plain : target.Plain n) (within : ∀ w ∈ .temp t :: writesAll body, w.Within n part) :
    FillsOwn base target declared [.forKeys t p body] := by
  intro made there
  have still := mem_kept_of_within there plain some within
  rw [writesAll, writesAll, List.append_nil, writes]
  exact ⟨⟨(fills _ still).1, trivial⟩, still⟩

/-! ### The way out -/

/-- A copy owns what it writes if its target may be written. -/
theorem owns_copy (may : MayWrite base declared made target) (source : Place) :
    OwnsAll base declared made (Code.copy source target).body := by
  unfold Code.copy
  split
  · trivial
  · exact ⟨may, trivial⟩

/-- On the way out, the code of a shape writes what it may write. -/
def OwnsOut (base : Place) (s : Shape) : Prop :=
  ∀ {source target declared made n code m}, MayWrite base declared made target → target.Plain n →
    Yields (convert .out s source target) n code m → OwnsAll base declared made code.body

/-- An array owns what is written in it: the container is fresh, and the items are written inside.
-/
theorem ownsOut_list {element : Shape} (ih : OwnsOut base element) :
    OwnsOut base (.list element) := by
  intro source target declared made n code m may plain h
  obtain ⟨inner, generated, rfl⟩ := convert_list h
  unfold Code.ofList
  split
  · have inside : (Place.slot target ⟨"i", n⟩).Plain (n + 1) :=
      (plain.mono (Nat.le_succ n)).slot (.inl rfl) (Nat.lt_succ_self n)
    have within := fun w hw => (within_of_convert generated w hw).mono (Nat.le_succ n)
    have turn : FillsOwn base target declared inner.body :=
      fills_slot _ rfl plain (fun made there => ih (may.slot rfl there) inside generated) within
    refine (turn.forKeys (.slot target ⟨"i", n⟩) rfl plain ?_).owns may rfl
    exact List.forall_mem_cons.2 ⟨.temp (.inl rfl) (Nat.le_refl n), within⟩
  · exact owns_copy may source

/-- In the loop the prepared key is a declared temporary, and the target has been made. -/
theorem ownsOut_mapping {key value : Shape} (ihKey : OwnsOut base key)
    (ihValue : OwnsOut base value) : OwnsOut base (.mapping key value) := by
  intro source target declared made n code m may plain h
  obtain ⟨keys, between, walked, generated, ⟨-, values, rfl⟩ | ⟨moved, -⟩⟩ := convert_mapping h
  · unfold Code.ofMapping
    split
    · have le := convert_le generated
      have known := may.declare plain (t := ⟨"k", n + 1⟩) (.inr rfl) (Nat.le_succ n)
      have prepared : (Place.temp ⟨"k", n + 1⟩).Plain (n + 2) :=
        Place.plain_temp (.inr rfl) (Nat.lt_succ_self _)
      have entry : (Place.slot target ⟨"k", n + 1⟩).Plain between :=
        (plain.mono (Nat.le_trans (Nat.le_add_right n 2) le)).slot (.inr rfl) le
      have withinKeys : ∀ w ∈ writesAll keys.body, w.Within n (.slot target ⟨"k", n + 1⟩) :=
        fun w hw => (within_of_convert generated w hw).of_temp (.inr rfl) (Nat.le_succ n)
          (Nat.le_add_right n 2)
      have withinValues : ∀ w ∈ writesAll walked.body, w.Within n (.slot target ⟨"k", n + 1⟩) :=
        fun w hw => (within_of_convert values w hw).mono (Nat.le_trans (Nat.le_add_right n 2) le)
      have forKey : FillsOwn base target ([⟨"k", n + 1⟩] ++ declared) keys.body := by
        refine fills_slot _ rfl plain (fun made there => ihKey ?_ prepared generated) withinKeys
        exact ⟨.inr ⟨_, List.mem_cons_self .., Place.mem_trail_self _⟩, .inr nofun⟩
      have forValue : FillsOwn base target ([⟨"k", n + 1⟩] ++ declared) walked.body :=
        fills_slot _ rfl plain (fun made there => ihValue (known.slot rfl there) entry values)
          withinValues
      have turn := (forKey.append forValue).forKeys (t := ⟨"k", n⟩) (p := source)
        (.slot target ⟨"k", n + 1⟩) rfl plain
      refine ⟨trivial, (turn ?_).owns known rfl⟩
      refine List.forall_mem_cons.2 ⟨.temp (.inr rfl) (Nat.le_refl n), ?_⟩
      exact within_append withinKeys withinValues
    · exact owns_copy may source
  · cases moved

/-- A tuple owns what is written in it: the array is fresh, and each item is written in its own
slot. -/
theorem ownsOut_tuple {items : List Shape} (ih : ∀ s ∈ items, OwnsOut base s) :
    OwnsOut base (.tuple items) := by
  intro source target declared made n code m may plain h
  obtain ⟨inner, generated, rfl⟩ := convert_tuple h
  unfold Code.ofTuple
  dsimp only
  split
  · refine FillsOwn.owns ?_ may rfl
    refine (convertItems_walk
      (P := fun n body m => n ≤ m ∧ (target.Plain n → FillsOwn base target declared body))
      FillsOwn.none FillsOwn.then (fun s hs i _ _ _ h => ⟨convert_le h, fun plain => ?_⟩)
      generated).2 plain
    exact fills_slot (.item target i) rfl plain
      (fun made there => ih s hs (may.slot (p := .item target i) rfl there) (plain.of_names rfl) h)
      (within_of_convert h)
  · exact owns_copy may source

/-- A record owns what is written in it: the object is fresh, and each field is written under its
name. -/
theorem ownsOut_record {name : String} {fields : List (String × Shape)}
    (ih : ∀ f ∈ fields, OwnsOut base f.2) : OwnsOut base (.record name fields) := by
  intro source target declared made n code m may plain h
  obtain ⟨inner, generated, rfl⟩ := convert_record h
  refine FillsOwn.owns ?_ may rfl
  refine (convertFields_walk
    (P := fun n body m => n ≤ m ∧ (target.Plain n → FillsOwn base target declared body))
    FillsOwn.none FillsOwn.then (fun f hf _ _ _ h => ⟨convert_le h, fun plain => ?_⟩)
    generated).2 plain
  exact fills_slot (.field target f.1) rfl plain
    (fun made there => ih f hf (may.slot (p := .field target f.1) rfl there) (plain.of_names rfl) h)
    (within_of_convert h)

/-- **On the way out, code writes into its target, its temporaries and its own containers.** -/
theorem owns_of_convert (s : Shape) : OwnsOut base s := by
  induction s with
  | scalar =>
    intro source target declared made n code m may plain h
    rw [(convert_scalar h).1]
    exact owns_copy may source
  | enum =>
    intro source target declared made n code m may plain h
    rw [(convert_enum h).1]
    exact owns_copy may source
  | temporal =>
    intro source target declared made n code m may plain h
    rw [(convert_temporal h).1]
    exact ⟨may, trivial⟩
  | list element ih => exact ownsOut_list ih
  | mapping key value ihKey ihValue => exact ownsOut_mapping ihKey ihValue
  | tuple items ih => exact ownsOut_tuple ih
  | record name fields ih => exact ownsOut_record ih
  | optional inner ih =>
    intro source target declared made n code m may plain h
    obtain ⟨present, generated, rfl⟩ := convert_optional h
    exact ⟨ih may plain generated, trivial⟩
  | wrapper _ _ inner ih =>
    intro source target declared made n code m may plain h
    exact ih may plain (convert_wrapper h)
  | opened _ _ fields ih =>
    intro source target declared made n code m may plain h
    obtain ⟨field, inner, rfl, generated⟩ := convert_opened h
    exact ih _ (List.mem_singleton.2 rfl) may plain generated
  | bareTemplate =>
    intro source target declared made n code m may plain h
    exact (convert_bareTemplate h).elim
  | blocked =>
    intro source target declared made n code m may plain h
    exact (convert_blocked h).elim

end Shapes

end RpcBridge.Client
