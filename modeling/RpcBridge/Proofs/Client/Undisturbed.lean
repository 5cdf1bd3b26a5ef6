import RpcBridge.Proofs.Client.Ownership
import RpcBridge.Proofs.Client.Slot

/-!
# Proofs/Client/Undisturbed — what a value on its way out is left as

Code that writes into its target, its temporaries and its own containers leaves everything else as
it is: the older variables, and the objects that were there before it ran.  The invariant of a run
is `Holds`: the places that count as containers of one's own hold new objects, no two of them the
same.  A write that the text allows therefore hits the slot of the target or a new object, and
changes what no other such place holds.

* `Holds.put` — one write;
* `holds_of_runAll` — a run;
* `undisturbed_of_convert` — the code that takes a value out.
-/

namespace RpcBridge.Client

/-! ## Where a place leads -/

namespace Place

/-- The key of the slot that a place names in its container. -/
def keyIn (js : Engine) (μ : Memory) : Place → String
  | .root name | .field _ name => name
  | .temp t => t.name
  | .item _ i => toString i
  | .slot _ t => (μ.vars (.temp t)).keyText js

end Place

namespace Memory

variable {js : Engine} {μ : Memory} {p c : Place}

theorem spot_of_variable (h : p.container? = none) : μ.spot js p = .ok (.at (.var p.origin)) := by
  cases p with
  | root | temp => rfl
  | field | item | slot => cases h

theorem spot_of_container (h : p.container? = some c) :
    μ.spot js p = μ.value js c >>= fun held => memberOf held (p.keyIn js μ) := by
  rw [value, bind_assoc]
  cases p with
  | root | temp => cases h
  | field | item | slot =>
    cases h
    rfl

theorem memberOf_eq_at {held : Held} {key : String} {l : Location} :
    memberOf held key = .ok (.at l) ↔ ∃ a, held = .object a ∧ l = .member a key := by
  cases held with
  | object a =>
    constructor
    · intro h
      cases h
      exact ⟨a, rfl, rfl⟩
    · rintro ⟨_, same, rfl⟩
      cases same
      rfl
  | atom a =>
    constructor
    · intro h
      rw [memberOf] at h
      split at h <;> cases h
    · rintro ⟨_, same, -⟩
      cases same

/-- A slot of a container is a member of the object that the container holds. -/
theorem spot_eq_at (h : p.container? = some c) {l : Location} :
    μ.spot js p = .ok (.at l) ↔
      ∃ a, μ.value js c = .ok (.object a) ∧ l = .member a (p.keyIn js μ) := by
  rw [spot_of_container h, bind_eq_ok]
  constructor
  · rintro ⟨held, reads, member⟩
    obtain ⟨a, rfl, rfl⟩ := memberOf_eq_at.1 member
    exact ⟨a, reads, rfl⟩
  · rintro ⟨a, reads, rfl⟩
    exact ⟨_, reads, rfl⟩

theorem keyIn_congr {μ' : Memory}
    (same : ∀ c t, p = .slot c t → μ'.vars (.temp t) = μ.vars (.temp t)) :
    p.keyIn js μ' = p.keyIn js μ := by
  cases p with
  | root | temp | field | item => rfl
  | slot c t => exact congrArg (Held.keyText js) (same c t rfl)

/-- A write changes no key of a place that it leaves as it is. -/
theorem keyIn_put {w : Place} {x : Location} (there : μ.spot js w = .ok (.at x))
    (unchanged : w.mayChange p = false) (h : Option Held) :
    p.keyIn js (μ.put x h) = p.keyIn js μ := by
  refine keyIn_congr ?_
  rintro c t rfl
  cases written : w.container? with
  | some d =>
    obtain ⟨a, -, rfl⟩ := (spot_eq_at written).1 there
    rw [vars_put_member]
  | none =>
    rw [spot_of_variable written] at there
    cases there
    refine vars_put_of_ne μ h ?_
    intro same
    rw [Place.mayChange, written, ← same] at unchanged
    exact of_decide_eq_false unchanged (List.mem_cons_self ..)

theorem value_of_spot {l : Location} (h : μ.spot js p = .ok (.at l)) :
    μ.value js p = .ok (μ.read l) := by
  rw [value, h]
  rfl

end Memory

/-! ## Containers of one's own -/

open Statement Memory

section Runs

variable {js : Engine} {n : Nat} {μ₀ μ μ' : Memory} {l : Location} {target w p c : Place}
  {made written : List Place} {declared : List Temp}

/-- Each of the places is the target, a late temporary, or a slot of another one of them. -/
def Based (n : Nat) (target : Place) (made : List Place) : Prop :=
  ∀ p ∈ made, p = target ∨ (∃ t : Temp, n ≤ t.number ∧ p = .temp t) ∨
    ∃ c ∈ made, p.container? = some c

theorem Based.kept (based : Based n target made) : Based n target (kept made written) := by
  intro p hp
  obtain ⟨there, unchanged⟩ := mem_kept.1 hp
  refine (based p there).imp_right (Or.imp_right ?_)
  rintro ⟨c, hc, some⟩
  exact ⟨c, mem_kept.2 ⟨hc, fun w hw => Place.mayChange_container some (unchanged w hw)⟩, some⟩

/-- **The invariant of a run.**  Nothing has changed but the slot of the target, late temporaries
and new objects; and the places that count as containers of one's own hold new objects, each of
them another one. -/
structure Holds (js : Engine) (n : Nat) (μ₀ : Memory) (l : Location) (target : Place)
    (made : List Place) (μ : Memory) : Prop where
  agrees : ∃ v, Agrees (μ₀.next ≤ ·) n (μ₀.put l v) μ
  grown : μ₀.next ≤ μ.next
  based : Based n target made
  held : ∀ p ∈ made, ∃ a, μ.value js p = .ok (.object a) ∧ μ₀.next ≤ a ∧ a < μ.next
  apart : ∀ p ∈ made, ∀ q ∈ made, μ.value js p = μ.value js q → p = q

/-- The target names a slot that was there before, and names it whatever is written into it. -/
structure TargetSlot (js : Engine) (n : Nat) (μ₀ : Memory) (target : Place) (l : Location) :
    Prop where
  steady : Steady js (μ₀.next ≤ ·) n (μ₀.put l) target (.ok (.at l))
  outside : l.Outside (μ₀.next ≤ ·) n

/-- The slots that places name on their way read as before. -/
structure Reads (js : Engine) (made : List Place) (μ μ' : Memory) : Prop where
  cells : ∀ p ∈ made, ∀ x, μ.spot js p = .ok (.at x) → μ'.read x = μ.read x
  keys : ∀ p ∈ made, p.keyIn js μ' = p.keyIn js μ

namespace Holds

/-- The target names its slot throughout. -/
theorem target_eq (holds : Holds js n μ₀ l target made μ) (slot : TargetSlot js n μ₀ target l) :
    μ.spot js target = .ok (.at l) :=
  have ⟨v, agrees⟩ := holds.agrees
  slot.steady v μ agrees

/-- Fewer places. -/
theorem of_subset (holds : Holds js n μ₀ l target made μ) {fewer : List Place}
    (subset : fewer ⊆ made) (based : Based n target fewer) :
    Holds js n μ₀ l target fewer μ where
  agrees := holds.agrees
  grown := holds.grown
  based := based
  held p hp := holds.held p (subset hp)
  apart p hp q hq := holds.apart p (subset hp) q (subset hq)

theorem kept (holds : Holds js n μ₀ l target made μ) (written : List Place) :
    Holds js n μ₀ l target (kept made written) μ :=
  holds.of_subset (kept_subset_self _ _) holds.based.kept

/-- A slot of one of the places is a member of a new object. -/
theorem slot_of_based (holds : Holds js n μ₀ l target made μ) (hp : p ∈ made)
    (some : p.container? = some c) (ne : p ≠ target) : c ∈ made := by
  rcases holds.based p hp with rfl | ⟨t, -, rfl⟩ | ⟨d, hd, same⟩
  · exact (ne rfl).elim
  · cases some
  · obtain rfl : c = d := Option.some.inj (some.symm.trans same)
    exact hd

/-- While the slots on their way read the same, the places hold the same. -/
theorem value_eq (holds : Holds js n μ₀ l target made μ) (slot : TargetSlot js n μ₀ target l)
    (agrees : ∃ v, Agrees (μ₀.next ≤ ·) n (μ₀.put l v) μ') (reads : Reads js made μ μ') :
    ∀ p ∈ made, μ'.value js p = μ.value js p := by
  have close {p : Place} (hp : p ∈ made) {x : Location} (before : μ.spot js p = .ok (.at x))
      (after : μ'.spot js p = .ok (.at x)) : μ'.value js p = μ.value js p := by
    rw [value_of_spot before, value_of_spot after, reads.cells p hp x before]
  intro p
  induction p using Place.container_induction with
  | start p none =>
    intro hp
    exact close hp (spot_of_variable none) (spot_of_variable none)
  | slot p c some ih =>
    intro hp
    by_cases same : p = target
    · subst same
      obtain ⟨v, agrees⟩ := agrees
      exact close hp (holds.target_eq slot) (slot.steady v μ' agrees)
    · have hc := holds.slot_of_based hp some same
      obtain ⟨a, held, -⟩ := holds.held c hc
      refine close hp ((spot_eq_at some).2 ⟨a, held, rfl⟩) ((spot_eq_at some).2 ⟨a, ?_, ?_⟩)
      · rw [ih hc, held]
      · rw [reads.keys p hp]

/-- While the slots on their way read the same, the places stay containers of one's own. -/
theorem carry (holds : Holds js n μ₀ l target made μ) (slot : TargetSlot js n μ₀ target l)
    (agrees : ∃ v, Agrees (μ₀.next ≤ ·) n (μ₀.put l v) μ') (reads : Reads js made μ μ')
    (grown : μ.next ≤ μ'.next) : Holds js n μ₀ l target made μ' := by
  have still := holds.value_eq slot agrees reads
  refine ⟨agrees, Nat.le_trans holds.grown grown, holds.based, fun p hp => ?_, ?_⟩
  · obtain ⟨a, held, new, old⟩ := holds.held p hp
    exact ⟨a, (still p hp).trans held, new, Nat.lt_of_lt_of_le old grown⟩
  · intro p hp q hq same
    rw [still p hp, still q hq] at same
    exact holds.apart p hp q hq same

/-- Where the containers stay what they are, a place that may be written names the slot it named. -/
theorem spot_eq (holds : Holds js n μ₀ l target made μ) (slot : TargetSlot js n μ₀ target l)
    (may : MayWrite target declared made w)
    (agrees : ∃ v, Agrees (μ₀.next ≤ ·) n (μ₀.put l v) μ')
    (still : ∀ p ∈ made, μ'.value js p = μ.value js p)
    (key : w.keyIn js μ' = w.keyIn js μ) : μ'.spot js w = μ.spot js w := by
  rcases may.cases with rfl | ⟨t, -, rfl⟩ | ⟨c, hc, some⟩
  · obtain ⟨v, agrees⟩ := agrees
    rw [holds.target_eq slot, slot.steady v μ' agrees]
  · rfl
  · rw [spot_of_container some, spot_of_container some, still c hc, key]

/-- The slot of the target is a member of no new object. -/
theorem old_of_target (holds : Holds js n μ₀ l target made μ)
    (slot : TargetSlot js n μ₀ target l) {a : Nat} {key : String}
    (h : μ.spot js target = .ok (.at (.member a key))) : ¬μ₀.next ≤ a := by
  rw [holds.target_eq slot] at h
  cases h
  exact slot.outside

/-- A container of one's own is a new object. -/
theorem new_of_mem (holds : Holds js n μ₀ l target made μ) (hp : p ∈ made) {a : Nat}
    (h : μ.value js p = .ok (.object a)) : μ₀.next ≤ a ∧ a < μ.next := by
  obtain ⟨b, held, new, old⟩ := holds.held p hp
  rw [h] at held
  cases held
  exact ⟨new, old⟩

/-- A place that is kept lies in another container than the one that is written into. -/
theorem container_ne_of_kept {d e : Place} (hp : p ∈ Statement.kept made [w])
    (written : w.container? = some d) (read : p.container? = some e) : d ≠ e := by
  have unchanged := List.forall_mem_singleton.1 (mem_kept.1 hp).2
  rintro rfl
  rw [Place.mayChange, written] at unchanged
  refine of_decide_eq_false unchanged ⟨(Place.mem_trail_iff read).2 (.inr ?_), ?_⟩
  · exact Place.mem_trail_self d
  · rintro rfl
    exact Place.not_mem_trail_container read (Place.mem_trail_self d)

/-- **A write hits no place that is kept.** -/
theorem spot_ne (holds : Holds js n μ₀ l target made μ) (slot : TargetSlot js n μ₀ target l)
    (may : MayWrite target declared made w) {x : Location} (there : μ.spot js w = .ok (.at x))
    (hp : p ∈ Statement.kept made [w]) : μ.spot js p ≠ .ok (.at x) := by
  obtain ⟨there', unchanged⟩ := mem_kept.1 hp
  intro hit
  cases written : w.container? with
  | none =>
    -- a variable is written, and what names it is not kept
    rw [spot_of_variable written] at there
    cases read : p.container? with
    | none =>
      rw [spot_of_variable read, ← there] at hit
      have same : p.origin = w.origin := by injection hit with h; injection h with h; injection h
      have unchanged := List.forall_mem_singleton.1 unchanged
      rw [Place.mayChange, written, ← same] at unchanged
      exact of_decide_eq_false unchanged (Place.origin_mem_names p)
    | some e =>
      obtain ⟨a, -, rfl⟩ := (spot_eq_at read).1 hit
      cases there
  | some d =>
    obtain ⟨a, holdsWritten, rfl⟩ := (spot_eq_at written).1 there
    cases read : p.container? with
    | none =>
      rw [spot_of_variable read] at hit
      cases hit
    | some e =>
      obtain ⟨b, holdsRead, same⟩ := (spot_eq_at read).1 hit
      obtain rfl : a = b := by injection same
      have killed := container_ne_of_kept hp written read
      -- an object that is new is not the one in which the target lies
      by_cases atTarget : p = target
      · have old := holds.old_of_target slot (atTarget ▸ hit)
        rcases may.cases with rfl | ⟨t, -, rfl⟩ | ⟨c, hc, some⟩
        · rw [atTarget, written] at read
          exact killed (Option.some.inj read)
        · cases written
        · obtain rfl : d = c := Option.some.inj (written.symm.trans some)
          exact old (holds.new_of_mem hc holdsWritten).1
      · have he := holds.slot_of_based there' read atTarget
        have new := (holds.new_of_mem he holdsRead).1
        rcases may.cases with rfl | ⟨t, -, rfl⟩ | ⟨c, hc, some⟩
        · exact holds.old_of_target slot there new
        · cases written
        · obtain rfl : d = c := Option.some.inj (written.symm.trans some)
          exact killed (holds.apart d hc e he (holdsWritten.trans holdsRead.symm))

/-- The agreement that a write keeps. -/
theorem agrees_put (holds : Holds js n μ₀ l target made μ) (slot : TargetSlot js n μ₀ target l)
    (may : MayWrite target declared made w) (late : ∀ t ∈ declared, n ≤ t.number)
    {x : Location} (there : μ.spot js w = .ok (.at x)) (h : Held) :
    ∃ v, Agrees (μ₀.next ≤ ·) n (μ₀.put l v) (μ.put x (some h)) := by
  obtain ⟨v, agrees⟩ := holds.agrees
  rcases may.cases with rfl | ⟨t, ht, rfl⟩ | ⟨c, hc, some⟩
  · rw [holds.target_eq slot] at there
    cases there
    refine ⟨some h, ?_⟩
    rw [← put_put μ₀ l v h]
    exact agrees.put slot.outside (some h)
  · cases there
    exact ⟨v, agrees.trans (.putTemp (late t ht) μ (some h))⟩
  · obtain ⟨a, held, rfl⟩ := (spot_eq_at some).1 there
    refine ⟨v, agrees.trans ⟨fun _ _ => rfl, fun b hb => objects_put_of_ne μ _ _ ?_⟩⟩
    rintro rfl
    exact hb (holds.new_of_mem hc held).1

/-- **A write that is allowed** leaves the containers that are kept, with what they hold, and the
place it writes names the slot that has been written. -/
theorem put (holds : Holds js n μ₀ l target made μ) (slot : TargetSlot js n μ₀ target l)
    (may : MayWrite target declared made w) (late : ∀ t ∈ declared, n ≤ t.number)
    {x : Location} (there : μ.spot js w = .ok (.at x)) (h : Held) :
    Holds js n μ₀ l target (Statement.kept made [w]) (μ.put x (some h)) ∧
      (∀ p ∈ Statement.kept made [w], (μ.put x (some h)).value js p = μ.value js p) ∧
      (μ.put x (some h)).spot js w = .ok (.at x) := by
  have agrees := holds.agrees_put slot may late there h
  have reads : Reads js (Statement.kept made [w]) μ (μ.put x (some h)) := by
    refine ⟨fun p hp y before => read_put_of_ne μ h ?_, fun p hp => ?_⟩
    · rintro rfl
      exact holds.spot_ne slot may there hp before
    · exact keyIn_put there ((mem_kept.1 hp).2 w (List.mem_singleton_self w)) (some h)
  have few := holds.kept [w]
  have still := few.value_eq slot agrees reads
  refine ⟨few.carry slot agrees reads (Nat.le_of_eq (next_put ..).symm), still, ?_⟩
  rw [← there]
  refine few.spot_eq slot may.again agrees still (keyIn_congr ?_)
  rintro c t rfl
  obtain ⟨a, -, rfl⟩ := (spot_eq_at rfl).1 there
  rw [vars_put_member]

/-- A new object changes nothing that is there. -/
theorem alloc (holds : Holds js n μ₀ l target made μ) (slot : TargetSlot js n μ₀ target l)
    (isArray : Bool) : Holds js n μ₀ l target made (μ.alloc isArray) ∧
      ∀ p ∈ made, (μ.alloc isArray).value js p = μ.value js p := by
  have others {a : Nat} (ne : a ≠ μ.next) : (μ.alloc isArray).objects a = μ.objects a := if_neg ne
  have agrees : ∃ v, Agrees (μ₀.next ≤ ·) n (μ₀.put l v) (μ.alloc isArray) := by
    obtain ⟨v, agrees⟩ := holds.agrees
    refine ⟨v, agrees.trans ⟨fun _ _ => rfl, fun a ha => others ?_⟩⟩
    rintro rfl
    exact ha holds.grown
  have reads : Reads js made μ (μ.alloc isArray) := by
    refine ⟨fun p hp x before => ?_, fun p _ => keyIn_congr fun _ _ _ => rfl⟩
    cases x with
    | var => rfl
    | member a key =>
      have ne : a ≠ μ.next := by
        rintro rfl
        by_cases same : p = target
        · exact holds.old_of_target slot (same ▸ before) holds.grown
        · cases some : p.container? with
          | none =>
            rw [spot_of_variable some] at before
            cases before
          | some c =>
            obtain ⟨b, held, same'⟩ := (spot_eq_at some).1 before
            injection same' with eq
            have := (holds.new_of_mem (holds.slot_of_based hp some same) held).2
            omega
      rw [Memory.read, Memory.read, Memory.content, Memory.content, others ne]
  exact ⟨holds.carry slot agrees reads (Nat.le_succ _), holds.value_eq slot agrees reads⟩

/-- **A fresh container** is one more of one's own. -/
theorem make (holds : Holds js n μ₀ l target made μ) (slot : TargetSlot js n μ₀ target l)
    (may : MayWrite target declared made w) (late : ∀ t ∈ declared, n ≤ t.number)
    {x : Location} (there : μ.spot js w = .ok (.at x)) (isArray : Bool) :
    Holds js n μ₀ l target (w :: Statement.kept made [w])
      ((μ.alloc isArray).put x (some (.object μ.next))) := by
  obtain ⟨enlarged, same⟩ := holds.alloc slot isArray
  have still : (μ.alloc isArray).spot js w = .ok (.at x) := by
    rw [← there]
    exact holds.spot_eq slot may enlarged.agrees same (keyIn_congr fun _ _ _ => rfl)
  obtain ⟨written, values, spot⟩ := enlarged.put slot may late still (.object μ.next)
  have here : ((μ.alloc isArray).put x (some (.object μ.next))).value js w =
      .ok (.object μ.next) := by
    rw [value_of_spot spot, Memory.read, content_put, Option.getD_some]
  -- what is kept holds an older object
  have distinct : ∀ p ∈ Statement.kept made [w],
      ((μ.alloc isArray).put x (some (.object μ.next))).value js p ≠ .ok (.object μ.next) := by
    intro p hp held
    have hp' := kept_subset_self _ _ hp
    rw [values p hp, same p hp'] at held
    exact Nat.lt_irrefl _ (holds.new_of_mem hp' held).2
  refine ⟨written.agrees, written.grown, ?_, ?_, ?_⟩
  · refine List.forall_mem_cons.2 ⟨?_, fun p hp => ?_⟩
    · refine may.again.cases.imp_right (Or.imp ?_ ?_)
      · rintro ⟨t, ht, same⟩
        exact ⟨t, late t ht, same⟩
      · rintro ⟨c, hc, lies⟩
        exact ⟨c, List.mem_cons_of_mem _ hc, lies⟩
    · refine (written.based p hp).imp_right (Or.imp_right ?_)
      rintro ⟨c, hc, lies⟩
      exact ⟨c, List.mem_cons_of_mem _ hc, lies⟩
  · refine List.forall_mem_cons.2 ⟨⟨μ.next, here, holds.grown, ?_⟩, written.held⟩
    rw [next_put]
    exact Nat.lt_succ_self _
  · refine List.forall_mem_cons.2 ⟨List.forall_mem_cons.2 ⟨fun _ => rfl, fun q hq eq => ?_⟩,
      fun p hp => List.forall_mem_cons.2 ⟨fun eq => ?_, written.apart p hp⟩⟩
    · exact (distinct q hq (eq ▸ here)).elim
    · exact (distinct p hp (eq.trans here)).elim

end Holds

/-! ## Runs -/

/-- An assignment that succeeds finds a slot, works its value out, and writes it. -/
theorem run_assign {value : Operand} (h : (Statement.assign w value).run js μ = .ok μ') :
    ∃ x held μ₁, μ.spot js w = .ok (.at x) ∧ value.run js μ = .ok (held, μ₁) ∧
      μ' = μ₁.put x (some held) := by
  rw [Statement.run] at h
  obtain ⟨spot, found, h⟩ := bind_eq_ok.1 h
  obtain ⟨⟨held, μ₁⟩, worked, h⟩ := bind_eq_ok.1 h
  cases spot with
  | shut => cases h
  | «at» x =>
    cases h
    exact ⟨x, held, μ₁, found, worked, rfl⟩

theorem holds_of_assign {value : Operand} (slot : TargetSlot js n μ₀ target l)
    (may : MayWrite target declared made w) (late : ∀ t ∈ declared, n ≤ t.number)
    (holds : Holds js n μ₀ l target made μ)
    (run : (Statement.assign w value).run js μ = .ok μ') :
    Holds js n μ₀ l target (after made (.assign w value)) μ' := by
  obtain ⟨x, held, μ₁, there, worked, rfl⟩ := run_assign run
  cases value with
  | place p =>
    obtain ⟨_, -, same⟩ := bind_eq_ok.1 worked
    cases same
    exact (holds.put slot may late there held).1
  | converted c p =>
    obtain ⟨_, -, worked⟩ := bind_eq_ok.1 worked
    obtain ⟨_, -, same⟩ := bind_eq_ok.1 worked
    cases same
    exact (holds.put slot may late there held).1
  | emptyObject | emptyArray =>
    cases worked
    exact holds.make slot may late there _

/-- A temporary is bound. -/
theorem Holds.bind (holds : Holds js n μ₀ l target made μ) (slot : TargetSlot js n μ₀ target l)
    {t : Temp} (late : n ≤ t.number) (h : Held) :
    Holds js n μ₀ l target (Statement.kept made [.temp t])
      (μ.put (.var (.temp t)) (some h)) := by
  have may : MayWrite target [t] made (.temp t) :=
    ⟨.inr ⟨t, List.mem_singleton_self t, Place.mem_trail_self _⟩, .inr nofun⟩
  exact (holds.put slot may (List.forall_mem_singleton.2 late) rfl h).1

/-- What every turn of a loop keeps, the loop keeps. -/
theorem foldlM_keeps {P : Memory → Prop} {turn : Memory → String → Except Fault Memory}
    (step : ∀ {μ μ' key}, P μ → turn μ key = .ok μ' → P μ') {keys : List String} {μ μ' : Memory}
    (start : P μ) (run : keys.foldlM turn μ = .ok μ') : P μ' := by
  induction keys generalizing μ with
  | nil =>
    cases run
    exact start
  | cons key rest ih =>
    rw [List.foldlM_cons] at run
    obtain ⟨μ₁, first, run⟩ := bind_eq_ok.1 run
    exact ih (step start first) run

theorem declares_subset (s : Statement) : s.declares ⊆ s.introduces := by
  cases s with
  | declare t => exact List.Subset.refl _
  | assign | forKeys | unlessUndefined | unlessNull => exact List.nil_subset _

mutual

theorem holds_of_run (slot : TargetSlot js n μ₀ target l) : ∀ (s : Statement)
    {declared : List Temp} {made : List Place} {μ μ' : Memory}, s.Owns target declared made →
    (∀ t ∈ declared, n ≤ t.number) → (∀ t ∈ s.introduces, n ≤ t.number) →
    Holds js n μ₀ l target made μ → s.run js μ = .ok μ' →
    Holds js n μ₀ l target (after made s) μ'
  | .assign w value, _, _, _, _, may, known, _, holds, run =>
    holds_of_assign slot may known holds run
  | .declare t, _, _, _, _, _, _, late, holds, run => by
    cases run
    exact holds.bind slot (late t (List.mem_singleton_self t)) _
  | .forKeys t p body, _, made, _, _, owns, known, late, holds, run => by
    rw [introduces, List.forall_mem_cons] at late
    rw [Statement.run] at run
    obtain ⟨_, -, run⟩ := bind_eq_ok.1 run
    have loop : after made (.forKeys t p body) = kept made (.temp t :: writesAll body) := rfl
    rw [loop]
    refine foldlM_keeps (fun {μ μ' key} holds run => ?_) (holds.kept _) run
    -- a turn begins with what is kept throughout, and keeps it
    have bound := holds.bind slot late.1 (.atom (.string key))
    rw [kept_kept (List.cons_subset.2 ⟨List.mem_cons_self .., List.nil_subset _⟩)] at bound
    have turned := holds_of_runAll slot body owns known late.2 bound run
    rwa [kept_kept (List.subset_cons_self _ _)] at turned
  | .unlessUndefined p body, _, _, _, _, owns, known, late, holds, run => by
    rw [Statement.run] at run
    obtain ⟨_, -, run⟩ := bind_eq_ok.1 run
    split at run
    · cases run
      exact holds.kept _
    · exact holds_of_runAll slot body owns known late holds run
  | .unlessNull source w body, _, made, _, _, owns, known, late, holds, run => by
    rw [Statement.run] at run
    obtain ⟨_, -, run⟩ := bind_eq_ok.1 run
    have branches : after made (.unlessNull source w body) =
        kept (kept made [w]) (writesAll body) := kept_append made [w] (writesAll body)
    rw [branches]
    split at run
    · obtain ⟨spot, found, run⟩ := bind_eq_ok.1 run
      cases spot with
      | shut => cases run
      | «at» x =>
        cases run
        exact (holds.put slot owns.1 known found (.atom .undefined)).1.kept (writesAll body)
    · rw [kept_comm]
      exact (holds_of_runAll slot body owns.2 known late holds run).kept [w]

/-- **Code that writes what it may keeps the invariant.** -/
theorem holds_of_runAll (slot : TargetSlot js n μ₀ target l) : ∀ (body : List Statement)
    {declared : List Temp} {made : List Place} {μ μ' : Memory},
    OwnsAll target declared made body →
    (∀ t ∈ declared, n ≤ t.number) → (∀ t ∈ introducesAll body, n ≤ t.number) →
    Holds js n μ₀ l target made μ → runAll js body μ = .ok μ' →
    Holds js n μ₀ l target (kept made (writesAll body)) μ'
  | [], _, _, _, _, _, _, _, holds, run => by
    cases run
    exact holds.kept _
  | s :: rest, declared, made, _, _, owns, known, late, holds, run => by
    rw [introducesAll, List.forall_mem_append] at late
    rw [runAll] at run
    obtain ⟨μ₁, first, run⟩ := bind_eq_ok.1 run
    have began := holds_of_run slot s owns.1 known late.1 holds first
    have known' : ∀ t ∈ s.declares ++ declared, n ≤ t.number :=
      List.forall_mem_append.2 ⟨fun t ht => late.1 t (declares_subset s ht), known⟩
    have ended := holds_of_runAll slot rest owns.2 known' late.2 began run
    rw [writesAll, kept_append]
    exact ended.of_subset (kept_subset (List.subset_append_right _ _)) holds.based.kept.kept

end

/-! ## The code of a shape -/

variable {s : Shape} {source : Place} {m a : Nat} {code : Code} {v : Option Held}

/-- Before anything has run, nothing is one's own. -/
theorem Holds.start (js : Engine) (n : Nat) (μ : Memory) (l : Location) (target : Place) :
    Holds js n μ l target [] μ where
  agrees := ⟨none, by rw [put_none]; exact .refl _ _ _⟩
  grown := Nat.le_refl _
  based := List.forall_mem_nil _
  held := List.forall_mem_nil _
  apart := List.forall_mem_nil _

/-- On the way out, a run changes the slot of the target, its temporaries and new objects. -/
theorem agrees_of_convert (h : Yields (convert .out s source target) n code m)
    (plain : target.Plain n) (slot : TargetSlot js n μ target l)
    (run : runAll js code.body μ = .ok μ') :
    ∃ v, Agrees (μ.next ≤ ·) n (μ.put l v) μ' := by
  have may : MayWrite target [] [] target := ⟨.inl (Place.mem_trail_self target), .inl rfl⟩
  exact (holds_of_runAll slot code.body (owns_of_convert _ may plain h) (List.forall_mem_nil _)
    (numbered_of_convert h).lower (.start js n μ l target) run).agrees

/-- An older object in which the written slot does not lie is as before. -/
theorem Agrees.object_eq (agrees : Agrees (μ.next ≤ ·) n (μ.put l v) μ') (old : a < μ.next)
    (other : ∀ key, l ≠ .member a key) : μ'.objects a = μ.objects a := by
  rw [agrees.objects a (Nat.not_le_of_lt old)]
  cases l with
  | var x => rw [objects_put_variable]
  | member b key =>
    refine objects_put_of_ne μ key v ?_
    rintro rfl
    exact other key rfl

/-- A parameter of a function is a slot of its own. -/
theorem targetSlot_root (js : Engine) (n : Nat) (μ : Memory) (name : String) :
    TargetSlot js n μ (.root name) (.var (.root name)) :=
  ⟨fun _ _ _ => rfl, id⟩

/-- **A value on its way out is left as it is.**  The code writes at and below its target and its
declared temporaries, below a place only while that holds a container the code has made, and never
at or below the variable of the source.  So whatever objects the source shares with anything, a run
changes the slot of the target, its own temporaries and new objects. -/
theorem undisturbed_of_convert {d : Descriptor}
    (accepted : Yields (convert .out d.shape source target) n code m)
    (hsource : source.Plain n) (htarget : target.Plain n)
    (apart : source.origin.name ≠ target.origin.name) :
    OwnsAll target [] [] code.body ∧
    (∀ w ∈ writesAll code.body, w.origin.name ≠ source.origin.name) ∧
    ∀ {js : Engine} {μ μ' : Memory} {l : Location}, TargetSlot js n μ target l →
      runAll js code.body μ = .ok μ' →
      (∃ v, Agrees (μ.next ≤ ·) n (μ.put l v) μ') ∧
        ∀ a < μ.next, (∀ key, l ≠ .member a key) → μ'.objects a = μ.objects a := by
  have may : MayWrite target [] [] target := ⟨.inl (Place.mem_trail_self target), .inl rfl⟩
  refine ⟨owns_of_convert _ may htarget accepted, fun w hw => ?_, fun slot run => ?_⟩
  · exact Place.origin_ne_of_within apart hsource (within_of_convert accepted w hw)
  · obtain ⟨v, agrees⟩ := agrees_of_convert accepted htarget slot run
    exact ⟨⟨v, agrees⟩, fun a old other => agrees.object_eq old other⟩

/-- Visits with a date and tags: the tags are shared, and no object that is there is changed. -/
theorem undisturbed_of_convert_visits :
    ∃ d code, d = Descriptor.list (.record "Visit"
        [("on", .temporal .date), ("tags", .list (.scalar .string))] false) ∧
      Yields (convert .out d.shape (.root "params") (.root "preparedParams")) 0 code 2 ∧
      (writesAll code.body).map Place.toText = ["preparedParams", "i0", "preparedParams[i0]",
        "preparedParams[i0].on", "preparedParams[i0].tags"] ∧
      OwnsAll (.root "preparedParams") [] [] code.body ∧
      (∀ w ∈ writesAll code.body, w.origin.name ≠ "params") ∧
      ∀ js μ μ', runAll js code.body μ = .ok μ' → ∀ a < μ.next, μ'.objects a = μ.objects a := by
  obtain ⟨d, hd⟩ : ∃ d, d = Descriptor.list (.record "Visit"
    [("on", .temporal .date), ("tags", .list (.scalar .string))] false) := ⟨_, rfl⟩
  obtain ⟨code, accepted, texts⟩ :
      ∃ code, Yields (convert .out d.shape (.root "params") (.root "preparedParams")) 0 code 2 ∧
        (writesAll code.body).map Place.toText = ["preparedParams", "i0", "preparedParams[i0]",
          "preparedParams[i0].on", "preparedParams[i0].tags"] := by
    let source := Place.slot (.root "params") ⟨"i", 0⟩
    let target := Place.slot (.root "preparedParams") ⟨"i", 0⟩
    refine ⟨⟨[.assign (.root "preparedParams") .emptyArray, .forKeys ⟨"i", 0⟩ (.root "params")
      [.assign target .emptyObject,
        .assign (.field target "on") (.converted .dateToText (.field source "on")),
        .assign (.field target "tags") (.place (.field source "tags"))]], true⟩, ?_, by decide⟩
    rw [hd, Yields]
    rfl
  have params : (Place.root "params").Plain 0 :=
    fun t lettered _ same => lettered.name_ne.1 (List.mem_singleton.1 same)
  have prepared : (Place.root "preparedParams").Plain 0 :=
    fun t lettered _ same => lettered.name_ne.2.1 (List.mem_singleton.1 same)
  obtain ⟨owns, apart, undisturbed⟩ :=
    undisturbed_of_convert accepted params prepared (by decide)
  refine ⟨d, code, hd, accepted, texts, owns, apart, fun js μ μ' run a old => ?_⟩
  exact (undisturbed (targetSlot_root js 0 μ "preparedParams") run).2 a old nofun

end Runs

end RpcBridge.Client
