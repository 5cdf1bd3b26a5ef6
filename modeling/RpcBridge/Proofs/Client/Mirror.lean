import Mathlib.Data.List.Forall2
import Mathlib.Data.List.Zip
import RpcBridge.Proofs.Client.Graft
import RpcBridge.Proofs.Client.Received

/-!
# Proofs/Client/Mirror — two memories that hold the same value

A value that is converted by itself and the same value in a slot of a larger memory go through the
same steps.  The two memories mirror each other: the slot holds what the variable of the result
holds, up to the addresses of objects, and so do the temporaries in scope.  Beside the slot, the
objects of the value and late temporaries, the larger memory stays as it was.

Since nothing is allocated on the way back, the addresses that correspond to each other are the same
from beginning to end.

* `Site` — a slot and the addresses that correspond to each other;
* `Site.Mirrors` — the invariant of two parallel runs;
* `mirrors_of_run` — statements that are carried over do the same on both sides;
* `Layout.Pairs` — the addresses that correspond to each other in two layouts of one value;
* `Held.Alike.looks` — what is held is the same value with everything below it.
-/

namespace RpcBridge.Client

/-! ## Parallel outcomes -/

/-- Two computations end with related results, or break off with the same fault. -/
inductive Parallel {α β : Type} (R : α → β → Prop) : Except Fault α → Except Fault β → Prop where
  | ok {a : α} {b : β} (h : R a b) : Parallel R (.ok a) (.ok b)
  | error (fault : Fault) : Parallel R (.error fault) (.error fault)

namespace Parallel

variable {α β γ δ : Type} {R : α → β → Prop} {S : γ → δ → Prop}

/-- Runs that go parallel go parallel under every weaker relation. -/
theorem mono {T : α → β → Prop} {x : Except Fault α} {y : Except Fault β} (h : Parallel R x y)
    (imp : ∀ a b, R a b → T a b) : Parallel T x y := by
  cases h with
  | ok h => exact .ok (imp _ _ h)
  | error fault => exact .error fault

/-- Parallel runs followed by parallel runs are parallel. -/
theorem bind {x : Except Fault α} {y : Except Fault β} {f : α → Except Fault γ}
    {g : β → Except Fault δ} (first : Parallel R x y)
    (second : ∀ a b, R a b → Parallel S (f a) (g b)) : Parallel S (x >>= f) (y >>= g) := by
  cases first with
  | ok h => exact second _ _ h
  | error fault => exact .error fault

/-- Where the first of two parallel runs ends, so does the second. -/
theorem right {x : Except Fault α} {y : Except Fault β} (h : Parallel R x y) {a : α}
    (ends : x = .ok a) : ∃ b, y = .ok b ∧ R a b := by
  cases h with
  | ok h =>
    cases ends
    exact ⟨_, rfl, h⟩
  | error => cases ends

/-- Where the second of two parallel runs ends, so does the first. -/
theorem left {x : Except Fault α} {y : Except Fault β} (h : Parallel R x y) {b : β}
    (ends : y = .ok b) : ∃ a, x = .ok a ∧ R a b := by
  cases h with
  | ok h =>
    cases ends
    exact ⟨_, rfl, h⟩
  | error => cases ends

/-- Two loops over the same keys. -/
theorem foldlM {f : α → String → Except Fault α} {g : β → String → Except Fault β}
    (turn : ∀ key a b, R a b → Parallel R (f a key) (g b key)) (keys : List String) {a : α} {b : β}
    (h : R a b) : Parallel R (keys.foldlM f a) (keys.foldlM g b) := by
  induction keys generalizing a b with
  | nil => exact .ok h
  | cons key rest ih =>
    rw [List.foldlM_cons, List.foldlM_cons]
    exact (turn key a b h).bind fun a b h => ih h

end Parallel

/-! ## The same value -/

section Alike

variable {pairs : Nat → Nat → Prop}

/-- Two slots hold the same atom, or objects at addresses that correspond to each other. -/
inductive Held.Alike (pairs : Nat → Nat → Prop) : Held → Held → Prop where
  | atom (a : Atom) : Alike pairs (.atom a) (.atom a)
  | object {a b : Nat} (h : pairs a b) : Alike pairs (.object a) (.object b)

/-- The same members, in the same order. -/
abbrev MembersAlike (pairs : Nat → Nat → Prop) (members members' : List (String × Held)) : Prop :=
  List.Forall₂ (fun m m' => m.1 = m'.1 ∧ m.2.Alike pairs m'.2) members members'

/-- Two objects of one kind with the same members. -/
structure Object.Alike (pairs : Nat → Nat → Prop) (o o' : Object) : Prop where
  isArray : o.isArray = o'.isArray
  members : MembersAlike pairs o.members o'.members

section Members

variable {members members' : List (String × Held)}

/-- Alike members have the same keys. -/
theorem MembersAlike.keys (h : MembersAlike pairs members members') :
    members.map (·.1) = members'.map (·.1) := by
  induction h with
  | nil => rfl
  | cons first _ ih => rw [List.map_cons, List.map_cons, first.1, ih]

/-- A member is read as the same value on both sides, or as undefined. -/
theorem MembersAlike.lookup (h : MembersAlike pairs members members') (key : String) :
    Held.Alike pairs ((members.lookup key).getD (.atom .undefined))
      ((members'.lookup key).getD (.atom .undefined)) := by
  induction h with
  | nil => exact .atom _
  | cons first _ ih =>
    rw [lookup_cons_eq, lookup_cons_eq, ← first.1]
    split
    · exact first.2
    · exact ih

/-- Alike values put under the same key leave the members alike. -/
theorem MembersAlike.put (h : MembersAlike pairs members members') (key : String) {x x' : Held}
    (same : x.Alike pairs x') :
    MembersAlike pairs (putEntry members key x) (putEntry members' key x') := by
  induction h with
  | nil => exact .cons ⟨rfl, same⟩ .nil
  | @cons m m' rest rest' first others ih =>
    obtain ⟨name, old⟩ := m
    obtain ⟨name', old'⟩ := m'
    obtain rfl : name = name' := first.1
    rw [putEntry, putEntry]
    split
    · exact .cons ⟨rfl, same⟩ others
    · exact .cons first ih

end Members

/-- Alike values have the same text as keys. -/
theorem Held.Alike.keyText (js : Engine) {x x' : Held} (h : x.Alike pairs x') :
    x.keyText js = x'.keyText js := by
  cases h <;> rfl

/-- A value alike to an atom is that atom. -/
theorem Held.Alike.eq_atom_iff {x x' : Held} {a : Atom} (h : x.Alike pairs x') :
    x = .atom a ↔ x' = .atom a := by
  cases h with
  | atom => exact Iff.rfl
  | object => exact iff_of_false nofun nofun

/-- Conversions of alike values are parallel. -/
theorem Conversion.alike_run (c : Conversion) {x x' : Held} (h : x.Alike pairs x') :
    Parallel (Held.Alike pairs) (c.run x) (c.run x') := by
  cases h with
  | atom a =>
    unfold Conversion.run
    split <;> first | exact .ok (.atom _) | exact .error _
  | object h =>
    cases c <;> exact .error _

end Alike

/-! ## A slot and its value -/

/-- A slot of a larger memory, which the place of a graft names, and the addresses of the objects
of its value, with those that correspond to them where the value stands by itself. -/
structure Site (js : Engine) (g : Graft) where
  pairs : Nat → Nat → Prop
  left : ∀ {a b c}, pairs a b → pairs a c → b = c
  right : ∀ {a b c}, pairs a c → pairs b c → a = b
  address : Nat
  key : String
  /-- The slot belongs to none of these objects. -/
  apart : ∀ a, ¬pairs a address
  before : Memory
  names : ∀ μ : Memory, (∀ x : Variable, ¬x.Fresh g.first' → μ.vars x = before.vars x) →
    μ.spot js g.place = .ok (.at (.member address key))

namespace Site

variable {js : Engine} {g : Graft} (S : Site js g)

/-- The objects of the value in the larger memory. -/
def Owned (b : Nat) : Prop := ∃ a, S.pairs a b

/-- The slot. -/
def slot : Location := .member S.address S.key

/-- **The invariant of two parallel runs**, of a value by itself and of the value in the slot. -/
structure Mirrors (scope : List Temp) (α μ : Memory) : Prop where
  late : ∀ t ∈ scope, g.first ≤ t.number
  temps : ∀ t ∈ scope, (α.vars (.temp t)).Alike S.pairs (μ.vars (.temp (g.temp t)))
  root : ∃ h, μ.content S.slot = some h ∧ (α.vars (.root "data")).Alike S.pairs h
  objects : ∀ a b, S.pairs a b → (α.objects a).Alike S.pairs (μ.objects b)
  /-- Everything else in the larger memory is as it was. -/
  frame : Agrees S.Owned g.first' (S.before.put S.slot (μ.content S.slot)) μ

/-- What corresponds to the slot that a place names. -/
inductive SpotAlike (scope : List Temp) : Spot → Spot → Prop where
  | root : SpotAlike scope (.at (.var (.root "data"))) (.at S.slot)
  | temp {t : Temp} (ht : t ∈ scope) :
    SpotAlike scope (.at (.var (.temp t))) (.at (.var (.temp (g.temp t))))
  | member {a b : Nat} (h : S.pairs a b) (key : String) :
    SpotAlike scope (.at (.member a key)) (.at (.member b key))
  | shut : SpotAlike scope .shut .shut

namespace Mirrors

variable {S} {scope wider : List Temp} {α μ : Memory} {p p' : Place} {s s' : Spot} {h h' : Held}
  {t : Temp}

/-- A mirror of more is a mirror of less. -/
theorem mono (m : S.Mirrors wider α μ) (subset : scope ⊆ wider) : S.Mirrors scope α μ :=
  ⟨fun t ht => m.late t (subset ht), fun t ht => m.temps t (subset ht), m.root, m.objects, m.frame⟩

/-! ### Reading -/

/-- Mirrored memories read alike values at alike spots. -/
theorem readSpot (m : S.Mirrors scope α μ) (spots : S.SpotAlike scope s s') :
    (α.readSpot s).Alike S.pairs (μ.readSpot s') := by
  cases spots with
  | root =>
    obtain ⟨h, there, same⟩ := m.root
    rw [Memory.readSpot, Memory.readSpot, Memory.read, Memory.read, there]
    exact same
  | temp ht => exact m.temps _ ht
  | member paired key => exact (m.objects _ _ paired).members.lookup key
  | shut => exact .atom _

/-- Alike values have alike members. -/
theorem memberOf (same : h.Alike S.pairs h') (key : String) :
    Parallel (S.SpotAlike scope) (Memory.memberOf h key) (Memory.memberOf h' key) := by
  cases same with
  | atom a =>
    rw [Memory.memberOf]
    cases a.isAbsent with
    | true => exact .error _
    | false => exact .ok .shut
  | object paired => exact .ok (.member paired key)

/-- A place names what corresponds to it. -/
theorem spot (m : S.Mirrors scope α μ) (moves : g.Moves scope p p') :
    Parallel (S.SpotAlike scope) (α.spot js p) (μ.spot js p') := by
  induction moves with
  | root =>
    have named : μ.spot js g.place = .ok (.at S.slot) := by
      refine S.names μ fun x old => ?_
      rw [m.frame.vars x old, slot, Memory.vars_put_member]
    rw [named]
    exact .ok .root
  | temp ht => exact .ok (.temp ht)
  | field _ name ih => exact ih.bind fun _ _ spots => memberOf (m.readSpot spots) name
  | item _ i ih => exact ih.bind fun _ _ spots => memberOf (m.readSpot spots) (toString i)
  | slot _ ht ih =>
    have texts := Held.Alike.keyText js (m.temps _ ht)
    rw [Memory.spot, Memory.spot, ← texts]
    exact ih.bind fun _ _ spots => memberOf (m.readSpot spots) _

/-- Moved places evaluate to alike values in mirrored memories. -/
theorem value (m : S.Mirrors scope α μ) (moves : g.Moves scope p p') :
    Parallel (Held.Alike S.pairs) (α.value js p) (μ.value js p') :=
  (m.spot moves).bind fun _ _ spots => .ok (m.readSpot spots)

/-- Alike values have the same keys in mirrored memories. -/
theorem keys (m : S.Mirrors scope α μ) (same : h.Alike S.pairs h') : α.keys h = μ.keys h' := by
  cases same with
  | atom => rfl
  | object paired => exact (m.objects _ _ paired).members.keys

/-! ### Writing -/

/-- A temporary is written on both sides. -/
theorem putTemp (m : S.Mirrors scope α μ) (late : g.first ≤ t.number)
    (same : h.Alike S.pairs h') :
    S.Mirrors (t :: scope) (α.put (.var (.temp t)) (some h))
      (μ.put (.var (.temp (g.temp t))) (some h')) where
  late := List.forall_mem_cons.2 ⟨late, m.late⟩
  temps u hu := by
    by_cases here : u = t
    · subst here
      rw [Memory.vars_put_self, Memory.vars_put_self]
      exact same
    · have there : u ∈ scope := (List.mem_cons.1 hu).resolve_left here
      have apart : g.temp u ≠ g.temp t := fun eq => here (g.temp_injective (m.late u there) late eq)
      rw [Memory.vars_put_of_ne, Memory.vars_put_of_ne]
      · exact m.temps u there
      · exact fun eq => apart (by injection eq)
      · exact fun eq => here (by injection eq)
  root := m.root
  objects := m.objects
  frame := m.frame.trans (Agrees.putTemp (g.le_number _) μ _)

/-- The slot is written, and the variable of the result. -/
theorem putRoot (m : S.Mirrors scope α μ) (same : h.Alike S.pairs h') :
    S.Mirrors scope (α.put (.var (.root "data")) (some h)) (μ.put S.slot (some h')) where
  late := m.late
  temps t ht := by
    have other : Variable.temp t ≠ .root "data" := nofun
    rw [slot, Memory.vars_put_member, Memory.vars_put_of_ne _ _ other]
    exact m.temps t ht
  root := ⟨h', Memory.content_put _ _ _, by rw [Memory.vars_put_self]; exact same⟩
  objects a b paired := by
    have other : b ≠ S.address := by
      rintro rfl
      exact S.apart a paired
    rw [slot, Memory.objects_put_of_ne _ _ _ other, Memory.objects_put_variable]
    exact m.objects a b paired
  frame := by
    rw [Memory.content_put]
    have written := m.frame.put (l := S.slot) (fun ⟨a, paired⟩ => S.apart a paired) (some h')
    rwa [Memory.put_put] at written

/-- A member of an object of the value is written on both sides. -/
theorem putMember (m : S.Mirrors scope α μ) {a b : Nat} (paired : S.pairs a b) (key : String)
    (same : h.Alike S.pairs h') :
    S.Mirrors scope (α.put (.member a key) (some h)) (μ.put (.member b key) (some h')) := by
  have other : S.address ≠ b := by
    rintro rfl
    exact S.apart a paired
  have kept : (μ.put (.member b key) (some h')).content S.slot = μ.content S.slot := by
    simp only [slot, Memory.content, Memory.objects_put_of_ne _ _ _ other]
  refine ⟨m.late, fun t ht => ?_, ?_, fun c d paired' => ?_, ?_⟩
  · rw [Memory.vars_put_member, Memory.vars_put_member]
    exact m.temps t ht
  · rw [kept, Memory.vars_put_member]
    exact m.root
  · by_cases here : d = b
    · subst here
      obtain rfl := S.right paired paired'
      simp only [Memory.put, if_true]
      have old := m.objects _ _ paired
      exact ⟨old.isArray, old.members.put key same⟩
    · have there : c ≠ a := by
        rintro rfl
        exact here (S.left paired' paired)
      rw [Memory.objects_put_of_ne _ _ _ here, Memory.objects_put_of_ne _ _ _ there]
      exact m.objects c d paired'
  · rw [kept]
    refine m.frame.trans ⟨fun x _ => ?_, fun c free => ?_⟩
    · rw [Memory.vars_put_member]
    · refine Memory.objects_put_of_ne _ _ _ ?_
      rintro rfl
      exact free ⟨a, paired⟩

/-- What is written where corresponding places name it. -/
theorem store (m : S.Mirrors scope α μ) (spots : S.SpotAlike scope s s')
    (same : h.Alike S.pairs h') :
    Parallel (S.Mirrors scope) (α.store s h) (μ.store s' h') := by
  cases spots with
  | root => exact .ok (m.putRoot same)
  | temp ht => exact .ok ((m.putTemp (m.late _ ht) same).mono (List.subset_cons_self _ _))
  | member paired key => exact .ok (m.putMember paired key same)
  | shut => exact .error _

end Mirrors

/-! ## Runs -/

open Statement

variable {S} {scope : List Temp} {α μ : Memory} {body body' : List Statement}

/-- What is assigned is worked out without a change of the memories. -/
def OperandAlike (S : Site js g) (α μ : Memory) (x y : Held × Memory) : Prop :=
  x.1.Alike S.pairs y.1 ∧ x.2 = α ∧ y.2 = μ

/-- Assigning what evaluates alike to moved places keeps the mirror. -/
theorem Mirrors.assign (m : S.Mirrors scope α μ) {q q' : Place} {value value' : Operand}
    (hq : g.Moves scope q q')
    (operand : Parallel (S.OperandAlike α μ) (value.run js α) (value'.run js μ)) :
    Parallel (S.Mirrors scope) ((Statement.assign q value).run js α)
      ((Statement.assign q' value').run js μ) := by
  rw [Statement.run, Statement.run]
  refine (m.spot hq).bind fun _ _ spots => operand.bind ?_
  rintro ⟨h, _⟩ ⟨h', _⟩ ⟨same, rfl, rfl⟩
  exact m.store spots same

/-- **Statements that are carried over do the same on both sides.** -/
theorem mirrors_of_run (carries : g.Carries scope body body') (m : S.Mirrors scope α μ) :
    Parallel (S.Mirrors scope) (runAll js body α) (runAll js body' μ) := by
  induction carries generalizing α μ with
  | nil => exact .ok m
  | copy hp hq _ ih =>
    rw [runAll, runAll]
    refine (m.assign hq ?_).bind fun _ _ m => ih m
    exact (m.value hp).bind fun _ _ same => .ok ⟨same, rfl, rfl⟩
  | convert c hp hq _ ih =>
    rw [runAll, runAll]
    refine (m.assign hq ?_).bind fun _ _ m => ih m
    refine (m.value hp).bind fun _ _ same => (c.alike_run same).bind fun _ _ same => ?_
    exact .ok ⟨same, rfl, rfl⟩
  | declare late _ ih =>
    rw [runAll, runAll, Statement.run, Statement.run, ok_bind, ok_bind]
    refine (ih (m.putTemp late (.atom _))).mono fun _ _ m => m.mono (List.subset_cons_self _ _)
  | @forKeys _ t p p' body body' _ _ late hp _ _ ihInner ih =>
    rw [runAll, runAll]
    refine Parallel.bind (R := S.Mirrors _) ?_ fun _ _ m => ih m
    rw [Statement.run, Statement.run]
    refine (m.value hp).bind fun h h' same => ?_
    rw [m.keys same]
    refine Parallel.foldlM (fun key _ _ m => ?_) _ m
    have turn := ihInner (m.putTemp late (.atom (.string key)))
    exact turn.mono fun _ _ m => m.mono (List.subset_cons_self _ _)
  | unlessNull hp hq _ _ ihInner ih =>
    rw [runAll, runAll]
    refine Parallel.bind (R := S.Mirrors _) ?_ fun _ _ m => ih m
    rw [Statement.run, Statement.run]
    refine (m.value hp).bind fun h h' same => ?_
    by_cases null : h = .atom .null
    · rw [if_pos null, if_pos (same.eq_atom_iff.1 null)]
      exact (m.spot hq).bind fun _ _ spots => m.store spots (.atom _)
    · rw [if_neg null, if_neg (mt same.eq_atom_iff.2 null)]
      exact ihInner m

end Site

/-! ## Two layouts of one value -/

namespace Layout

/-- The addresses at which two layouts of one value have the same object. -/
inductive Pairs : Layout → Layout → Nat → Nat → Prop where
  | here {a b : Nat} {isArray isArray' : Bool} {members members' : List (String × Layout)} :
    Pairs (.node a isArray members) (.node b isArray' members') a b
  | inside {a b x y : Nat} {isArray isArray' : Bool} {members members' : List (String × Layout)}
    {m m' : String × Layout} (listed : (m, m') ∈ members.zip members')
    (inner : Pairs m.2 m'.2 x y) :
    Pairs (.node a isArray members) (.node b isArray' members') x y

section Pairs

variable {L L' : Layout} {a b c : Nat} {members members' : List (String × Layout)}
  {m m' k k' : String × Layout}

/-- Paired addresses are used in the layouts they belong to. -/
theorem Pairs.uses (h : L.Pairs L' a b) : L.Uses a ∧ L'.Uses b := by
  induction h with
  | here => exact ⟨.here, .here⟩
  | inside listed _ ih =>
    obtain ⟨left, right⟩ := List.of_mem_zip listed
    exact ⟨.inside left ih.1, .inside right ih.2⟩

/-- Pairing two layouts either way gives the same pairs. -/
theorem Pairs.swap (h : L.Pairs L' a b) : L'.Pairs L b a := by
  induction h with
  | here => exact .here
  | inside listed _ ih =>
    refine .inside ?_ ih
    rw [← List.zip_swap]
    exact List.mem_map.2 ⟨_, listed, rfl⟩

/-- Two members that use the same object are one. -/
theorem zip_unique (apart : members.Pairwise fun x y => ∀ a, x.2.Uses a → ¬y.2.Uses a)
    (first : (m, m') ∈ members.zip members') (second : (k, k') ∈ members.zip members')
    (used : m.2.Uses a) (used' : k.2.Uses a) : m = k ∧ m' = k' := by
  obtain ⟨i, hi, first⟩ := List.getElem_of_mem first
  obtain ⟨j, hj, second⟩ := List.getElem_of_mem second
  rw [List.length_zip] at hi hj
  rw [List.getElem_zip, Prod.mk.injEq] at first second
  rw [List.pairwise_iff_getElem] at apart
  rcases Nat.lt_trichotomy i j with lt | rfl | lt
  · refine absurd ?_ (apart i j (by omega) (by omega) lt a (first.1 ▸ used))
    rw [second.1]
    exact used'
  · exact ⟨first.1.symm.trans second.1, first.2.symm.trans second.2⟩
  · refine absurd ?_ (apart j i (by omega) (by omega) lt a (second.1 ▸ used'))
    rw [first.1]
    exact used

/-- In a layout that uses no object twice, every address corresponds to one other. -/
theorem Pairs.unique (separate : L.Separate) (h : L.Pairs L' a b) (h' : L.Pairs L' a c) :
    b = c := by
  induction h with
  | here =>
    cases h' with
    | here => rfl
    | inside listed inner =>
      cases separate with
      | node above _ _ => exact (above _ (List.of_mem_zip listed).1 inner.uses.1).elim
  | inside listed inner ih =>
    cases separate with
    | node above apart within =>
      have member := (List.of_mem_zip listed).1
      cases h' with
      | here => exact (above _ member inner.uses.1).elim
      | inside listed' inner' =>
        obtain ⟨rfl, rfl⟩ := zip_unique apart listed listed' inner.uses.1 inner'.uses.1
        exact ih (within _ member) inner'

end Pairs

/-- Two layouts of one value hold the same value, in their memories. -/
theorem alike_of_tree_eq {L L' : Layout} {α μ : Memory} {pairs : Nat → Nat → Prop}
    (same : L.tree = L'.tree) (fits : L.Fits α.objects) (fits' : L'.Fits μ.objects)
    (listed : ∀ a b, L.Pairs L' a b → pairs a b) :
    Held.Alike pairs L.held L'.held ∧
      ∀ a b, L.Pairs L' a b → (α.objects a).Alike pairs (μ.objects b) := by
  induction L generalizing L' with
  | atom x =>
    cases L' with
    | atom y =>
      rw [tree, tree, Tree.atom.injEq] at same
      subst same
      refine ⟨.atom x, ?_⟩
      rintro a b ⟨⟩
    | node => rw [tree, tree] at same; cases same
  | node address isArray members ih =>
    cases L' with
    | atom => rw [tree, tree] at same; cases same
    | node address' isArray' members' =>
      rw [tree, tree, Tree.node.injEq, memberTrees_eq, memberTrees_eq] at same
      obtain ⟨rfl, same⟩ := same
      cases fits with
      | node here inner =>
        cases fits' with
        | node here' inner' =>
          rw [← List.forall₂_eq_eq_eq, List.forall₂_map_left_iff, List.forall₂_map_right_iff,
            List.forall₂_iff_zip] at same
          have each : ∀ m m', (m, m') ∈ members.zip members' → m.2.held.Alike pairs m'.2.held ∧
              ∀ a b, m.2.Pairs m'.2 a b → (α.objects a).Alike pairs (μ.objects b) := by
            intro m m' both
            obtain ⟨left, right⟩ := List.of_mem_zip both
            exact ih m left (Prod.mk.inj (same.2 both)).2 (inner m left) (inner' m' right)
              fun a b h => listed a b (.inside both h)
          refine ⟨.object (listed _ _ .here), fun a b h => ?_⟩
          cases h with
          | here =>
            rw [here, here']
            refine ⟨rfl, ?_⟩
            rw [MembersAlike, heldMembers, heldMembers, List.forall₂_map_left_iff,
              List.forall₂_map_right_iff, List.forall₂_iff_zip]
            exact ⟨same.1, fun both => ⟨(Prod.mk.inj (same.2 both)).1, (each _ _ both).1⟩⟩
          | inside both h => exact (each _ _ both).2 a b h

end Layout

/-! ## What a value looks like -/

section Looks

variable {pairs : Nat → Nat → Prop} {α μ : Memory}

/-- A slot holds a value with everything below it. -/
def Held.Looks (μ : Memory) (h : Held) (t : Tree) : Prop :=
  ∃ L : Layout, h = L.held ∧ L.Fits μ.objects ∧ L.tree = t

/-- Members alike to those of a layout are those of a layout of the same trees. -/
theorem MembersAlike.exists_layouts {members : List (String × Layout)}
    {entries : List (String × Held)}
    (same : MembersAlike pairs (Layout.heldMembers members) entries)
    (each : ∀ m ∈ members, ∀ h, m.2.held.Alike pairs h → h.Looks μ m.2.tree) :
    ∃ members', entries = Layout.heldMembers members' ∧ (∀ m ∈ members', m.2.Fits μ.objects) ∧
      Layout.memberTrees members' = Layout.memberTrees members := by
  induction members generalizing entries with
  | nil =>
    cases same
    exact ⟨[], rfl, List.forall_mem_nil _, rfl⟩
  | cons m rest ih =>
    rw [List.forall_mem_cons] at each
    cases same with
    | @cons _ entry _ _ first others =>
      obtain ⟨name, h⟩ := entry
      obtain ⟨rfl, first⟩ := first
      obtain ⟨L, rfl, fits, tree⟩ := each.1 h first
      obtain ⟨rest', rfl, fits', trees⟩ := ih others each.2
      refine ⟨(m.1, L) :: rest', rfl, List.forall_mem_cons.2 ⟨fits, fits'⟩, ?_⟩
      rw [Layout.memberTrees, Layout.memberTrees, tree, trees]

/-- **The same value looks the same**, whatever the addresses. -/
theorem Held.Alike.looks {L : Layout} {h : Held}
    (objects : ∀ a b, pairs a b → (α.objects a).Alike pairs (μ.objects b))
    (fits : L.Fits α.objects) (same : L.held.Alike pairs h) : h.Looks μ L.tree := by
  induction fits generalizing h with
  | atom a =>
    cases same
    exact ⟨.atom a, rfl, .atom a, rfl⟩
  | @node address isArray members here _ ih =>
    cases same with
    | @object _ b paired =>
      obtain ⟨array, alike⟩ := objects _ _ paired
      rw [here] at array alike
      obtain ⟨members', held, fits, trees⟩ := alike.exists_layouts fun m hm _ => ih m hm
      refine ⟨.node b isArray members', rfl, .node ?_ fits, ?_⟩
      · rw [← held, show isArray = (μ.objects b).isArray from array]
      · rw [Layout.tree, Layout.tree, trees]

end Looks

end RpcBridge.Client
