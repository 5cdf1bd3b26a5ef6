import RpcBridge.Proofs.Client.Layout

/-!
# Proofs/Client/Slot — one slot is written, the rest stays

Generated code names a slot by a place, writes below it and into it, and uses temporaries that
nothing else uses.  What it leaves alone is said by `Agrees`: the older variables and the objects
outside a set are as before.  A place is *steady* as long as it names the same slot whatever is
written there.

* `Agrees.content`, `Agrees.put` — agreement reaches the slots outside the set;
* `Steady` — a place whose slot does not depend on what is written.
-/

namespace RpcBridge.Client

/-- A temporary that is not older than the number `n`. -/
def Variable.Fresh (n : Nat) : Variable → Prop
  | .root _ => False
  | .temp t => n ≤ t.number

/-- A slot that is neither a fresh temporary nor a member of the objects of `W`. -/
def Location.Outside (W : Nat → Prop) (n : Nat) : Location → Prop
  | .var x => ¬x.Fresh n
  | .member a _ => ¬W a

namespace Memory

/-! ## Writing a slot -/

theorem put_none (μ : Memory) (l : Location) : μ.put l none = μ := by
  cases l <;> rfl

theorem content_put (μ : Memory) (l : Location) (h : Held) :
    (μ.put l (some h)).content l = some h := by
  cases l with
  | var x => simp only [put, content, if_true]
  | member a key => simp only [put, content, if_true, Object.put, lookup_putEntry]

/-- Writing what is there changes nothing. -/
theorem put_self {μ : Memory} {l : Location} {h : Option Held} (there : μ.content l = h) :
    μ.put l h = μ := by
  obtain ⟨vars, objects, next⟩ := μ
  match l, h with
  | _, none => exact put_none _ _
  | .var x, some h =>
    have same : (fun y => if y = x then h else vars y) = vars := by
      funext y
      split
      · next hy =>
        have held : vars x = h := Option.some.inj there
        rw [hy, held]
      · rfl
    simp only [put, same]
  | .member a key, some h =>
    have same : (fun b => if b = a then (objects a).put key h else objects b) = objects := by
      funext b
      split
      · next hb => rw [hb, Object.put, putEntry_self there]
      · rfl
    simp only [put, same]

/-- Of two writes to one slot the later one counts. -/
theorem put_put (μ : Memory) (l : Location) (first : Option Held) (second : Held) :
    (μ.put l first).put l (some second) = μ.put l (some second) := by
  match l, first with
  | _, none => rw [put_none]
  | .var x, some first =>
    have same : (fun y => if y = x then second else if y = x then first else μ.vars y) =
        fun y => if y = x then second else μ.vars y := by
      funext y
      split <;> rfl
    simp only [put, same]
  | .member a key, some first =>
    have same : (fun b => if b = a then ((μ.objects a).put key first).put key second
        else if b = a then (μ.objects a).put key first else μ.objects b) =
        fun b => if b = a then (μ.objects a).put key second else μ.objects b := by
      funext b
      split
      · rw [Object.put, Object.put, Object.put, putEntry_putEntry]
      · rfl
    simp only [put, if_true, same]

@[simp] theorem vars_put_member (μ : Memory) (a : Nat) (key : String) (h : Option Held) :
    (μ.put (.member a key) h).vars = μ.vars := by
  cases h <;> rfl

@[simp] theorem objects_put_variable (μ : Memory) (x : Variable) (h : Option Held) :
    (μ.put (.var x) h).objects = μ.objects := by
  cases h <;> rfl

theorem next_put (μ : Memory) (l : Location) (v : Option Held) : (μ.put l v).next = μ.next := by
  cases v <;> cases l <;> rfl

theorem vars_put_self (μ : Memory) (x : Variable) (h : Held) :
    (μ.put (.var x) (some h)).vars x = h := if_pos rfl

theorem vars_put_of_ne (μ : Memory) {x y : Variable} (h : Option Held) (ne : y ≠ x) :
    (μ.put (.var x) h).vars y = μ.vars y := by
  cases h with
  | none => rfl
  | some h => exact if_neg ne

theorem objects_put_of_ne (μ : Memory) {a b : Nat} (key : String) (h : Option Held) (ne : b ≠ a) :
    (μ.put (.member a key) h).objects b = μ.objects b := by
  cases h with
  | none => rfl
  | some h => exact if_neg ne

/-- Another slot reads as before. -/
theorem read_put_of_ne (μ : Memory) {l l' : Location} (h : Held) (ne : l' ≠ l) :
    (μ.put l (some h)).read l' = μ.read l' := by
  refine congrArg (Option.getD · _) ?_
  match l, l' with
  | .var x, .var y => exact congrArg some (vars_put_of_ne μ _ fun same => ne (congrArg _ same))
  | .var x, .member b key => rfl
  | .member a key, .var y => rfl
  | .member a key, .member b key' =>
    simp only [put, content]
    split
    · next same =>
      rw [Object.put, lookup_putEntry, if_neg, same]
      rintro rfl
      exact ne (same ▸ rfl)
    · rfl

end Memory

/-! ## Agreement -/

/-- The older variables and the objects outside `W` are as before. -/
structure Agrees (W : Nat → Prop) (n : Nat) (μ μ' : Memory) : Prop where
  vars : ∀ x : Variable, ¬x.Fresh n → μ'.vars x = μ.vars x
  objects : ∀ a, ¬W a → μ'.objects a = μ.objects a

namespace Agrees

variable {W W' : Nat → Prop} {n n' : Nat} {μ μ' μ'' : Memory} {l : Location}

theorem refl (W : Nat → Prop) (n : Nat) (μ : Memory) : Agrees W n μ μ :=
  ⟨fun _ _ => rfl, fun _ _ => rfl⟩

theorem trans (first : Agrees W n μ μ') (second : Agrees W n μ' μ'') : Agrees W n μ μ'' :=
  ⟨fun x hx => (second.vars x hx).trans (first.vars x hx),
    fun a ha => (second.objects a ha).trans (first.objects a ha)⟩

theorem mono (h : Agrees W n' μ μ') (subset : ∀ a, W a → W' a) (le : n ≤ n') :
    Agrees W' n μ μ' where
  vars x hx := h.vars x fun fresh => hx (by
    cases x with
    | root => exact fresh
    | temp t => exact Nat.le_trans le fresh)
  objects a ha := h.objects a fun used => ha (subset a used)

theorem content (h : Agrees W n μ μ') (outside : l.Outside W n) :
    μ'.content l = μ.content l := by
  cases l with
  | var x => exact congrArg some (h.vars x outside)
  | member a key => exact congrArg (fun o : Object => o.members.lookup key) (h.objects a outside)

theorem read (h : Agrees W n μ μ') (outside : l.Outside W n) : μ'.read l = μ.read l := by
  rw [Memory.read, Memory.read, h.content outside]

/-- A slot that is written in both memories. -/
theorem put (h : Agrees W n μ μ') (outside : l.Outside W n) (v : Option Held) :
    Agrees W n (μ.put l v) (μ'.put l v) := by
  cases v with
  | none => rwa [Memory.put_none, Memory.put_none]
  | some v =>
    cases l with
    | var x =>
      refine ⟨fun y hy => ?_, h.objects⟩
      simp only [Memory.put]
      split
      · rfl
      · exact h.vars y hy
    | member a key =>
      refine ⟨h.vars, fun b hb => ?_⟩
      simp only [Memory.put]
      split
      · rw [h.objects a outside]
      · exact h.objects b hb

/-- A fresh temporary may hold anything. -/
theorem putTemp {t : Temp} (fresh : n ≤ t.number) (μ : Memory) (v : Option Held) :
    Agrees W n μ (μ.put (.var (.temp t)) v) where
  vars x hx := by
    refine Memory.vars_put_of_ne μ v ?_
    rintro rfl
    exact hx fresh
  objects a _ := by rw [Memory.objects_put_variable]

end Agrees

/-! ## Steady places -/

/-- A place that names the same slot in every memory that agrees with one of `written`, whatever
has been written. -/
def Steady (js : Engine) (W : Nat → Prop) (n : Nat) (written : Option Held → Memory) (p : Place)
    (spot : Except Fault Spot) : Prop :=
  ∀ v μ, Agrees W n (written v) μ → μ.spot js p = spot

end RpcBridge.Client
