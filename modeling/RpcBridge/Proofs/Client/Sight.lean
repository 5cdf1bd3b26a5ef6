import RpcBridge.Proofs.Client.Slot

/-!
# Proofs/Client/Sight — values that are converted in place

Code that converts in place reads a slot and writes it again.  A `View` is what it finds there: the
value of a slot, a slot that is missing, or no slot at all.  A `Sight` is a view together with the
slot and the addresses; `Sees` says that two places, one read and one written, both name it, and
`After` that it has been converted while everything else has been left alone.

* `Sees.after` — the places still name the slot after it has been converted;
* `Sees.inside`, `After.inside` — a member is seen where its object is, and converting a member
  converts the object.
-/

namespace RpcBridge.Client

/-! ## Views -/

/-- What is found at a place. -/
inductive View where
  /-- A slot and its value, if the slot is there. -/
  | slot (content : Option Tree)
  /-- A member of a value that has none. -/
  | shut
  /-- A member of an absent value. -/
  | nowhere

namespace View

/-- The view of a member of a value. -/
def ofMember (key : String) : Tree → View
  | .node _ members => .slot (members.lookup key)
  | .atom a => if a.isAbsent then .nowhere else .shut

/-- The view of a member. -/
def member (key : String) : View → View
  | .slot content => ofMember key (content.getD (.atom .undefined))
  | .shut | .nowhere => .nowhere

/-- The view after a member has been converted. -/
def replace (key : String) : View → View → View
  | .slot (some t), .slot (some (.node isArray members)) =>
    .slot (some (.node isArray (putEntry members key t)))
  | _, whole => whole

end View

/-! ## Sights -/

/-- A view with the slot and the addresses. -/
inductive Sight where
  | slot (l : Location) (content : Option Layout)
  | shut
  | nowhere

namespace Sight

/-- The view without slot and addresses. -/
def view : Sight → View
  | .slot _ content => .slot (content.map Layout.tree)
  | .shut => .shut
  | .nowhere => .nowhere

/-- The slot that a place names. -/
def spot : Sight → Except Fault Spot
  | .slot l _ => .ok (.at l)
  | .shut => .ok .shut
  | .nowhere => .error .absentMember

/-- What the slot holds. -/
def held : Sight → Option Held
  | .slot _ content => content.map Layout.held
  | _ => none

/-- The addresses of the objects that are seen. -/
def Uses : Sight → Nat → Prop
  | .slot _ (some L), a => L.Uses a
  | _, _ => False

/-- The memory with the slot written. -/
def put (μ : Memory) : Sight → Option Held → Memory
  | .slot l _, v => μ.put l v
  | _, _ => μ

/-- The sight of a member of a value. -/
def ofMember (key : String) : Layout → Sight
  | .node address _ members => .slot (.member address key) (members.lookup key)
  | .atom a => if a.isAbsent then .nowhere else .shut

/-- The sight of a member. -/
def member (key : String) : Sight → Sight
  | .slot _ content => ofMember key (content.getD (.atom .undefined))
  | .shut | .nowhere => .nowhere

/-- The sight after a member has been converted. -/
def replace (key : String) : Sight → Sight → Sight
  | .slot _ (some L), .slot l (some (.node address isArray members)) =>
    .slot l (some (.node address isArray (putEntry members key L)))
  | _, whole => whole

theorem view_member (key : String) (σ : Sight) : (σ.member key).view = σ.view.member key := by
  match σ with
  | .slot l none => rfl
  | .slot l (some (.atom a)) =>
    have view : ((Sight.slot l (some (.atom a))).member key).view =
        (if a.isAbsent then nowhere else shut).view := rfl
    have member : (Sight.slot l (some (.atom a))).view.member key =
        if a.isAbsent then .nowhere else .shut := by
      simp only [Sight.view, Option.map_some, Layout.tree, View.member, Option.getD_some,
        View.ofMember]
    rw [view, member]
    cases a.isAbsent <;> rfl
  | .slot l (some (.node address isArray members)) =>
    simp only [member, view, Option.map_some, Option.getD_some, ofMember, View.member,
      Layout.tree, View.ofMember, Layout.memberTrees_eq, lookup_map]
  | .shut | .nowhere => rfl

theorem view_replace (key : String) (part whole : Sight) :
    (part.replace key whole).view = part.view.replace key whole.view := by
  match part, whole with
  | .slot _ (some L), .slot l (some (.node address isArray members)) =>
    simp only [replace, view, Option.map_some, View.replace, Layout.tree, Layout.memberTrees_eq,
      map_putEntry]
  | .slot _ (some L), .slot l (some (.atom a)) =>
    simp only [replace, view, Option.map_some, Layout.tree, View.replace]
  | .slot _ (some L), .slot l none | .slot _ (some L), .shut | .slot _ (some L), .nowhere => rfl
  | .slot _ none, _ | .shut, _ | .nowhere, _ => rfl

end Sight

/-- What a memory keeps for a sight: the slot holds the value, the value is in memory, no part of
it uses an object twice, and the slot itself is none of its members. -/
def Keeps (n : Nat) (μ : Memory) : Sight → Prop
  | .slot l content =>
    μ.content l = content.map Layout.held ∧
      (∀ L ∈ content, L.Fits μ.objects ∧ L.Separate) ∧
      l.Outside (Sight.slot l content).Uses n
  | _ => True

/-- Two places, one to read and one to write, see the same. -/
structure Sees (js : Engine) (n : Nat) (μ : Memory) (source target : Place) (σ : Sight) : Prop where
  source : Steady js σ.Uses n (σ.put μ) source σ.spot
  target : Steady js σ.Uses n (σ.put μ) target σ.spot
  keeps : Keeps n μ σ

/-- What is seen has been converted; nothing else has been touched, and no new objects are used. -/
structure After (n : Nat) (μ : Memory) (σ : Sight) (μ' : Memory) (σ' : Sight) : Prop where
  spot : σ'.spot = σ.spot
  uses : ∀ a, σ'.Uses a → σ.Uses a
  /-- A slot that is there stays there. -/
  stays : σ'.held = none → σ.held = none
  agrees : Agrees σ.Uses n (σ.put μ σ'.held) μ'
  keeps : Keeps n μ' σ'

variable {js : Engine} {n n' : Nat} {μ μ₁ μ₂ : Memory} {source target : Place}
  {σ σ₁ σ₂ τ : Sight}

theorem Sight.put_none (μ : Memory) (σ : Sight) : σ.put μ none = μ := by
  cases σ with
  | slot l content => exact Memory.put_none μ l
  | shut => rfl
  | nowhere => rfl

/-- Writing what is seen changes nothing. -/
theorem Keeps.put_held (keeps : Keeps n μ σ) : σ.put μ σ.held = μ := by
  cases σ with
  | slot l content => exact Memory.put_self keeps.1
  | shut => rfl
  | nowhere => rfl

/-- What a memory keeps, it keeps as long as the objects that are seen are not written. -/
theorem Keeps.agrees {W : Nat → Prop} (keeps : Keeps n μ σ) (agrees : Agrees W n μ μ₁)
    (apart : ∀ a, σ.Uses a → ¬W a) (outside : ∀ l content, σ = .slot l content → l.Outside W n) :
    Keeps n μ₁ σ := by
  cases σ with
  | slot l content =>
    obtain ⟨there, inMemory, out⟩ := keeps
    refine ⟨(agrees.content (outside l content rfl)).trans there, fun L hL => ?_, out⟩
    refine ⟨(inMemory L hL).1.frame fun a used => agrees.objects a (apart a ?_), (inMemory L hL).2⟩
    cases hL
    exact used
  | shut => trivial
  | nowhere => trivial

/-! ## One conversion after the other -/

/-- Agreement after two conversions of one slot. -/
theorem After.agrees_put (after : After n μ σ μ₁ σ₁) (keeps : Keeps n μ σ) {v : Option Held}
    (stays : v = none → σ₁.held = none) {μ₂ : Memory}
    (agrees : Agrees σ₁.Uses n (σ₁.put μ₁ v) μ₂) : Agrees σ.Uses n (σ.put μ v) μ₂ := by
  have wide : Agrees σ.Uses n (σ₁.put μ₁ v) μ₂ := agrees.mono after.uses (Nat.le_refl n)
  refine Agrees.trans ?_ wide
  have first := after.agrees
  cases v with
  | none =>
    rw [stays rfl, Sight.put_none] at first
    rwa [Sight.put_none, Sight.put_none]
  | some h =>
    match σ, σ₁, after.spot with
    | .slot l content, .slot l' content₁, same =>
      obtain rfl : l' = l := by
        cases same
        rfl
      have written := first.put keeps.2.2 (some h)
      simpa only [Sight.put, Memory.put_put] using written
    | .shut, .shut, _ => exact first
    | .nowhere, .nowhere, _ => exact first

/-- **The places still name the slot after it has been converted.** -/
theorem Sees.after (sees : Sees js n μ source target σ) (after : After n μ σ μ₁ σ₁) :
    Sees js n μ₁ source target σ₁ := by
  have steady {p : Place} (h : Steady js σ.Uses n (σ.put μ) p σ.spot) :
      Steady js σ₁.Uses n (σ₁.put μ₁) p σ₁.spot := by
    intro v μ' agrees
    rw [after.spot]
    cases v with
    | none =>
      refine h σ₁.held μ' (after.agrees_put sees.keeps id ?_)
      rw [Sight.put_none] at agrees
      rwa [after.keeps.put_held]
    | some x => exact h (some x) μ' (after.agrees_put (v := some x) sees.keeps nofun agrees)
  exact ⟨steady sees.source, steady sees.target, after.keeps⟩

theorem After.trans (first : After n μ σ μ₁ σ₁) (second : After n μ₁ σ₁ μ₂ σ₂)
    (keeps : Keeps n μ σ) : After n μ σ μ₂ σ₂ where
  spot := second.spot.trans first.spot
  uses a used := first.uses a (second.uses a used)
  stays none := first.stays (second.stays none)
  agrees := first.agrees_put keeps second.stays second.agrees
  keeps := second.keeps

/-- Nothing is converted, but fresh temporaries may have been written. -/
theorem After.rest (sees : Sees js n μ source target σ) (agrees : Agrees (fun _ => False) n μ μ₁) :
    After n μ σ μ₁ σ where
  spot := rfl
  uses _ used := used
  stays none := none
  agrees := by
    rw [sees.keeps.put_held]
    exact agrees.mono (fun _ used => used.elim) (Nat.le_refl n)
  keeps := by
    refine sees.keeps.agrees agrees (fun _ _ used => used) fun l content hσ => ?_
    subst hσ
    have outside := sees.keeps.2.2
    cases l with
    | var x => exact outside
    | member a key => exact fun used => used

/-! ## Members -/

/-- A place names a member of what another place names, as long as the older temporaries stay. -/
def IsMember (js : Engine) (n : Nat) (μ : Memory) (key : String) (whole part : Place) : Prop :=
  ∀ μ' : Memory, (∀ x : Variable, ¬x.Fresh n → μ'.vars x = μ.vars x) →
    μ'.spot js part = (μ'.spot js whole >>= fun s => Memory.memberOf (μ'.readSpot s) key)

theorem isMember_field (name : String) (p : Place) : IsMember js n μ name p (.field p name) :=
  fun _ _ => rfl

theorem isMember_item (i : Nat) (p : Place) : IsMember js n μ (toString i) p (.item p i) :=
  fun _ _ => rfl

theorem isMember_slot {t : Temp} {key : String} (old : t.number < n)
    (holds : μ.vars (.temp t) = .atom (.string key)) (p : Place) :
    IsMember js n μ key p (.slot p t) := by
  intro μ' same
  have there : μ'.vars (.temp t) = .atom (.string key) := by
    rw [same (.temp t) (Nat.not_le.2 old), holds]
  simp only [Memory.spot, there, Held.keyText]

/-- The objects of a member are among those of the whole. -/
theorem Sight.uses_member {key : String} {a : Nat} (used : (σ.member key).Uses a) : σ.Uses a := by
  match σ with
  | .slot l (some (.node address isArray members)) =>
    cases h : members.lookup key with
    | none => simp only [member, Option.getD_some, ofMember, h, Uses] at used
    | some L =>
      simp only [member, Option.getD_some, ofMember, h, Uses] at used
      exact .inside (mem_of_lookup_eq_some h) used
  | .slot l (some (.atom a')) =>
    simp only [member, Option.getD_some, ofMember] at used
    cases absent : a'.isAbsent <;> simp only [absent] at used <;> exact used.elim
  | .slot l none | .shut | .nowhere => exact used.elim

theorem Sight.vars_put_member (μ : Memory) (key : String) (σ : Sight) (v : Option Held) :
    ((σ.member key).put μ v).vars = μ.vars := by
  match σ with
  | .slot l (some (.node address isArray members)) =>
    simp only [member, Option.getD_some, ofMember, put, Memory.vars_put_member]
  | .slot l (some (.atom a)) =>
    simp only [member, Option.getD_some, ofMember]
    cases a.isAbsent <;> rfl
  | .slot l none | .shut | .nowhere => rfl

/-- Where a member is written, its object is the only other thing that changes. -/
theorem Agrees.of_member {key : String} {v : Option Held}
    (agrees : Agrees (σ.member key).Uses n' ((σ.member key).put μ₁ v) μ₂) (le : n ≤ n')
    (temps : Agrees (fun _ => False) n μ μ₁) : Agrees σ.Uses n μ μ₂ := by
  have written : Agrees σ.Uses n' μ₁ ((σ.member key).put μ₁ v) := by
    match σ with
    | .slot l (some (.node address isArray members)) =>
      refine ⟨fun x _ => ?_, fun a ha => ?_⟩
      · rw [Sight.vars_put_member]
      · refine Memory.objects_put_of_ne μ₁ key v ?_
        rintro rfl
        exact ha .here
    | .slot l (some (.atom a)) =>
      simp only [Sight.member, Option.getD_some, Sight.ofMember]
      cases a.isAbsent <;> exact Agrees.refl _ _ _
    | .slot l none | .shut | .nowhere => exact Agrees.refl _ _ _
  have step : Agrees σ.Uses n' μ₁ μ₂ :=
    written.trans (agrees.mono (fun _ used => Sight.uses_member used) (Nat.le_refl n'))
  exact (temps.mono (fun _ used => used.elim) (Nat.le_refl n)).trans (step.mono (fun _ => id) le)

/-- **A member is seen where its object is.** -/
theorem Sees.inside {key : String} {source' target' : Place}
    (sees : Sees js n μ source target σ) (le : n ≤ n')
    (temps : Agrees (fun _ => False) n μ μ₁)
    (hsource : IsMember js n' μ₁ key source source')
    (htarget : IsMember js n' μ₁ key target target') :
    Sees js n' μ₁ source' target' (σ.member key) := by
  have keeps₁ : Keeps n μ₁ σ := (After.rest sees temps).keeps
  have steady {p p' : Place} (h : Steady js σ.Uses n (σ.put μ) p σ.spot)
      (member : IsMember js n' μ₁ key p p') :
      Steady js (σ.member key).Uses n' ((σ.member key).put μ₁) p' (σ.member key).spot := by
    intro v μ' agrees
    have whole : Agrees σ.Uses n μ μ' := agrees.of_member le temps
    have named : μ'.spot js p = σ.spot := h none μ' (by rwa [Sight.put_none])
    have older : ∀ x : Variable, ¬x.Fresh n' → μ'.vars x = μ₁.vars x := by
      intro x hx
      rw [agrees.vars x hx, Sight.vars_put_member]
    rw [member μ' older, named]
    cases σ with
    | slot l content =>
      have reads : μ'.readSpot (.at l) = (content.map Layout.held).getD (.atom .undefined) := by
        rw [Memory.readSpot, whole.read sees.keeps.2.2, Memory.read, sees.keeps.1]
      rw [Sight.spot, ok_bind, reads]
      rcases content with _ | ⟨a | ⟨address, isArray, members⟩⟩
      · rfl
      · simp only [Option.map_some, Option.getD_some, Layout.held, Memory.memberOf, Sight.member,
          Sight.ofMember]
        cases a.isAbsent <;> rfl
      · rfl
    | shut => rfl
    | nowhere => rfl
  refine ⟨steady sees.source hsource, steady sees.target htarget, ?_⟩
  cases σ with
  | slot l content =>
    rcases content with _ | ⟨a | ⟨address, isArray, members⟩⟩
    · trivial
    · simp only [Sight.member, Option.getD_some, Sight.ofMember]
      cases a.isAbsent <;> trivial
    · obtain ⟨there, inMemory, outside⟩ := keeps₁
      obtain ⟨fits, separate⟩ := inMemory _ rfl
      cases fits with
      | node here inner =>
        cases separate with
        | node above apart innerSeparate =>
          refine ⟨?_, fun L found => ?_, fun used => ?_⟩
          · simp only [Memory.content, here, Layout.heldMembers, lookup_map]
          · have member := mem_of_lookup_eq_some found
            exact ⟨inner _ member, innerSeparate _ member⟩
          · cases h : members.lookup key with
            | none =>
              rw [h] at used
              exact used
            | some L =>
              rw [h] at used
              exact above _ (mem_of_lookup_eq_some h) used
  | shut => trivial
  | nowhere => trivial

/-- What has no members has none that could be converted. -/
structure Sight.Memberless (key : String) (σ : Sight) : Prop where
  unused : ∀ a, ¬(σ.member key).Uses a
  nothing : ∀ τ : Sight, τ.spot = (σ.member key).spot → τ.held = none
  whole : ∀ τ : Sight, τ.replace key σ = σ

theorem Sight.node_or_memberless (key : String) (σ : Sight) :
    (∃ l address isArray members, σ = .slot l (some (.node address isArray members))) ∨
      σ.Memberless key := by
  have shut : ∀ τ : Sight, τ.spot = Sight.shut.spot → τ.held = none := by
    rintro (_ | _ | _) h <;> first | rfl | cases h
  have nowhere : ∀ τ : Sight, τ.spot = Sight.nowhere.spot → τ.held = none := by
    rintro (_ | _ | _) h <;> first | rfl | cases h
  have whole_nowhere : ∀ τ : Sight, τ.replace key .nowhere = .nowhere := by
    rintro (⟨_, _ | _⟩ | _ | _) <;> rfl
  match σ with
  | .slot l (some (.node address isArray members)) =>
    exact Or.inl ⟨l, address, isArray, members, rfl⟩
  | .slot l (some (.atom a)) =>
    have member : (Sight.slot l (some (.atom a))).member key =
        if a.isAbsent then .nowhere else .shut := rfl
    refine Or.inr ⟨?_, ?_, ?_⟩
    · rw [member]
      split <;> exact fun _ => id
    · rw [member]
      split
      · exact nowhere
      · exact shut
    · rintro (⟨_, _ | _⟩ | _ | _) <;> rfl
  | .slot l none =>
    exact Or.inr ⟨fun _ => id, nowhere, by rintro (⟨_, _ | _⟩ | _ | _) <;> rfl⟩
  | .shut =>
    exact Or.inr ⟨fun _ => id, nowhere, by rintro (⟨_, _ | _⟩ | _ | _) <;> rfl⟩
  | .nowhere => exact Or.inr ⟨fun _ => id, nowhere, whole_nowhere⟩

/-- A member that is no slot of its own, and still is none, has changed nothing. -/
theorem After.inside_of_held_eq_none {key : String} (sees : Sees js n μ source target σ)
    (le : n ≤ n') (temps : Agrees (fun _ => False) n μ μ₁)
    (after : After n' μ₁ (σ.member key) μ₂ τ) (none : τ.held = none)
    (unused : ∀ a, ¬(σ.member key).Uses a) : After n μ σ μ₂ σ := by
  have agrees := after.agrees
  rw [none, Sight.put_none] at agrees
  exact .rest sees (temps.trans (agrees.mono (fun a used => unused a used) le))

/-- **Converting a member converts the object.** -/
theorem After.inside {key : String} (sees : Sees js n μ source target σ) (le : n ≤ n')
    (temps : Agrees (fun _ => False) n μ μ₁) (after : After n' μ₁ (σ.member key) μ₂ τ) :
    After n μ σ μ₂ (τ.replace key σ) := by
  have whole : Agrees σ.Uses n μ μ₂ := after.agrees.of_member le temps
  rcases σ.node_or_memberless key with ⟨l, address, isArray, members, rfl⟩ | memberless
  · -- an object: its member is written, or was not there and still is not
    have uses_iff (a : Nat) :
        ((Sight.slot l (some (.node address isArray members))).member key).Uses a ↔
          ∃ L ∈ members.lookup key, L.Uses a := by
      simp only [Sight.member, Option.getD_some, Sight.ofMember]
      cases members.lookup key <;> simp [Sight.Uses]
    obtain ⟨there, inMemory, outside⟩ := sees.keeps
    obtain ⟨fits, separate⟩ := inMemory _ rfl
    match τ, after.spot with
    | .slot (.member _ _) none, rfl =>
      have lost : (members.lookup key).map Layout.held = none := after.stays rfl
      refine .inside_of_held_eq_none sees le temps after rfl fun a used => ?_
      obtain ⟨L, found, -⟩ := (uses_iff a).1 used
      rw [Option.map_eq_none_iff.1 lost] at found
      cases found
    | .slot (.member _ _) (some new), rfl =>
      obtain ⟨-, newInMemory, -⟩ := after.keeps
      obtain ⟨newFits, newSeparate⟩ := newInMemory _ rfl
      have within : new.Within (members.lookup key) := fun a used =>
        (uses_iff a).1 (after.uses a used)
      have unused : ¬∃ L ∈ members.lookup key, L.Uses address := by
        rintro ⟨L, found, used⟩
        cases separate with
        | node above _ _ => exact above _ (mem_of_lookup_eq_some found) used
      have here : μ₂.objects address = (μ.objects address).put key new.held := by
        rw [after.agrees.objects address fun used => unused ((uses_iff _).1 used),
          ← temps.objects address id]
        exact if_pos rfl
      have same : ∀ a, a ≠ address → (∀ L ∈ members.lookup key, ¬L.Uses a) →
          μ₂.objects a = μ.objects a := by
        intro a ne free
        rw [after.agrees.objects a fun used => ?_, ← temps.objects a id]
        · exact Memory.objects_put_of_ne μ₁ key (some new.held) ne
        · obtain ⟨L, found, oldUsed⟩ := (uses_iff a).1 used
          exact free L found oldUsed
      have uses : ∀ a, (Layout.node address isArray (putEntry members key new)).Uses a →
          (Layout.node address isArray members).Uses a := fun a used => within.uses used
      refine ⟨rfl, uses, nofun, ?_, ?_, fun L hL => ?_, ?_⟩
      · have unchanged : (Sight.slot l (some (.node address isArray members))).put μ
            (some (.object address)) = μ := Memory.put_self there
        show Agrees _ n ((Sight.slot l _).put μ (some (.object address))) μ₂
        rw [unchanged]
        exact whole
      · exact (whole.content outside).trans there
      · cases hL
        exact ⟨fits.putMember separate here newFits same, separate.putMember newSeparate within⟩
      · cases l with
        | var x => exact outside
        | member a key => exact fun used => outside (uses a used)
  · rw [memberless.whole τ]
    exact .inside_of_held_eq_none sees le temps after (memberless.nothing τ after.spot)
      memberless.unused

end RpcBridge.Client
