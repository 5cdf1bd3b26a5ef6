import RpcBridge.Proofs.Client.Changes
import RpcBridge.Proofs.Client.Sight

/-!
# Proofs/Client/Restore — what generated code makes of a result

`restore` says what becomes of a value that is converted in place, on the value alone: without
statements, memory or addresses.  `restore_follows` is the simulation: whatever the generated
statements find, they leave behind what `restore` says, or break off where it does.

A dictionary with converted keys, or with keys that are no plain keys, is not followed any further
(`.error none`).
-/

namespace RpcBridge.Client

/-! ## On values -/

/-- The decoder of a date or an instant. -/
def TemporalDecoder : TemporalKind → Conversion
  | .date => .dateFromText
  | .dateTime => .instantFromText

/-- The outcome of a conversion in place; what is not followed any further ends in `none`. -/
abbrev Restored := Except (Option Fault)

namespace View

/-- What a place is read as. -/
def read : View → Restored Tree
  | .slot content => .ok (content.getD (.atom .undefined))
  | .shut => .ok (.atom .undefined)
  | .nowhere => .error (some .absentMember)

/-- What is found after a value has been written. -/
def write (t : Tree) : View → Restored View
  | .slot _ => .ok (.slot (some t))
  | .shut => .error (some .sealedMember)
  | .nowhere => .error (some .absentMember)

/-- A copy of a slot to itself; nothing is done if the two places have the same text. -/
def copy (same : Bool) (w : View) : Restored View :=
  if same then .ok w else do w.write (← w.read)

/-- Converts a member. -/
def inside (f : View → Restored View) (w : View) (key : String) : Restored View := do
  return (← f (w.member key)).replace key w

/-- Converts members one after the other, each in its own way. -/
def walk : List (String × (View → Restored View)) → View → Restored View
  | [], w => .ok w
  | (key, f) :: rest, w => do walk rest (← w.inside f key)

/-- Converts every member, in order. -/
def each (f : View → Restored View) (w : View) : Restored View := do
  w.walk ((← w.read).keys.map fun key => (key, f))

end View

/-- The date object of a text. -/
def Tree.decoded (kind : TemporalKind) : Tree → Restored Tree
  | .atom (.string s) => .ok (.atom (.moment kind s))
  | _ => .error (some (.notConvertible (TemporalDecoder kind)))

mutual

/-- What becomes of a value of a shape; `same` tells whether the place that is read and the place
that is written have the same text. -/
def restore (same : Bool) : Shape → View → Restored View
  | .scalar _, w | .enum _, w => w.copy same
  | .temporal kind, w => do w.write (← (← w.read).decoded kind)
  | .list element, w =>
    if element.changes .back then w.each (restore same element) else w.copy same
  | .mapping key value, w =>
    if key.changes .back || value.changes .back then do
      let known := !key.changes .back && (key.isPlainKey || (← w.read).keys.isEmpty)
      if known then w.each (restore false value) else .error none
    else w.copy same
  | .tuple items, w => w.walk (restoreItems same 0 items)
  | .optional inner, w => do
    if (← w.read).isNull then w.write (.atom .undefined) else restore same inner w
  | .record _ fields, w => w.walk (restoreFields same fields)
  | .wrapper _ _ inner, w => restore same inner w
  | .opened _ _ [(_, inner)], w => restore same inner w
  | .opened _ _ _, _ | .bareTemplate _ _ _, _ | .blocked _ _, _ => .error none

/-- What becomes of the items of a tuple, counting from `start`. -/
def restoreItems (same : Bool) (start : Nat) :
    List Shape → List (String × (View → Restored View))
  | [] => []
  | s :: rest => (toString start, restore same s) :: restoreItems same (start + 1) rest

/-- What becomes of the fields of a record. -/
def restoreFields (same : Bool) :
    List (String × Shape) → List (String × (View → Restored View))
  | [] => []
  | (name, s) :: rest => (name, restore same s) :: restoreFields same rest

end

/-! ## On memories -/

/-- A run leaves behind what has been worked out, or breaks off in the same way. -/
def Follows (n : Nat) (μ : Memory) (σ : Sight) (run : Except Fault Memory) (r : Restored View) :
    Prop :=
  match r with
  | .ok w => ∃ μ' σ', run = .ok μ' ∧ After n μ σ μ' σ' ∧ σ'.view = w
  | .error (some fault) => run = .error fault
  | .error none => True

namespace Statement

theorem runAll_nil (js : Engine) (μ : Memory) : runAll js [] μ = .ok μ := by
  rw [runAll]

/-- The first statement runs, and the rest in the memory it leaves. -/
theorem runAll_cons (js : Engine) (s : Statement) (rest : List Statement) (μ : Memory) :
    runAll js (s :: rest) μ = (s.run js μ >>= runAll js rest) := by
  rw [runAll]

/-- A block runs its first part, and the second in the memory that leaves. -/
theorem runAll_append (js : Engine) (first second : List Statement) (μ : Memory) :
    runAll js (first ++ second) μ = (runAll js first μ >>= runAll js second) := by
  induction first generalizing μ with
  | nil => rw [List.nil_append, runAll_nil, ok_bind]
  | cons s rest ih =>
    rw [List.cons_append, runAll_cons, runAll_cons]
    cases s.run js μ with
    | error fault => rfl
    | ok μ' => rw [ok_bind, ih, ok_bind]

theorem runAll_singleton (js : Engine) (s : Statement) (μ : Memory) :
    runAll js [s] μ = s.run js μ := by
  rw [runAll_cons]
  cases s.run js μ with
  | error fault => rfl
  | ok μ' => rw [ok_bind, runAll_nil]

end Statement

section Simulation

variable {js : Engine} {n n' : Nat} {μ μ₁ : Memory} {source target : Place} {σ : Sight}

/-- Nothing is done. -/
theorem Follows.rest (sees : Sees js n μ source target σ) : Follows n μ σ (.ok μ) (.ok σ.view) :=
  ⟨μ, σ, rfl, .rest sees (.refl _ _ _), rfl⟩

/-- A run in two steps follows a restoration in two steps. -/
theorem Follows.bind {run : Except Fault Memory} {r : Restored View}
    {next : Memory → Except Fault Memory} {rest : View → Restored View}
    (first : Follows n μ σ run r) (keeps : Keeps n μ σ)
    (second : ∀ μ' σ', After n μ σ μ' σ' → Follows n μ' σ' (next μ') (rest σ'.view)) :
    Follows n μ σ (run >>= next) (r >>= rest) := by
  match r, first with
  | .ok w, ⟨μ₁, σ₁, ran, after, viewed⟩ =>
    subst viewed
    have followed := second μ₁ σ₁ after
    rw [ran, ok_bind, ok_bind]
    match hr : rest σ₁.view with
    | .ok w =>
      rw [hr] at followed
      obtain ⟨μ₂, σ₂, ran₂, after₂, viewed₂⟩ := followed
      exact ⟨μ₂, σ₂, ran₂, after.trans after₂ keeps, viewed₂⟩
    | .error (some fault) =>
      rw [hr] at followed
      exact followed
    | .error none => trivial
  | .error (some fault), ran =>
    show run >>= next = .error fault
    rw [show run = .error fault from ran, error_bind]
  | .error none, _ => trivial

/-- A member is converted, and with it the whole. -/
theorem Follows.inside {key : String} {run : Except Fault Memory} {f : View → Restored View}
    (sees : Sees js n μ source target σ) (le : n ≤ n') (temps : Agrees (fun _ => False) n μ μ₁)
    (part : Follows n' μ₁ (σ.member key) run (f (σ.member key).view)) :
    Follows n μ σ run (σ.view.inside f key) := by
  rw [Sight.view_member] at part
  unfold View.inside
  match hf : f (σ.view.member key) with
  | .ok w =>
    rw [hf] at part
    obtain ⟨μ₂, τ, ran, after, viewed⟩ := part
    refine ⟨μ₂, τ.replace key σ, ran, .inside sees le temps after, ?_⟩
    rw [Sight.view_replace, viewed]
  | .error (some fault) =>
    rw [hf] at part
    exact part
  | .error none => trivial

/-! ### Reading and writing -/

/-- The value that is seen. -/
def Sight.layout : Sight → Layout
  | .slot _ (some L) => L
  | _ => .atom .undefined

/-- What sees a sight finds its spot under the target. -/
theorem Sees.target_eq (sees : Sees js n μ source target σ) : μ.spot js target = σ.spot :=
  sees.target none μ (by rw [Sight.put_none]; exact Agrees.refl _ _ _)

/-- What is read is what is seen. -/
theorem Sees.value_eq (sees : Sees js n μ source target σ) :
    μ.value js source = (σ.spot >>= fun _ => .ok σ.layout.held) := by
  have named : μ.spot js source = σ.spot :=
    sees.source none μ (by rw [Sight.put_none]; exact Agrees.refl _ _ _)
  rw [Memory.value, named]
  match σ, sees.keeps with
  | .slot l none, keeps | .slot l (some L), keeps =>
    simp only [Sight.spot, ok_bind, pure_eq_ok, Memory.readSpot, Memory.read, keeps.1,
      Option.map_some, Option.map_none, Option.getD_some, Option.getD_none, Sight.layout]
    try rfl
  | .shut, _ | .nowhere, _ => rfl

/-- What is read at a sight is the tree of its layout, where there is a spot. -/
theorem Sight.read_view (σ : Sight) :
    σ.view.read = (σ.spot.mapError some >>= fun _ => .ok σ.layout.tree) := by
  match σ with
  | .slot l none | .slot l (some L) | .shut | .nowhere => rfl

/-- Of what is seen, the objects are in memory. -/
theorem Keeps.fits (keeps : Keeps n μ σ) : σ.layout.Fits μ.objects := by
  match σ, keeps with
  | .slot l (some L), keeps => exact (keeps.2.1 L rfl).1
  | .slot l none, _ | .shut, _ | .nowhere, _ => exact .atom _

/-- A layout holds an atom exactly when its tree is that atom. -/
theorem Layout.held_eq_atom {L : Layout} {a : Atom} : L.held = .atom a ↔ L.tree = .atom a := by
  cases L with
  | atom b =>
    rw [Layout.held, Layout.tree]
    constructor <;> (intro h; cases h; rfl)
  | node address isArray members =>
    rw [Layout.held, Layout.tree]
    constructor <;> rintro ⟨⟩

/-- The keys that are walked are those of what is seen. -/
theorem Layout.Fits.keys_eq {L : Layout} (fits : L.Fits μ.objects) :
    μ.keys L.held = L.tree.keys := by
  cases fits with
  | atom a => rw [Layout.held, Layout.tree, Tree.keys, Memory.keys]
  | node here inner =>
    rw [Layout.held, Layout.tree, Memory.keys, Tree.keys, here, Layout.keys_heldMembers,
      Layout.keys_memberTrees]

/-- A value without members is written. -/
theorem Follows.write (sees : Sees js n μ source target σ) (a : Atom) :
    Follows n μ σ (μ.spot js target >>= fun spot => μ.store spot (.atom a))
      (σ.view.write (.atom a)) := by
  rw [sees.target_eq]
  match σ, sees.keeps with
  | .slot l content, ⟨there, inMemory, outside⟩ =>
    refine ⟨μ.put l (some (.atom a)), .slot l (some (.atom a)), rfl, ?_, ?_⟩
    · refine ⟨rfl, fun _ used => ?_, nofun, Agrees.refl _ _ _, Memory.content_put .., ?_, ?_⟩
      · exact (Layout.not_uses_atom used).elim
      · rintro _ ⟨⟩
        exact ⟨.atom a, .atom a⟩
      · cases l with
        | var x => exact outside
        | member _ _ => exact Layout.not_uses_atom
    · rfl
  | .shut, _ | .nowhere, _ => rfl

/-- A copy of a slot to itself. -/
theorem Follows.copy (sees : Sees js n μ source target σ) :
    Follows n μ σ (Statement.runAll js (Code.copy source target).body μ)
      (σ.view.copy (source.toText = target.toText)) := by
  unfold Code.copy View.copy
  by_cases same : source.toText = target.toText
  · simp only [same, if_true, Code.empty, Statement.runAll_nil, decide_true]
    exact .rest sees
  · simp only [same, if_false, Statement.runAll_singleton, Statement.run, Operand.run,
      sees.value_eq, decide_false, Bool.false_eq_true]
    cases σ with
    | slot l content =>
      cases content with
      | some L =>
        rw [sees.target_eq]
        have unchanged : μ.put l (some L.held) = μ := Memory.put_self sees.keeps.1
        show Follows n μ _ (.ok (μ.put l (some L.held))) _
        rw [unchanged]
        exact .rest sees
      | none => exact .write sees .undefined
    | shut => exact .write sees .undefined
    | nowhere =>
      rw [sees.target_eq]
      rfl

theorem body_ofTemporal (kind : TemporalKind) (source target : Place) :
    (Code.ofTemporal kind .back source target).body =
      [.assign target (.converted (TemporalDecoder kind) source)] := by
  cases kind <;> rfl

/-- A text is decoded. -/
theorem Follows.decode (kind : TemporalKind) (sees : Sees js n μ source target σ) :
    Follows n μ σ
      (Statement.runAll js (Code.ofTemporal kind .back source target).body μ)
      (do σ.view.write (← (← σ.view.read).decoded kind)) := by
  have run (L : Layout) : (TemporalDecoder kind).run L.held =
      match L.tree with
      | .atom (.string s) => .ok (.atom (.moment kind s))
      | _ => .error (.notConvertible (TemporalDecoder kind)) := by
    cases L with
    | node => cases kind <;> simp only [Layout.held, Layout.tree] <;> rfl
    | atom a =>
      rw [Layout.held, Layout.tree]
      cases a <;> cases kind <;> rfl
  rw [body_ofTemporal]
  simp only [Statement.runAll_singleton, Statement.run, Operand.run, sees.value_eq]
  rw [Sight.read_view]
  have writes := Follows.write sees
  rw [sees.target_eq] at writes ⊢
  cases hspot : σ.spot with
  | error fault => rfl
  | ok spot =>
    simp only [hspot, ok_bind] at writes
    simp only [ok_bind, run, mapError_ok]
    cases htree : σ.layout.tree with
    | node => rfl
    | atom a =>
      cases a with
      | string s => exact writes (.moment kind s)
      | _ => rfl

/-! ### Walks -/

/-- A walk over keys is followed if every turn of it is. -/
theorem Follows.foldlM {body : Memory → String → Except Fault Memory}
    {f : View → Restored View}
    (turn : ∀ key μ σ, Sees js n μ source target σ →
      Follows n μ σ (body μ key) (σ.view.inside f key))
    (sees : Sees js n μ source target σ) (keys : List String) :
    Follows n μ σ (keys.foldlM body μ) (σ.view.walk (keys.map fun key => (key, f))) := by
  induction keys generalizing μ σ with
  | nil => exact .rest sees
  | cons key rest ih =>
    rw [List.foldlM_cons, List.map_cons, View.walk]
    exact .bind (turn key μ σ sees) sees.keeps fun μ' σ' after => ih (sees.after after)

/-- A loop over the keys of what is seen. -/
theorem Follows.forKeys {t : Temp} {body : List Statement} {f : View → Restored View}
    (turn : ∀ key μ σ, Sees js n μ source target σ →
      Follows n μ σ (Statement.runAll js body (μ.put (.var (.temp t)) (some (.atom (.string key)))))
        (σ.view.inside f key))
    (sees : Sees js n μ source target σ) :
    Follows n μ σ ((Statement.forKeys t source body).run js μ) (σ.view.each f) := by
  rw [Statement.run, sees.value_eq, View.each, Sight.read_view]
  cases hspot : σ.spot with
  | error fault => rfl
  | ok spot =>
    simp only [ok_bind, mapError_ok, sees.keeps.fits.keys_eq]
    exact Follows.foldlM (fun key μ σ sees => turn key μ σ sees) sees _

/-! ### The simulation -/

/-- The statements of the items follow restoration, one item after another. -/
theorem restoreItems_follows {items : List Shape} {start : Nat} {m : Nat} {code : Code}
    (each : ∀ s ∈ items, ∀ {source target n code m μ σ},
      Yields (convert .back s source target) n code m → Sees js n μ source target σ →
      Follows n μ σ (Statement.runAll js code.body μ)
        (restore (source.toText = target.toText) s σ.view))
    (h : Yields (convertItems .back items start source target) n' code m) (le : n ≤ n')
    (sees : Sees js n μ source target σ) :
    Follows n μ σ (Statement.runAll js code.body μ)
      (σ.view.walk (restoreItems (source.toText = target.toText) start items)) := by
  induction items generalizing start n' code μ σ with
  | nil =>
    rw [(convertItems_nil h).1, Code.empty, Statement.runAll_nil, restoreItems, View.walk]
    exact .rest sees
  | cons s rest ih =>
    rw [List.forall_mem_cons] at each
    obtain ⟨head, between, tail, first, others, rfl⟩ := convertItems_cons h
    rw [Code.append, Statement.runAll_append, restoreItems, View.walk]
    refine .bind (.inside sees le (.refl _ _ _) ?_) sees.keeps fun μ' σ' after => ?_
    · have inner := sees.inside le (.refl _ _ _) (isMember_item start source)
        (isMember_item start target)
      have part := each.1 first inner
      rwa [decide_eq_decide.2 (Place.toText_item_eq_iff start)] at part
    · exact ih each.2 others (Nat.le_trans le (convert_le first)) (sees.after after)

/-- The statements of the fields follow restoration, one field after another. -/
theorem restoreFields_follows {record : String} {fields : List (String × Shape)} {m : Nat}
    {code : Code}
    (each : ∀ f ∈ fields, ∀ {source target n code m μ σ},
      Yields (convert .back f.2 source target) n code m → Sees js n μ source target σ →
      Follows n μ σ (Statement.runAll js code.body μ)
        (restore (source.toText = target.toText) f.2 σ.view))
    (h : Yields (convertFields .back record fields source target) n' code m) (le : n ≤ n')
    (sees : Sees js n μ source target σ) :
    Follows n μ σ (Statement.runAll js code.body μ)
      (σ.view.walk (restoreFields (source.toText = target.toText) fields)) := by
  induction fields generalizing n' code μ σ with
  | nil =>
    rw [(convertFields_nil h).1, Code.empty, Statement.runAll_nil, restoreFields, View.walk]
    exact .rest sees
  | cons f rest ih =>
    obtain ⟨name, s⟩ := f
    rw [List.forall_mem_cons] at each
    obtain ⟨head, between, tail, -, first, others, rfl⟩ := convertFields_cons h
    rw [Code.append, Statement.runAll_append, restoreFields, View.walk]
    refine .bind (.inside sees le (.refl _ _ _) ?_) sees.keeps fun μ' σ' after => ?_
    · have inner := sees.inside le (.refl _ _ _) (isMember_field name source)
        (isMember_field name target)
      have part := each.1 first inner
      rwa [decide_eq_decide.2 (Place.toText_field_eq_iff name)] at part
    · exact ih each.2 others (Nat.le_trans le (convert_le first)) (sees.after after)

/-- Fresh temporaries are written first. -/
theorem Follows.prepared {run : Except Fault Memory} {r : Restored View}
    (sees : Sees js n μ source target σ) (temps : Agrees (fun _ => False) n μ μ₁)
    (rest : Sees js n μ₁ source target σ → Follows n μ₁ σ run r) : Follows n μ σ run r := by
  have idle : After n μ σ μ₁ σ := .rest sees temps
  have first : Follows n μ σ (.ok μ₁) (.ok σ.view) := ⟨μ₁, σ, rfl, idle, rfl⟩
  have known : Sees js n μ₁ source target σ := sees.after idle
  match r, rest known with
  | .ok w, ⟨μ₂, σ₂, ran, after, viewed⟩ => exact ⟨μ₂, σ₂, ran, idle.trans after sees.keeps, viewed⟩
  | .error (some fault), broken => exact broken
  | .error none, _ => trivial

/-- On the way back, a dictionary in which there is something to convert is walked key by key.  Each
key is prepared in a temporary; where keys stay as they are, its value is converted next. -/
theorem walks_of_mapping {key value : Shape} {m : Nat} {code : Code}
    (h : Yields (convert .back (.mapping key value) source target) n code m)
    (changing : (Shape.mapping key value).changes .back = true) :
    ∃ keys between body, Yields (convert .back key (.temp ⟨"k", n⟩) (.temp ⟨"k", n + 1⟩)) (n + 2)
        keys between ∧
      code.body = [.declare ⟨"k", n + 1⟩, .forKeys ⟨"k", n⟩ source body] ∧
      (key.changes .back = false → ∃ walked, body = keys.body ++ walked.body ∧
        Yields (convert .back value (.slot source ⟨"k", n⟩) (.slot target ⟨"k", n + 1⟩))
          between walked m) := by
  obtain ⟨keys, between, walked, generated, split⟩ := convert_mapping h
  rw [← transforms_eq h] at changing
  refine ⟨keys, between, ?_⟩
  rcases split with ⟨-, values, rfl⟩ | ⟨moved, -, rfl⟩
  · rw [transforms_ofMapping] at changing
    exact ⟨_, generated, by rw [Code.ofMapping, changing]; rfl, fun _ => ⟨walked, rfl, values⟩⟩
  · rw [transforms_ofMapping] at changing
    refine ⟨_, generated, by rw [Code.ofMapping, changing]; rfl, fun unchanged => ?_⟩
    rw [← transforms_eq generated] at unchanged
    simp [unchanged] at moved

/-- Where a turn over plain keys has prepared its key, both temporaries hold it. -/
theorem runAll_plainKey (js : Engine) {direction : Direction} {key : Shape}
    (plain : key.isPlainKey = true) {between : Nat} {keys : Code}
    (h : Yields (convert direction key (.temp ⟨"k", n⟩) (.temp ⟨"k", n + 1⟩)) (n + 2) keys between)
    (μ : Memory) (name : String) :
    ∃ μ', Statement.runAll js keys.body
        (μ.put (.var (.temp ⟨"k", n⟩)) (some (.atom (.string name)))) = .ok μ' ∧
      Agrees (fun _ => False) n μ μ' ∧ μ'.next = μ.next ∧
      μ'.vars (.temp ⟨"k", n⟩) = .atom (.string name) ∧
      μ'.vars (.temp ⟨"k", n + 1⟩) = .atom (.string name) := by
  let μ₁ := μ.put (.var (.temp ⟨"k", n⟩)) (some (.atom (.string name)))
  have walked : μ₁.vars (.temp ⟨"k", n⟩) = .atom (.string name) := if_pos rfl
  refine ⟨_, runAll_key plain (Nat.ne_of_lt (Nat.lt_succ_self n)) h walked, ?_, rfl, ?_, if_pos rfl⟩
  · exact .trans (.putTemp (Nat.le_refl n) μ _) (.putTemp (Nat.le_succ n) μ₁ _)
  · exact (Memory.vars_put_of_ne μ₁ _ (by simp)).trans walked

/-- The loop of a mapping follows restoration when its body follows that of a value. -/
theorem restoreMapping_follows {key value : Shape} {m : Nat} {code : Code}
    (each : ∀ {source target n code m μ σ},
      Yields (convert .back value source target) n code m → Sees js n μ source target σ →
      Follows n μ σ (Statement.runAll js code.body μ)
        (restore (source.toText = target.toText) value σ.view))
    (h : Yields (convert .back (.mapping key value) source target) n code m)
    (sees : Sees js n μ source target σ) :
    Follows n μ σ (Statement.runAll js code.body μ)
      (restore (source.toText = target.toText) (.mapping key value) σ.view) := by
  rw [restore]
  cases changing : key.changes .back || value.changes .back
  · rw [copied_of_mapping h ((transforms_eq h).trans changing)]
    exact .copy sees
  · -- the temporary for the key that is written is declared, and the keys are walked
    obtain ⟨keys, between, body, generated, walks, unmoved⟩ := walks_of_mapping h changing
    rw [walks, Statement.runAll_cons, Statement.run, ok_bind, Statement.runAll_singleton]
    have declared : Agrees (fun _ => False) n μ
        (μ.put (.var (.temp ⟨"k", n + 1⟩)) (some (.atom .undefined))) :=
      .putTemp (Nat.le_succ n) μ _
    refine .prepared sees declared fun sees => ?_
    generalize μ.put (.var (.temp ⟨"k", n + 1⟩)) (some (.atom .undefined)) = μ at sees ⊢
    rw [if_pos rfl, Sight.read_view]
    cases hspot : σ.spot with
    | error fault =>
      rw [Statement.run, sees.value_eq, hspot]
      rfl
    | ok spot =>
      simp only [ok_bind, mapError_ok]
      cases known : !key.changes .back && (key.isPlainKey || σ.layout.tree.keys.isEmpty)
      · trivial
      · rw [if_pos rfl]
        simp only [Bool.and_eq_true, Bool.not_eq_true', Bool.or_eq_true] at known
        obtain ⟨unchanged, known⟩ := known
        obtain ⟨walked, rfl, values⟩ := unmoved unchanged
        rcases known with plain | empty
        · refine .forKeys (fun name μ σ sees => ?_) sees
          have numbered : n + 2 ≤ between := convert_le generated
          have older : n ≤ between := Nat.le_trans (Nat.le_add_right n 2) numbered
          obtain ⟨μ₂, prepared, temps, -, walking, writing⟩ :=
            runAll_plainKey js plain generated μ name
          rw [Statement.runAll_append, prepared, ok_bind]
          refine .inside sees older temps ?_
          have inside := sees.inside older temps
            (isMember_slot (Nat.lt_of_succ_lt numbered) walking source)
            (isMember_slot numbered writing target)
          have part := each values inside
          rwa [decide_eq_false (Place.toText_slot_ne (Nat.ne_of_lt (Nat.lt_succ_self n)))] at part
        · have nothing : μ.keys σ.layout.held = [] := by
            rw [sees.keeps.fits.keys_eq]
            exact List.isEmpty_iff.1 empty
          rw [Statement.run, sees.value_eq, hspot, View.each, Sight.read_view, hspot]
          simp only [ok_bind, mapError_ok, nothing, List.isEmpty_iff.1 empty, List.foldlM_nil,
            List.map_nil, View.walk]
          exact .rest sees

/-- An array is converted item by item, under an index that is not used outside. -/
theorem restoreList_follows {element : Shape} {m : Nat} {code : Code}
    (each : ∀ {source target : Place} {n m : Nat} {code : Code} {μ : Memory} {σ : Sight},
      Yields (convert .back element source target) n code m → Sees js n μ source target σ →
      Follows n μ σ (Statement.runAll js code.body μ)
        (restore (source.toText = target.toText) element σ.view))
    (h : Yields (convert .back (.list element) source target) n code m)
    (sees : Sees js n μ source target σ) :
    Follows n μ σ (Statement.runAll js code.body μ)
      (restore (source.toText = target.toText) (.list element) σ.view) := by
  obtain ⟨inner, generated, rfl⟩ := convert_list h
  rw [Code.ofList, transforms_eq generated, restore]
  cases changes : element.changes .back
  · exact .copy sees
  · simp only [if_true, Code.fresh, List.nil_append, Statement.runAll_singleton]
    refine .forKeys (fun key μ σ sees => ?_) sees
    have temps : Agrees (fun _ => False) n μ
        (μ.put (.var (.temp ⟨"i", n⟩)) (some (.atom (.string key)))) :=
      .putTemp (Nat.le_refl n) μ _
    refine .inside sees (Nat.le_succ n) temps ?_
    have holds : (μ.put (.var (.temp ⟨"i", n⟩)) (some (.atom (.string key)))).vars
        (.temp ⟨"i", n⟩) = .atom (.string key) := if_pos rfl
    have inside := sees.inside (Nat.le_succ n) temps
      (isMember_slot (Nat.lt_succ_self n) holds source)
      (isMember_slot (Nat.lt_succ_self n) holds target)
    have part := each generated inside
    rwa [decide_eq_decide.2 (Place.toText_slot_eq_iff _)] at part

/-- A null is replaced by undefined, anything else is converted. -/
theorem restoreOptional_follows {inner : Shape} {m : Nat} {code : Code}
    (present : ∀ {m : Nat} {code : Code}, Yields (convert .back inner source target) n code m →
      Follows n μ σ (Statement.runAll js code.body μ)
        (restore (source.toText = target.toText) inner σ.view))
    (h : Yields (convert .back (.optional inner) source target) n code m)
    (sees : Sees js n μ source target σ) :
    Follows n μ σ (Statement.runAll js code.body μ)
      (restore (source.toText = target.toText) (.optional inner) σ.view) := by
  obtain ⟨there, generated, rfl⟩ := convert_optional h
  rw [Code.ofOptional, Statement.runAll_singleton, Statement.run, sees.value_eq, restore,
    Sight.read_view]
  cases hspot : σ.spot with
  | error fault => rfl
  | ok spot =>
    simp only [ok_bind, mapError_ok]
    by_cases null : σ.layout.held = .atom .null
    · have isNull : σ.layout.tree.isNull = true := by
        rw [Layout.held_eq_atom.1 null]
        rfl
      rw [if_pos null, if_pos isNull]
      exact .write sees .undefined
    · have isNull : σ.layout.tree.isNull ≠ true := by
        intro isNull
        refine null (Layout.held_eq_atom.2 ?_)
        unfold Tree.isNull at isNull
        split at isNull
        · assumption
        · cases isNull
      rw [if_neg null, if_neg isNull]
      exact present generated

/-- **What generated code makes of a result**: whatever a shape's statements find where they read
and write, they leave behind what `restore` says. -/
theorem restore_follows {s : Shape} {m : Nat} {code : Code}
    (h : Yields (convert .back s source target) n code m) (sees : Sees js n μ source target σ) :
    Follows n μ σ (Statement.runAll js code.body μ)
      (restore (source.toText = target.toText) s σ.view) := by
  induction s generalizing source target n code m μ σ with
  | scalar =>
    rw [(convert_scalar h).1, restore]
    exact .copy sees
  | enum =>
    rw [(convert_enum h).1, restore]
    exact .copy sees
  | temporal kind =>
    rw [(convert_temporal h).1, restore]
    exact .decode kind sees
  | list element ih => exact restoreList_follows ih h sees
  | mapping key value ihKey ihValue =>
    exact restoreMapping_follows ihValue h sees
  | tuple items ih =>
    obtain ⟨inner, generated, inPlace⟩ := convert_tuple h
    obtain rfl : code = inner := inPlace
    rw [restore]
    exact restoreItems_follows (fun s hs => ih s hs) generated (Nat.le_refl n) sees
  | optional inner ih =>
    exact restoreOptional_follows (fun generated => ih generated sees) h sees
  | record name fields ih =>
    obtain ⟨inner, generated, rfl⟩ := convert_record h
    rw [restore]
    exact restoreFields_follows (fun f hf => ih f hf) generated (Nat.le_refl n) sees
  | wrapper _ _ inner ih =>
    rw [restore]
    exact ih (convert_wrapper h) sees
  | opened _ _ fields ih =>
    obtain ⟨field, inner, rfl, generated⟩ := convert_opened h
    rw [restore]
    exact ih _ (List.mem_singleton.2 rfl) generated sees
  | bareTemplate => exact (convert_bareTemplate h).elim
  | blocked => exact (convert_blocked h).elim

end Simulation

end RpcBridge.Client
