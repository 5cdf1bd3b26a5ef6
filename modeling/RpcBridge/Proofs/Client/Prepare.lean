import RpcBridge.Proofs.Client.Denotes
import RpcBridge.Proofs.Client.Keys
import RpcBridge.Proofs.Client.Restore
import RpcBridge.Proofs.Client.Supported

/-!
# Proofs/Client/Prepare — what generated code makes of parameters

On the way out, generated code builds a new value next to the one it reads: a container is made
first and then filled slot by slot, a value that is undefined writes no slot, and what needs no
conversion is shared.  `prepare` says on the value alone what is written.

* `Ready` — where the code reads and where it writes;
* `Building` — a container that is being filled;
* `prepare_follows` — the simulation: the generated statements write what `prepare` says.
-/

namespace RpcBridge.Client

open Wire

/-! ## On values -/

/-- The members of a value. -/
def Tree.members : Tree → List (String × Tree)
  | .node _ members => members
  | .atom _ => []

/-- The members that are written for members, each under its own name. -/
def gather (f : Tree → Option Tree) (members : List (String × Tree)) : List (String × Tree) :=
  members.flatMap fun m => ((f m.2).map (Prod.mk m.1)).toList

mutual

/-- What is written for a value of a shape, if anything is. -/
def prepare : Shape → Tree → Option Tree
  | .scalar _, t | .enum _, t => some t
  | .temporal _, .atom (.moment _ text) => some (.atom (.string text))
  | .temporal _, _ => none
  | .list element, t =>
    some (if element.changes .out then .node true (gather (prepare element) t.members) else t)
  | .mapping key value, t =>
    some (if key.changes .out || value.changes .out then
      .node false (gather (prepare value) t.members) else t)
  | .tuple items, t =>
    some (if Shape.anyItem .out items then .node true (prepareItems 0 items t.members) else t)
  | .optional inner, t => if t.isUndefined then none else prepare inner t
  | .record _ fields, t => some (.node false (prepareFields fields t.members))
  | .wrapper _ _ inner, t => prepare inner t
  | .opened _ _ [(_, inner)], t => prepare inner t
  | .opened _ _ _, _ | .bareTemplate _ _ _, _ | .blocked _ _, _ => none

/-- What is written for the items of a tuple, counting from `start`. -/
def prepareItems (start : Nat) : List Shape → List (String × Tree) → List (String × Tree)
  | [], _ => []
  | s :: rest, members =>
    ((prepare s ((members.lookup (toString start)).getD (.atom .undefined))).map
      (Prod.mk (toString start))).toList ++ prepareItems (start + 1) rest members

/-- What is written for the fields of a record. -/
def prepareFields : List (String × Shape) → List (String × Tree) → List (String × Tree)
  | [], _ => []
  | (name, s) :: rest, members =>
    ((prepare s ((members.lookup name).getD (.atom .undefined))).map (Prod.mk name)).toList ++
      prepareFields rest members

end

section Equations

variable (t : Tree) (members : List (String × Tree))

/-- A scalar is sent as it stands. -/
theorem prepare_scalar (kind : ScalarKind) : prepare (.scalar kind) t = some t := rfl

/-- An enum member is sent as it stands. -/
theorem prepare_enum (e : EnumDef) : prepare (.enum e) t = some t := rfl

/-- A moment is sent as its text. -/
theorem prepare_moment (kind kind' : TemporalKind) (text : String) :
    prepare (.temporal kind) (.atom (.moment kind' text)) = some (.atom (.string text)) := rfl

/-- A list is copied, element by element, where its elements are changed. -/
theorem prepare_list (element : Shape) : prepare (.list element) t = some
    (if element.changes .out then .node true (gather (prepare element) t.members) else t) := rfl

/-- A mapping is copied, value by value, where its keys or values are changed. -/
theorem prepare_mapping (key value : Shape) : prepare (.mapping key value) t = some
    (if key.changes .out || value.changes .out then
      .node false (gather (prepare value) t.members) else t) := rfl

/-- A tuple is copied, item by item, where one of its items is changed. -/
theorem prepare_tuple (items : List Shape) : prepare (.tuple items) t = some
    (if Shape.anyItem .out items then .node true (prepareItems 0 items t.members) else t) := rfl

/-- An absent optional prepares nothing, a present one what it holds. -/
theorem prepare_optional (inner : Shape) :
    prepare (.optional inner) t = if t.isUndefined then none else prepare inner t := rfl

/-- A record is built afresh from what its fields prepare. -/
theorem prepare_record (name : String) (fields : List (String × Shape)) :
    prepare (.record name fields) t = some (.node false (prepareFields fields t.members)) := rfl

/-- A wrapper prepares what it wraps. -/
theorem prepare_wrapper (name field : String) (inner : Shape) :
    prepare (.wrapper name field inner) t = prepare inner t := rfl

/-- An opened application prepares what its origin wraps. -/
theorem prepare_opened (origin : Descriptor) (name field : String) (inner : Shape) :
    prepare (.opened origin name [(field, inner)]) t = prepare inner t := rfl

theorem prepareItems_nil (start : Nat) : prepareItems start [] members = [] := rfl

/-- The first item is prepared from its own place, the others from the places after it. -/
theorem prepareItems_cons (start : Nat) (s : Shape) (rest : List Shape) :
    prepareItems start (s :: rest) members =
      ((prepare s ((members.lookup (toString start)).getD (.atom .undefined))).map
        (Prod.mk (toString start))).toList ++ prepareItems (start + 1) rest members := rfl

theorem prepareFields_nil : prepareFields [] members = [] := rfl

/-- The first field is prepared from the member of its name, the others from theirs. -/
theorem prepareFields_cons (name : String) (s : Shape) (rest : List (String × Shape)) :
    prepareFields ((name, s) :: rest) members =
      ((prepare s ((members.lookup name).getD (.atom .undefined))).map (Prod.mk name)).toList ++
        prepareFields rest members := rfl

end Equations

/-! ## Reading here, writing there -/

/-- A place that is read as a value, and a place whose slot is to be written: the value is older
than what will be made, and its objects are not those of the slot. -/
structure Ready (js : Engine) (n : Nat) (μ : Memory) (source target : Place) (L : Layout)
    (l : Location) : Prop where
  /-- A copy is never taken for a copy to itself. -/
  apart : source.toText ≠ target.toText
  source : ∀ v μ', Agrees (fun a => μ.next ≤ a) n (μ.put l v) μ' → μ'.value js source = .ok L.held
  target : Steady js (fun a => μ.next ≤ a) n (μ.put l) target (.ok (.at l))
  fits : L.Fits μ.objects
  old : ∀ a, L.Uses a → a < μ.next
  outside : l.Outside (fun a => L.Uses a ∨ μ.next ≤ a) n

/-- The slot has been written, or left alone; what has been written consists of what was read and
of new objects. -/
structure Delivers (n : Nat) (μ : Memory) (L : Layout) (l : Location) (μ' : Memory)
    (content : Option Layout) : Prop where
  agrees : Agrees (fun a => μ.next ≤ a) n (μ.put l (content.map Layout.held)) μ'
  fits : ∀ C ∈ content, C.Fits μ'.objects
  grown : μ.next ≤ μ'.next
  uses : ∀ C ∈ content, ∀ a, C.Uses a → L.Uses a ∨ (μ.next ≤ a ∧ a < μ'.next)

/-- A run that delivers what has been worked out. -/
def Prepares (n : Nat) (μ : Memory) (L : Layout) (l : Location) (run : Except Fault Memory)
    (r : Option Tree) : Prop :=
  ∃ μ' content, run = .ok μ' ∧ Delivers n μ L l μ' content ∧ content.map Layout.tree = r

/-- A container that is being filled. -/
structure Building (n : Nat) (μ : Memory) (L : Layout) (l : Location) (isArray : Bool)
    (finished : List (String × Layout)) (μ' : Memory) : Prop where
  agrees : Agrees (fun a => μ.next ≤ a) n (μ.put l (some (.object μ.next))) μ'
  here : μ'.objects μ.next = ⟨isArray, Layout.heldMembers finished⟩
  fits : ∀ m ∈ finished, m.2.Fits μ'.objects
  next : μ.next < μ'.next
  uses : ∀ m ∈ finished, ∀ a, m.2.Uses a → L.Uses a ∨ (μ.next < a ∧ a < μ'.next)

variable {js : Engine} {n n' : Nat} {μ μ₁ μ₂ : Memory} {source target : Place} {L part : Layout}
  {l : Location} {content : Option Layout}

/-- A location outside more addresses is outside fewer of them. -/
theorem Location.Outside.mono {W W' : Nat → Prop} (h : l.Outside W n) (subset : ∀ a, W' a → W a) :
    l.Outside W' n := by
  cases l with
  | var x => exact h
  | member a key => exact fun used => h (subset a used)

namespace Ready

/-- The slot is none that is made later. -/
theorem outside_new (ready : Ready js n μ source target L l) :
    l.Outside (fun a => μ.next ≤ a) n :=
  ready.outside.mono fun _ => Or.inr

/-- Once ready, the source evaluates to what it holds. -/
theorem value_eq (ready : Ready js n μ source target L l) : μ.value js source = .ok L.held :=
  ready.source none μ (by rw [Memory.put_none]; exact .refl _ _ _)

/-- Once ready, the target names its location. -/
theorem target_eq (ready : Ready js n μ source target L l) : μ.spot js target = .ok (.at l) :=
  ready.target none μ (by rw [Memory.put_none]; exact .refl _ _ _)

/-- The objects that are read are not changed by writing the slot. -/
theorem objects_eq (ready : Ready js n μ source target L l) {v : Option Held} {μ' : Memory}
    (agrees : Agrees (fun a => μ.next ≤ a) n (μ.put l v) μ') {a : Nat} (used : L.Uses a) :
    μ'.objects a = μ.objects a := by
  rw [agrees.objects a (Nat.not_le_of_lt (ready.old a used))]
  cases l with
  | var x => rw [Memory.objects_put_variable]
  | member b key =>
    refine Memory.objects_put_of_ne μ key v ?_
    rintro rfl
    exact ready.outside (Or.inl used)

/-- Fresh temporaries change nothing. -/
theorem temps (ready : Ready js n μ source target L l)
    (agrees : Agrees (fun _ => False) n μ μ₁) (next : μ₁.next = μ.next) :
    Ready js n μ₁ source target L l := by
  have wide : Agrees (fun a => μ.next ≤ a) n μ μ₁ :=
    agrees.mono (fun _ used => used.elim) (Nat.le_refl n)
  have fits : L.Fits μ₁.objects := ready.fits.frame fun a _ => agrees.objects a id
  refine ⟨ready.apart, fun v μ' h => ?_, fun v μ' h => ?_, fits, ?_, ?_⟩
  · rw [next] at h
    exact ready.source v μ' ((wide.put ready.outside_new v).trans h)
  · rw [next] at h
    exact ready.target v μ' ((wide.put ready.outside_new v).trans h)
  · rw [next]
    exact ready.old
  · rw [next]
    exact ready.outside

/-- The value as it is. -/
theorem share (ready : Ready js n μ source target L l) :
    Prepares n μ L l (Statement.runAll js (Code.copy source target).body μ) (some L.tree) := by
  have run : Statement.runAll js (Code.copy source target).body μ =
      .ok (μ.put l (some L.held)) := by
    rw [Code.copy, if_neg ready.apart]
    simp only [Statement.runAll, Statement.run, Operand.run, ready.target_eq, ready.value_eq,
      Memory.store, ok_bind, pure_eq_ok]
  have agrees : Agrees (fun a => μ.next ≤ a) n (μ.put l (some L.held)) (μ.put l (some L.held)) :=
    .refl _ _ _
  refine ⟨_, some L, run, ⟨agrees, ?_, ?_, ?_⟩, rfl⟩
  · rintro _ ⟨⟩
    exact ready.fits.frame fun a used => ready.objects_eq agrees used
  · exact Nat.le_of_eq (Memory.next_put μ l _).symm
  · rintro _ ⟨⟩ a used
    exact Or.inl used

/-- A text takes the place of a date. -/
theorem encode (ready : Ready js n μ source target L l) {kind : TemporalKind} {text : String}
    (moment : L.tree = .atom (.moment kind text)) :
    Prepares n μ L l
      (Statement.runAll js (Code.ofTemporal kind .out source target).body μ)
      (some (.atom (.string text))) := by
  have held : L.held = .atom (.moment kind text) := by
    cases L with
    | atom a =>
      rw [Layout.tree] at moment
      injection moment with same
      rw [Layout.held, same]
    | node =>
      rw [Layout.tree] at moment
      cases moment
  have run : Statement.runAll js (Code.ofTemporal kind .out source target).body μ =
      .ok (μ.put l (some (.atom (.string text)))) := by
    cases kind <;>
      simp only [Code.ofTemporal, Statement.runAll, Statement.run, Operand.run, ready.target_eq,
        ready.value_eq, held, Conversion.run, Memory.store, ok_bind, pure_eq_ok]
  refine ⟨_, some (.atom (.string text)), run, ⟨.refl _ _ _, ?_, ?_, ?_⟩, rfl⟩
  · rintro _ ⟨⟩
    exact .atom _
  · exact Nat.le_of_eq (Memory.next_put μ l _).symm
  · rintro _ ⟨⟩ a used
    exact (Layout.not_uses_atom used).elim

end Ready

/-! ## Filling a container -/

namespace Building

variable {isArray isArray' : Bool} {address : Nat} {finished : List (String × Layout)}
  {members : List (String × Layout)} {key : String} {source' target' : Place}

/-- An empty container has been made and entered into the slot. -/
theorem start (ready : Ready js n μ source target L l) (isArray : Bool) :
    Building n μ L l isArray [] ((μ.alloc isArray).put l (some (.object μ.next))) := by
  have allocated : Agrees (fun a => μ.next ≤ a) n μ (μ.alloc isArray) := by
    refine ⟨fun _ _ => rfl, fun a ha => if_neg ?_⟩
    rintro rfl
    exact ha (Nat.le_refl _)
  refine ⟨allocated.put ready.outside_new _, ?_, ?_, ?_, ?_⟩
  · have empty : (μ.alloc isArray).objects μ.next = ⟨isArray, []⟩ := if_pos rfl
    cases l with
    | var x => rwa [Memory.objects_put_variable]
    | member a key =>
      rw [Memory.objects_put_of_ne _ key _ ?_]
      · exact empty
      · rintro rfl
        exact ready.outside_new (Nat.le_refl _)
  · exact List.forall_mem_nil _
  · rw [Memory.next_put]
    exact Nat.lt_succ_self _
  · exact List.forall_mem_nil _

/-- Writing a member of the container keeps to the slot and to new objects. -/
theorem agrees_member (building : Building n μ L l isArray finished μ₁) (le : n ≤ n')
    (temps : Agrees (fun _ => False) n μ₁ μ₂) (next : μ₂.next = μ₁.next) {v : Option Held}
    {μ' : Memory}
    (agrees : Agrees (fun a => μ₂.next ≤ a) n' (μ₂.put (.member μ.next key) v) μ') :
    Agrees (fun a => μ.next ≤ a) n (μ.put l (some (.object μ.next))) μ' := by
  have written : Agrees (fun a => μ.next ≤ a) n μ₂ (μ₂.put (.member μ.next key) v) := by
    refine ⟨fun x _ => by rw [Memory.vars_put_member], fun a ha => ?_⟩
    refine Memory.objects_put_of_ne μ₂ key v ?_
    rintro rfl
    exact ha (Nat.le_refl _)
  have older : μ.next ≤ μ₂.next := next ▸ Nat.le_of_lt building.next
  exact ((building.agrees.trans (temps.mono (fun _ used => used.elim) (Nat.le_refl n))).trans
    written).trans (agrees.mono (fun a ha => Nat.le_trans older ha) le)

/-- A member of what is read, and the slot of that name in the container. -/
theorem ready (building : Building n μ (.node address isArray' members) l isArray finished μ₁)
    (whole : Ready js n μ source target (.node address isArray' members) l) (le : n ≤ n')
    (temps : Agrees (fun _ => False) n μ₁ μ₂) (next : μ₂.next = μ₁.next)
    (hsource : IsMember js n' μ₂ key source source')
    (htarget : IsMember js n' μ₂ key target target') (apart : source'.toText ≠ target'.toText) :
    Ready js n' μ₂ source' target' ((members.lookup key).getD (.atom .undefined))
      (.member μ.next key) := by
  have uses {a : Nat} (used : ((members.lookup key).getD (.atom .undefined)).Uses a) :
      (Layout.node address isArray' members).Uses a := by
    cases there : members.lookup key with
    | none =>
      rw [there] at used
      exact (Layout.not_uses_atom used).elim
    | some part =>
      rw [there] at used
      exact .inside (mem_of_lookup_eq_some there) used
  have older {v : Option Held} {μ' : Memory}
      (agrees : Agrees (fun a => μ₂.next ≤ a) n' (μ₂.put (.member μ.next key) v) μ') :
      ∀ x : Variable, ¬x.Fresh n' → μ'.vars x = μ₂.vars x := by
    intro x hx
    rw [agrees.vars x hx, Memory.vars_put_member]
  have older_next : μ.next < μ₂.next := next ▸ building.next
  have fits := whole.fits
  cases fits with
  | node here inner =>
    refine ⟨apart, fun v μ' agrees => ?_, fun v μ' agrees => ?_, ?_, ?_, ?_⟩
    · have outer := building.agrees_member le temps next agrees
      have reads := whole.source _ _ outer
      rw [Memory.value] at reads
      obtain ⟨spot, named, held⟩ := bind_eq_ok.1 reads
      have held : μ'.readSpot spot = .object address := Except.ok.inj held
      have content : (μ'.objects address).members.lookup key =
          (members.lookup key).map Layout.held := by
        rw [whole.objects_eq outer .here, here, Layout.heldMembers, lookup_map]
      rw [Memory.value, hsource μ' (older agrees), named, ok_bind, held, Memory.memberOf, ok_bind,
        Memory.readSpot, Memory.read, Memory.content, content]
      cases members.lookup key <;> rfl
    · have outer := building.agrees_member le temps next agrees
      rw [htarget μ' (older agrees), whole.target _ _ outer, ok_bind, Memory.readSpot,
        Memory.read, outer.content whole.outside_new, Memory.content_put]
      rfl
    · have kept : ∀ a, (Layout.node address isArray' members).Uses a →
          μ₂.objects a = μ.objects a := fun a used => by
        rw [temps.objects a id, whole.objects_eq building.agrees used]
      cases there : members.lookup key with
      | none => exact .atom _
      | some part =>
        have member := mem_of_lookup_eq_some there
        exact (inner _ member).frame fun a used => kept a (.inside member used)
    · exact fun a used => Nat.lt_trans (whole.old a (uses used)) older_next
    · rintro (used | new)
      · exact Nat.lt_irrefl _ (whole.old _ (uses used))
      · exact Nat.not_le_of_lt older_next new

/-- A member of the container has been written, or left out. -/
theorem enter (building : Building n μ L l isArray finished μ₁)
    (whole : Ready js n μ source target L l) (le : n ≤ n')
    (temps : Agrees (fun _ => False) n μ₁ μ₂) (next : μ₂.next = μ₁.next)
    (inside : ∀ a, part.Uses a → L.Uses a) (new : key ∉ finished.map (·.1)) {μ₃ : Memory}
    (delivers : Delivers n' μ₂ part (.member μ.next key) μ₃ content) :
    Building n μ L l isArray (finished ++ (content.map (Prod.mk key)).toList) μ₃ := by
  have older : μ.next < μ₂.next := next ▸ building.next
  have grown : μ₁.next ≤ μ₃.next := next ▸ delivers.grown
  have uses_new {C : Layout} (hC : C ∈ content) {a : Nat} (used : C.Uses a) :
      L.Uses a ∨ (μ.next < a ∧ a < μ₃.next) :=
    (delivers.uses C hC a used).imp (inside a) fun h => ⟨Nat.lt_of_lt_of_le older h.1, h.2⟩
  refine ⟨building.agrees_member le temps next delivers.agrees, ?_, fun m hm => ?_,
    Nat.lt_of_lt_of_le building.next grown, fun m hm a used => ?_⟩
  · rw [delivers.agrees.objects _ (Nat.not_le_of_lt older)]
    have here : μ₂.objects μ.next = ⟨isArray, Layout.heldMembers finished⟩ := by
      rw [temps.objects _ id, building.here]
    cases content with
    | none => rw [Option.map_none, Memory.put_none, Option.map_none, Option.toList_none,
        List.append_nil, here]
    | some C =>
      have missing : (Layout.heldMembers finished).lookup key = none := by
        rw [Layout.heldMembers, lookup_map, lookup_eq_none new, Option.map_none]
      have put : (μ₂.put (.member μ.next key) (some C.held)).objects μ.next =
          (μ₂.objects μ.next).put key C.held := if_pos rfl
      rw [Option.map_some, put, here, Object.put, putEntry_of_lookup_eq_none _ missing,
        Layout.heldMembers, Layout.heldMembers, List.map_append]
      rfl
  · rcases List.mem_append.1 hm with hm | hm
    · refine (building.fits m hm).frame fun a used => ?_
      have elsewhere : a ≠ μ.next ∧ ¬μ₂.next ≤ a := by
        rcases building.uses m hm a used with old | ⟨above, below⟩
        · have := whole.old a old
          exact ⟨Nat.ne_of_lt this, Nat.not_le_of_lt (Nat.lt_trans this older)⟩
        · exact ⟨Nat.ne_of_gt above, Nat.not_le_of_lt (next ▸ below)⟩
      rw [delivers.agrees.objects a elsewhere.2, Memory.objects_put_of_ne _ _ _ elsewhere.1,
        temps.objects a id]
    · obtain ⟨C, hC, rfl⟩ := Option.map_eq_some_iff.1 (Option.mem_toList.1 hm)
      exact delivers.fits C hC
  · rcases List.mem_append.1 hm with hm | hm
    · exact (building.uses m hm a used).imp id fun h => ⟨h.1, Nat.lt_of_lt_of_le h.2 grown⟩
    · obtain ⟨C, hC, rfl⟩ := Option.map_eq_some_iff.1 (Option.mem_toList.1 hm)
      exact uses_new hC used

/-- The container is what is delivered. -/
theorem delivers (building : Building n μ L l isArray finished μ₁) :
    Delivers n μ L l μ₁ (some (.node μ.next isArray finished)) where
  agrees := building.agrees
  fits := by
    rintro _ ⟨⟩
    exact .node building.here building.fits
  grown := Nat.le_of_lt building.next
  uses := by
    rintro _ ⟨⟩ a used
    cases used with
    | here => exact Or.inr ⟨Nat.le_refl _, building.next⟩
    | inside member inner =>
      exact (building.uses _ member a inner).imp id fun h => ⟨Nat.le_of_lt h.1, h.2⟩

end Building

/-- A run that goes on filling a container: `added` comes behind what is there. -/
def Fills (n : Nat) (μ : Memory) (L : Layout) (l : Location) (isArray : Bool)
    (finished : List (String × Layout)) (added : List (String × Tree))
    (run : Except Fault Memory) : Prop :=
  ∃ μ' finished', run = .ok μ' ∧ Building n μ L l isArray finished' μ' ∧
    Layout.memberTrees finished' = Layout.memberTrees finished ++ added

namespace Fills

variable {isArray isArray' : Bool} {address : Nat} {finished members : List (String × Layout)}
  {added more : List (String × Tree)} {key : String} {source' target' : Place}
  {run : Except Fault Memory}

/-- Running nothing fills in nothing. -/
theorem nil (building : Building n μ L l isArray finished μ₁) :
    Fills n μ L l isArray finished [] (.ok μ₁) :=
  ⟨μ₁, finished, rfl, building, (List.append_nil _).symm⟩

/-- Two runs in a row fill in what both of them add. -/
theorem bind {next : Memory → Except Fault Memory}
    (first : Fills n μ L l isArray finished added run)
    (second : ∀ μ' finished', Building n μ L l isArray finished' μ' →
      finished'.map (·.1) = finished.map (·.1) ++ added.map (·.1) →
      Fills n μ L l isArray finished' more (next μ')) :
    Fills n μ L l isArray finished (added ++ more) (run >>= next) := by
  obtain ⟨μ', finished', rfl, building, grown⟩ := first
  have keys : finished'.map (·.1) = finished.map (·.1) ++ added.map (·.1) := by
    rw [← Layout.keys_memberTrees, grown, List.map_append, Layout.keys_memberTrees]
  obtain ⟨μ'', finished'', ran, building', grown'⟩ := second μ' finished' building keys
  exact ⟨μ'', finished'', ran, building', by rw [grown', grown, List.append_assoc]⟩

/-- A key that is none of those that are there, nor the one that comes, is still none of them. -/
theorem not_mem_keys {finished' : List (String × Layout)} {r : Option Tree} {key' : String}
    (keys : finished'.map (·.1) =
      finished.map (·.1) ++ ((r.map (Prod.mk key)).toList).map (·.1))
    (old : key' ∉ finished.map (·.1)) (ne : key' ≠ key) : key' ∉ finished'.map (·.1) := by
  rw [keys, List.mem_append]
  rintro (there | here)
  · exact old there
  · obtain ⟨m, hm, rfl⟩ := List.mem_map.1 here
    obtain ⟨t, -, rfl⟩ := Option.map_eq_some_iff.1 (Option.mem_toList.1 hm)
    exact ne rfl

/-- A container that has been filled from the start is what is prepared. -/
theorem prepares (fills : Fills n μ L l isArray [] added run) :
    Prepares n μ L l run (some (.node isArray added)) := by
  obtain ⟨μ', finished, rfl, building, grown⟩ := fills
  refine ⟨μ', _, rfl, building.delivers, ?_⟩
  rw [Option.map_some, Layout.tree, grown, Layout.memberTrees, List.nil_append]

/-- One more member, which is prepared in the slot of its name. -/
theorem member {r : Option Tree}
    (building : Building n μ (.node address isArray' members) l isArray finished μ₁)
    (whole : Ready js n μ source target (.node address isArray' members) l) (le : n ≤ n')
    (temps : Agrees (fun _ => False) n μ₁ μ₂) (next : μ₂.next = μ₁.next)
    (hsource : IsMember js n' μ₂ key source source')
    (htarget : IsMember js n' μ₂ key target target') (apart : source'.toText ≠ target'.toText)
    (new : key ∉ finished.map (·.1))
    (part : Ready js n' μ₂ source' target' ((members.lookup key).getD (.atom .undefined))
        (.member μ.next key) →
      Prepares n' μ₂ ((members.lookup key).getD (.atom .undefined)) (.member μ.next key) run r) :
    Fills n μ (.node address isArray' members) l isArray finished (r.map (Prod.mk key)).toList
      run := by
  obtain ⟨μ₃, content, rfl, delivers, rfl⟩ :=
    part (building.ready whole le temps next hsource htarget apart)
  have inside : ∀ a, ((members.lookup key).getD (.atom .undefined)).Uses a →
      (Layout.node address isArray' members).Uses a := by
    intro a used
    cases there : members.lookup key with
    | none =>
      rw [there] at used
      exact (Layout.not_uses_atom used).elim
    | some part =>
      rw [there] at used
      exact .inside (mem_of_lookup_eq_some there) used
  refine ⟨μ₃, _, rfl, building.enter whole le temps next inside new delivers, ?_⟩
  rw [Layout.memberTrees_eq, Layout.memberTrees_eq, List.map_append]
  cases content <;> rfl

/-- The members are filled in one after the other. -/
theorem each {body : Memory → String → Except Fault Memory} {f : Tree → Option Tree}
    (turn : ∀ m ∈ members, ∀ finished μ₁, Building n μ L l isArray finished μ₁ →
      m.1 ∉ finished.map (·.1) →
      Fills n μ L l isArray finished ((f m.2.tree).map (Prod.mk m.1)).toList (body μ₁ m.1))
    (distinct : (members.map (·.1)).Nodup) (new : ∀ m ∈ members, m.1 ∉ finished.map (·.1))
    (building : Building n μ L l isArray finished μ₁) :
    Fills n μ L l isArray finished (gather f (Layout.memberTrees members))
      ((members.map (·.1)).foldlM body μ₁) := by
  induction members generalizing finished μ₁ with
  | nil => exact .nil building
  | cons m rest ih =>
    rw [List.forall_mem_cons] at turn new
    rw [List.map_cons, List.nodup_cons] at distinct
    rw [List.map_cons, List.foldlM_cons, Layout.memberTrees, gather, List.flatMap_cons]
    refine .bind (turn.1 finished μ₁ building new.1) fun μ' finished' building keys => ?_
    refine ih turn.2 distinct.2 (fun m' hm' => not_mem_keys keys (new.2 m' hm') fun same => ?_)
      building
    exact distinct.1 (List.mem_map.2 ⟨m', hm', same⟩)

end Fills

/-- A container is made first and then filled. -/
theorem Ready.fill {isArray : Bool} {container : Operand} {rest : List Statement}
    {added : List (String × Tree)} (ready : Ready js n μ source target L l)
    (makes : container.run js μ = .ok (.object μ.next, μ.alloc isArray))
    (fills : ∀ μ₁, Building n μ L l isArray [] μ₁ →
      Fills n μ L l isArray [] added (Statement.runAll js rest μ₁)) :
    Prepares n μ L l (Statement.runAll js (.assign target container :: rest) μ)
      (some (.node isArray added)) := by
  have made : Statement.run js (.assign target container) μ =
      .ok ((μ.alloc isArray).put l (some (.object μ.next))) := by
    rw [Statement.run, ready.target_eq, ok_bind, makes]
    rfl
  rw [Statement.runAll_cons, made, ok_bind]
  exact (fills _ (.start ready isArray)).prepares

/-- Nothing is written. -/
theorem Prepares.nothing : Prepares n μ L l (.ok μ) none := by
  refine ⟨μ, none, rfl, ⟨?_, nofun, Nat.le_refl _, nofun⟩, rfl⟩
  rw [Option.map_none, Memory.put_none]
  exact .refl _ _ _

/-- Fresh temporaries are written first. -/
theorem Prepares.of_temps {run : Except Fault Memory} {r : Option Tree}
    (ready : Ready js n μ source target L l) (agrees : Agrees (fun _ => False) n μ μ₁)
    (next : μ₁.next = μ.next) (prepares : Prepares n μ₁ L l run r) : Prepares n μ L l run r := by
  obtain ⟨μ₂, content, ran, delivers, same⟩ := prepares
  have wide : Agrees (fun a => μ.next ≤ a) n μ μ₁ :=
    agrees.mono (fun _ used => used.elim) (Nat.le_refl n)
  refine ⟨μ₂, content, ran, ⟨?_, delivers.fits, next ▸ delivers.grown, next ▸ delivers.uses⟩, same⟩
  exact (wide.put ready.outside_new _).trans (next ▸ delivers.agrees)

/-! ## The simulation -/

/-- The generated statements for a shape write what `prepare` says. -/
def Prepared (js : Engine) (untyped : Json → Tree → Prop) (s : Shape) : Prop :=
  ∀ {source target : Place} {n m : Nat} {code : Code} {μ : Memory} {L : Layout} {l : Location}
    {v : Value}, Yields (convert .out s source target) n code m →
    Ready js n μ source target L l → s.Denotes untyped L.tree v →
    Prepares n μ L l (Statement.runAll js code.body μ) (prepare s L.tree)

section Simulation

variable {untyped : Json → Tree → Prop} {isArray isArray' : Bool} {address m : Nat} {code : Code}
  {finished members : List (String × Layout)}

/-- A layout's members are its trees' members. -/
theorem lookup_memberTrees (members : List (String × Layout)) (key : String) :
    (Layout.memberTrees members).lookup key = (members.lookup key).map Layout.tree := by
  rw [Layout.memberTrees_eq, lookup_map]

/-- The value of a member that may be missing. -/
theorem tree_getD (members : List (String × Layout)) (key : String) :
    ((members.lookup key).getD (.atom .undefined)).tree =
      ((Layout.memberTrees members).lookup key).getD (.atom .undefined) := by
  rw [lookup_memberTrees]
  cases members.lookup key <;> rfl

/-- Running the statements of the fields fills in, one after another, what the fields prepare. -/
theorem prepareFields_follows {record : String} {fields : List (String × Shape)}
    {vs : List (String × Value)} (each : ∀ f ∈ fields, Prepared js untyped f.2)
    (h : Yields (convertFields .out record fields source target) n' code m) (le : n ≤ n')
    (whole : Ready js n μ source target (.node address isArray' members) l)
    (distinct : (fields.map (·.1)).Nodup) (new : ∀ f ∈ fields, f.1 ∉ finished.map (·.1))
    (denote : Shape.FieldsDenote untyped fields (Layout.memberTrees members) vs)
    (building : Building n μ (.node address isArray' members) l isArray finished μ₁) :
    Fills n μ (.node address isArray' members) l isArray finished
      (prepareFields fields (Layout.memberTrees members)) (Statement.runAll js code.body μ₁) := by
  induction fields generalizing n' code finished μ₁ with
  | nil =>
    rw [(convertFields_nil h).1, Code.empty, Statement.runAll_nil, prepareFields_nil]
    exact .nil building
  | cons f rest ih =>
    obtain ⟨name, s⟩ := f
    rw [List.forall_mem_cons] at each new
    rw [List.map_cons, List.nodup_cons] at distinct
    rw [Shape.FieldsDenote, ← tree_getD] at denote
    obtain ⟨head, between, tail, -, first, others, rfl⟩ := convertFields_cons h
    rw [Code.append, Statement.runAll_append, prepareFields_cons, ← tree_getD]
    refine .bind (.member building whole le (.refl _ _ _) rfl (isMember_field name source)
      (isMember_field name target) (mt (Place.toText_field_eq_iff name).1 whole.apart) new.1
      fun ready => each.1 first ready denote.1) fun μ' finished' building keys => ?_
    refine ih each.2 others (Nat.le_trans le (convert_le first)) distinct.2 (fun g hg => ?_)
      denote.2 building
    refine Fills.not_mem_keys keys (new.2 g hg) fun same => ?_
    exact distinct.1 (List.mem_map.2 ⟨g, hg, same⟩)

/-- What stands at an index of an array. -/
theorem lookup_indexed_append (before : List Tree) (t : Tree) (after : List Tree) (start : Nat) :
    (Tree.indexed start (before ++ t :: after)).lookup (toString (start + before.length)) =
      some t := by
  refine lookup_eq_some_of_mem (Tree.nodup_indexed _ _) ?_
  induction before generalizing start with
  | nil => exact List.mem_cons_self ..
  | cons b before ih =>
    refine List.mem_cons_of_mem _ ?_
    have shifted := ih (start + 1)
    rwa [Nat.add_assoc, Nat.add_comm 1] at shifted

/-- Running the statements of the items fills in, one after another, what the items prepare. -/
theorem prepareItems_follows {items : List Shape} {vs : List Value} {before ts : List Tree}
    {start : Nat} (each : ∀ s ∈ items, Prepared js untyped s)
    (h : Yields (convertItems .out items start source target) n' code m) (le : n ≤ n')
    (whole : Ready js n μ source target (.node address isArray' members) l)
    (older : ∀ key ∈ finished.map (·.1), ∃ i < start, key = toString i)
    (denote : Shape.ItemsDenote untyped items ts vs) (length : before.length = start)
    (there : Layout.memberTrees members = Tree.indexed 0 (before ++ ts))
    (building : Building n μ (.node address isArray' members) l isArray finished μ₁) :
    Fills n μ (.node address isArray' members) l isArray finished
      (prepareItems start items (Layout.memberTrees members))
      (Statement.runAll js code.body μ₁) := by
  induction items generalizing n' code finished μ₁ vs before ts start with
  | nil =>
    rw [(convertItems_nil h).1, Code.empty, Statement.runAll_nil, prepareItems_nil]
    exact .nil building
  | cons s rest ih =>
    rw [List.forall_mem_cons] at each
    obtain ⟨t, ts, v, vs, rfl, rfl, denotes, denote⟩ := Shape.itemsDenote_cons.1 denote
    obtain ⟨head, between, tail, first, others, rfl⟩ := convertItems_cons h
    have found : (Layout.memberTrees members).lookup (toString start) = some t := by
      rw [there, ← length, ← Nat.zero_add before.length, lookup_indexed_append]
    have value : ((members.lookup (toString start)).getD (.atom .undefined)).tree = t := by
      rw [tree_getD, found, Option.getD_some]
    have new : toString start ∉ finished.map (·.1) := by
      intro old
      obtain ⟨i, below, same⟩ := older _ old
      exact Nat.lt_irrefl _ (Tree.toString_injective same ▸ below)
    rw [Code.append, Statement.runAll_append, prepareItems_cons, ← tree_getD]
    refine .bind (.member building whole le (.refl _ _ _) rfl (isMember_item start source)
      (isMember_item start target) (mt (Place.toText_item_eq_iff start).1 whole.apart) new
      fun ready => each.1 first ready (value ▸ denotes)) fun μ' finished' building keys => ?_
    have length' : (before ++ [t]).length = start + 1 := by rw [List.length_append, length]; rfl
    have there' : Layout.memberTrees members = Tree.indexed 0 ((before ++ [t]) ++ ts) := by
      rw [there, List.append_assoc]
      rfl
    refine ih each.2 others (Nat.le_trans le (convert_le first)) (fun key hkey => ?_) denote
      length' there' building
    by_contra none
    have ne : key ≠ toString start := fun same => none ⟨start, Nat.lt_succ_self _, same⟩
    refine Fills.not_mem_keys keys (fun old => ?_) ne hkey
    obtain ⟨i, below, same⟩ := older key old
    exact none ⟨i, Nat.lt_succ_of_lt below, same⟩

/-- The slots of a container that is read are walked key by key. -/
theorem Ready.fillKeys {t : Temp} {body : List Statement} {f : Tree → Option Tree}
    (whole : Ready js n μ source target (.node address isArray' members) l)
    (distinct : (members.map (·.1)).Nodup)
    (turn : ∀ m ∈ members, ∀ finished μ₁,
      Building n μ (.node address isArray' members) l isArray finished μ₁ →
      m.1 ∉ finished.map (·.1) →
      Fills n μ (.node address isArray' members) l isArray finished
        ((f m.2.tree).map (Prod.mk m.1)).toList
        (Statement.runAll js body (μ₁.put (.var (.temp t)) (some (.atom (.string m.1))))))
    (building : Building n μ (.node address isArray' members) l isArray [] μ₁) :
    Fills n μ (.node address isArray' members) l isArray []
      (gather f (Layout.memberTrees members))
      (Statement.runAll js [.forKeys t source body] μ₁) := by
  have reads : μ₁.value js source = .ok (.object address) := whole.source _ _ building.agrees
  have keys : μ₁.keys (.object address) = members.map (·.1) := by
    have fits := whole.fits
    cases fits with
    | node here inner =>
      rw [Memory.keys, whole.objects_eq building.agrees .here, here, Layout.heldMembers,
        List.map_map]
      rfl
  rw [Statement.runAll_singleton, Statement.run, reads, ok_bind, keys]
  exact .each turn distinct (fun _ _ => List.not_mem_nil) building

/-- The loop of a list follows preparation when its body follows that of an element. -/
theorem prepareList_follows {element : Shape} (each : Prepared js untyped element) :
    Prepared js untyped (.list element) := by
  intro source target n m code μ L l v h ready denotes
  obtain ⟨inner, generated, rfl⟩ := convert_list h
  obtain ⟨ts, vs, tree, rfl, denote⟩ := Shape.denotes_list.1 denotes
  rw [Code.ofList, transforms_eq generated, prepare_list]
  cases changes : element.changes .out
  · exact ready.share
  · cases L with
    | atom a => cases tree
    | node address isArray' members =>
      injection tree with array indexed
      have names : members.map (·.1) = (Tree.indexed 0 ts).map (·.1) := by
        rw [← Layout.keys_memberTrees, indexed]
      have distinct : (members.map (·.1)).Nodup := names ▸ Tree.nodup_indexed 0 ts
      refine ready.fill rfl fun μ₁ building => ?_
      refine ready.fillKeys distinct (fun m hm finished μ₂ building new => ?_) building
      have temps : Agrees (fun _ => False) n μ₂
          (μ₂.put (.var (.temp ⟨"i", n⟩)) (some (.atom (.string m.1)))) :=
        .putTemp (Nat.le_refl n) μ₂ _
      have holds : (μ₂.put (.var (.temp ⟨"i", n⟩)) (some (.atom (.string m.1)))).vars
          (.temp ⟨"i", n⟩) = .atom (.string m.1) := if_pos rfl
      have value : (members.lookup m.1).getD (.atom .undefined) = m.2 := by
        rw [lookup_eq_some_of_mem distinct hm, Option.getD_some]
      refine .member building ready (Nat.le_succ n) temps rfl
        (isMember_slot (Nat.lt_succ_self n) holds source)
        (isMember_slot (Nat.lt_succ_self n) holds target)
        (mt (Place.toText_slot_eq_iff _).1 ready.apart) new fun ready => ?_
      have member : (m.1, m.2.tree) ∈ Tree.indexed 0 ts := by
        rw [← indexed, Layout.memberTrees_eq]
        exact List.mem_map.2 ⟨m, hm, rfl⟩
      obtain ⟨v, -, denotes⟩ := exists_of_forall₂ denote.flip (Tree.mem_indexed member)
      rw [value] at ready ⊢
      exact each generated ready denotes

/-- The loop of a mapping with unchanged keys follows preparation when its body follows that of a
value. -/
theorem prepareMapping_follows {key value : Shape} (unchanged : key.changes .out = false)
    (each : Prepared js untyped value) : Prepared js untyped (.mapping key value) := by
  intro source target n m code μ L l v h ready denotes
  obtain ⟨keys, between, walked, generated, ⟨-, values, rfl⟩ | ⟨moved, -⟩⟩ := convert_mapping h
  · obtain ⟨trees, entries, tree, rfl, distinct, denote⟩ := Shape.denotes_mapping.1 denotes
    rw [Code.ofMapping, transforms_eq generated, transforms_eq values, prepare_mapping]
    cases changes : key.changes .out || value.changes .out
    · exact ready.share
    · cases L with
      | atom a => cases tree
      | node address isArray' members =>
        injection tree with array same
        subst same
        rw [Layout.keys_memberTrees] at distinct
        rw [if_pos rfl, if_pos rfl]
        -- the temporary for the key that is written is declared first
        have declared : Agrees (fun _ => False) n μ
            (μ.put (.var (.temp ⟨"k", n + 1⟩)) (some (.atom .undefined))) :=
          .putTemp (Nat.le_succ n) μ _
        show Prepares n μ _ l (Statement.runAll js (.declare ⟨"k", n + 1⟩ :: _) μ) _
        rw [Statement.runAll_cons, Statement.run, ok_bind]
        refine .of_temps ready declared rfl ?_
        have ready := ready.temps declared rfl
        generalize μ.put (.var (.temp ⟨"k", n + 1⟩)) (some (.atom .undefined)) = μ at ready
        refine ready.fill rfl fun μ₁ building => ?_
        refine ready.fillKeys distinct (fun m hm finished μ building new => ?_) building
        have numbered : n + 2 ≤ between := convert_le generated
        have there : (m.1, m.2.tree) ∈ Layout.memberTrees members := by
          rw [Layout.memberTrees_eq]
          exact List.mem_map.2 ⟨m, hm, rfl⟩
        obtain ⟨e, -, ⟨k, read, -⟩, denotes⟩ := exists_of_forall₂ denote.flip there
        have plain : key.isPlainKey = true :=
          Wire.isPlainKey_of_readKey (supported_of_convert generated) unchanged read
        obtain ⟨μ₂, prepared, temps, next, walking, writing⟩ :=
          runAll_plainKey js plain generated μ m.1
        have held : (members.lookup m.1).getD (.atom .undefined) = m.2 := by
          rw [lookup_eq_some_of_mem distinct hm, Option.getD_some]
        rw [Statement.runAll_append, prepared, ok_bind]
        refine .member building ready (Nat.le_trans (Nat.le_add_right n 2) numbered) temps next
          (isMember_slot (Nat.lt_of_succ_lt numbered) walking source)
          (isMember_slot numbered writing target)
          (Place.toText_slot_ne (Nat.ne_of_lt (Nat.lt_succ_self n))) new fun ready => ?_
        rw [held] at ready ⊢
        exact each values ready denotes
  · rw [transforms_eq generated, unchanged] at moved
    cases moved

/-- The statements of a tuple follow preparation when those of its items do. -/
theorem prepareTuple_follows {items : List Shape} (each : ∀ s ∈ items, Prepared js untyped s) :
    Prepared js untyped (.tuple items) := by
  intro source target n m code μ L l v h ready denotes
  obtain ⟨inner, generated, rfl⟩ := convert_tuple h
  obtain ⟨ts, vs, tree, rfl, denote⟩ := Shape.denotes_tuple.1 denotes
  rw [Code.ofTuple, transforms_convertItems (fun s _ => transforms_eq) generated, prepare_tuple]
  cases changes : Shape.anyItem .out items
  · exact ready.share
  · cases L with
    | atom a => cases tree
    | node address isArray' members =>
      injection tree with array indexed
      refine ready.fill rfl fun μ₁ building => ?_
      have there : Layout.memberTrees members = Tree.indexed 0 ([] ++ ts) := indexed
      exact prepareItems_follows each generated (Nat.le_refl n) ready (List.forall_mem_nil _) denote
        rfl there building

/-- The statements of a record follow preparation when those of its fields do. -/
theorem prepareRecord_follows {name : String} {fields : List (String × Shape)}
    (each : ∀ f ∈ fields, Prepared js untyped f.2) :
    Prepared js untyped (.record name fields) := by
  intro source target n m code μ L l v h ready denotes
  obtain ⟨inner, generated, rfl⟩ := convert_record h
  obtain ⟨trees, vs, tree, rfl, distinct, -, -, -, denote⟩ := Shape.denotes_record.1 denotes
  rw [prepare_record]
  cases L with
  | atom a => cases tree
  | node address isArray' members =>
    injection tree with array same
    subst same
    refine ready.fill rfl fun μ₁ building => ?_
    exact prepareFields_follows each generated (Nat.le_refl n) ready distinct
      (fun _ _ => List.not_mem_nil) denote building

/-- What is undefined is left out; anything else is prepared. -/
theorem prepareOptional_follows {inner : Shape} (present : Prepared js untyped inner) :
    Prepared js untyped (.optional inner) := by
  intro source target n m code μ L l v h ready denotes
  obtain ⟨there, generated, rfl⟩ := convert_optional h
  rw [Code.ofOptional, Statement.runAll_singleton, Statement.run, ready.value_eq, ok_bind,
    prepare_optional]
  rw [Shape.denotes_optional] at denotes
  by_cases undefined : L.held = .atom .undefined
  · have isUndefined : L.tree.isUndefined = true :=
      Tree.isUndefined_iff.2 (Layout.held_eq_atom.1 undefined)
    rw [if_pos undefined, if_pos isUndefined]
    exact .nothing
  · have isUndefined : L.tree.isUndefined ≠ true := fun isUndefined =>
      undefined (Layout.held_eq_atom.2 (Tree.isUndefined_iff.1 isUndefined))
    rw [if_neg undefined, if_neg isUndefined]
    rcases denotes with ⟨missing, -⟩ | ⟨-, -, denotes⟩
    · exact absurd (Layout.held_eq_atom.2 missing) undefined
    · exact present generated ready denotes

/-- **What generated code makes of parameters**: the statements for a shape, run where a value
of the shape is read, write what `prepare` says. -/
theorem prepare_follows (js : Engine) (untyped : Json → Tree → Prop) {s : Shape}
    (kept : s.keysKept .out false = true) : Prepared js untyped s := by
  induction s with
  | scalar =>
    intro source target n m code μ L l v h ready denotes
    rw [(convert_scalar h).1, prepare_scalar]
    exact ready.share
  | enum =>
    intro source target n m code μ L l v h ready denotes
    rw [(convert_enum h).1, prepare_enum]
    exact ready.share
  | temporal kind =>
    intro source target n m code μ L l v h ready denotes
    obtain ⟨-, -, image⟩ := Shape.denotes_temporal.1 denotes
    obtain ⟨text, moment⟩ : ∃ text, L.tree = .atom (.moment kind text) := by
      generalize L.tree = t at image
      cases image <;> exact ⟨_, rfl⟩
    rw [(convert_temporal h).1, moment, prepare_moment]
    exact ready.encode moment
  | list element ih => exact prepareList_follows (ih kept)
  | mapping key value _ ih =>
    rw [Shape.keysKept, Bool.and_eq_true, Bool.and_eq_true, Bool.not_eq_true'] at kept
    exact prepareMapping_follows kept.1.1 (ih kept.2)
  | tuple items ih =>
    rw [Shape.keysKept, Shape.itemsKept_iff] at kept
    exact prepareTuple_follows fun s hs => ih s hs (kept s hs)
  | optional inner ih => exact prepareOptional_follows (ih kept)
  | record name fields ih =>
    rw [Shape.keysKept, Shape.fieldsKept_iff] at kept
    exact prepareRecord_follows fun f hf => ih f hf (kept f hf)
  | wrapper _ _ inner ih =>
    intro source target n m code μ L l v h ready denotes
    rw [Shape.denotes_wrapper] at denotes
    rw [prepare_wrapper]
    exact ih kept (convert_wrapper h) ready denotes
  | opened _ name fields ih =>
    intro source target n m code μ L l v h ready denotes
    obtain ⟨field, inner, rfl, generated⟩ := convert_opened h
    obtain ⟨_, _, vs, ⟨⟩, rfl, -, denotes⟩ := Shape.denotes_opened.1 denotes
    rw [Shape.keysKept, Shape.fieldsKept_iff] at kept
    have one := List.mem_singleton.2 (rfl : (field, inner) = (field, inner))
    rw [prepare_opened]
    exact ih _ one (kept _ one) generated ready denotes
  | bareTemplate =>
    intro source target n m code μ L l v h
    exact (convert_bareTemplate h).elim
  | blocked =>
    intro source target n m code μ L l v h
    exact (convert_blocked h).elim

end Simulation

end RpcBridge.Client
