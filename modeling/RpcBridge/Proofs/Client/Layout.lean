import RpcBridge.Proofs.Client.Memory
import RpcBridge.Proofs.Json.Settled

/-!
# Proofs/Client/Layout — values and where they lie in memory

A `Tree` is a value with everything below it; a `Layout` says in addition at which address each
object lies.  A memory holds a layout (`Layout.Fits`) as long as the objects the layout uses are
not written, and a layout that uses no object twice (`Layout.Separate`) can be written part by
part.

* `Layout.Fits.frame` — what is not used may change;
* `Layout.Fits.putMember` — a member that is written leaves the other members as they are.
-/

namespace RpcBridge.Client

/-! ## Values -/

/-- A value with everything below it. -/
inductive Tree where
  | atom (a : Atom)
  | node (isArray : Bool) (members : List (String × Tree))
deriving Inhabited

namespace Tree

/-- Whether the value is undefined. -/
def isUndefined : Tree → Bool
  | .atom .undefined => true
  | _ => false

/-- Whether the value is null. -/
def isNull : Tree → Bool
  | .atom .null => true
  | _ => false

/-- The keys of a value, in order. -/
def keys : Tree → List String
  | .node _ members => members.map (·.1)
  | .atom _ => []

/-- Values as the members of an array, counting from `start`. -/
def indexed (start : Nat) : List Tree → List (String × Tree)
  | [] => []
  | t :: rest => (toString start, t) :: indexed (start + 1) rest

/-- An array. -/
def array (items : List Tree) : Tree := .node true (indexed 0 items)

mutual

/-- What a JSON value is read as. -/
def ofJson : Json → Tree
  | .null => .atom .null
  | .bool b => .atom (.bool b)
  | .number n => .atom (.number n)
  | .string s => .atom (.string s)
  | .array items => array (ofItems items)
  | .object members => .node false (ofMembers members)

/-- What the items of an array are read as. -/
def ofItems : List Json → List Tree
  | [] => []
  | j :: rest => ofJson j :: ofItems rest

/-- What the members of an object are read as. -/
def ofMembers : Members → List (String × Tree)
  | [] => []
  | (name, j) :: rest => (name, ofJson j) :: ofMembers rest

end

theorem ofItems_eq (items : List Json) : ofItems items = items.map ofJson := by
  induction items with
  | nil => rw [ofItems, List.map_nil]
  | cons j rest ih => rw [ofItems, List.map_cons, ih]

theorem ofMembers_eq (members : Members) :
    ofMembers members = members.map fun m => (m.1, ofJson m.2) := by
  induction members with
  | nil => rw [ofMembers, List.map_nil]
  | cons m rest ih => rw [ofMembers, List.map_cons, ih]

end Tree

/-! ## Layouts -/

/-- A value and the addresses of its objects. -/
inductive Layout where
  | atom (a : Atom)
  | node (address : Nat) (isArray : Bool) (members : List (String × Layout))
deriving Inhabited

namespace Layout

/-- **Induction on layouts**: members are reached by membership. -/
@[induction_eliminator]
theorem induction {motive : Layout → Prop} (atom : ∀ a, motive (.atom a))
    (node : ∀ address isArray members, (∀ m ∈ members, motive m.2) →
      motive (.node address isArray members)) (L : Layout) : motive L :=
  @Layout.rec motive (fun members => ∀ m ∈ members, motive m.2) (fun m => motive m.2) atom node
    (fun _ h => nomatch h)
    (fun _ _ head tail m hm => by
      rcases List.mem_cons.1 hm with rfl | hm
      · exact head
      · exact tail m hm)
    (fun _ _ h => h) L

/-- What a slot holds that holds the value. -/
def held : Layout → Held
  | .atom a => .atom a
  | .node address _ _ => .object address

mutual

/-- The value without its addresses. -/
def tree : Layout → Tree
  | .atom a => .atom a
  | .node _ isArray members => .node isArray (memberTrees members)

/-- The members without their addresses. -/
def memberTrees : List (String × Layout) → List (String × Tree)
  | [] => []
  | (key, L) :: rest => (key, L.tree) :: memberTrees rest

end

theorem memberTrees_eq (members : List (String × Layout)) :
    memberTrees members = members.map fun m => (m.1, m.2.tree) := by
  induction members with
  | nil => rw [memberTrees, List.map_nil]
  | cons m rest ih => rw [memberTrees, List.map_cons, ih]

/-- The members as an object holds them. -/
def heldMembers (members : List (String × Layout)) : List (String × Held) :=
  members.map fun m => (m.1, m.2.held)

theorem keys_memberTrees (members : List (String × Layout)) :
    (memberTrees members).map (·.1) = members.map (·.1) := by
  rw [memberTrees_eq, List.map_map]
  rfl

theorem keys_heldMembers (members : List (String × Layout)) :
    (heldMembers members).map (·.1) = members.map (·.1) := by
  rw [heldMembers, List.map_map]
  rfl

/-- The addresses of the objects of a value. -/
inductive Uses : Layout → Nat → Prop where
  | here {address : Nat} {isArray : Bool} {members : List (String × Layout)} :
    Uses (.node address isArray members) address
  | inside {address : Nat} {isArray : Bool} {members : List (String × Layout)} {a : Nat}
    {m : String × Layout} (member : m ∈ members) (inner : m.2.Uses a) :
    Uses (.node address isArray members) a

/-- The objects of a value are in memory where they should be. -/
inductive Fits (objects : Nat → Object) : Layout → Prop where
  | atom (a : Atom) : Fits objects (.atom a)
  | node {address : Nat} {isArray : Bool} {members : List (String × Layout)}
    (here : objects address = ⟨isArray, heldMembers members⟩)
    (inner : ∀ m ∈ members, m.2.Fits objects) : Fits objects (.node address isArray members)

/-- No two parts of a value use the same object. -/
inductive Separate : Layout → Prop where
  | atom (a : Atom) : Separate (.atom a)
  | node {address : Nat} {isArray : Bool} {members : List (String × Layout)}
    (above : ∀ m ∈ members, ¬m.2.Uses address)
    (apart : members.Pairwise fun x y => ∀ a, x.2.Uses a → ¬y.2.Uses a)
    (inner : ∀ m ∈ members, m.2.Separate) : Separate (.node address isArray members)

theorem not_uses_atom {a : Atom} {address : Nat} : ¬(Layout.atom a).Uses address := nofun

/-- **What is not used may change.** -/
theorem Fits.frame {objects objects' : Nat → Object} {L : Layout} (fits : L.Fits objects)
    (same : ∀ a, L.Uses a → objects' a = objects a) : L.Fits objects' := by
  induction fits with
  | atom a => exact .atom a
  | node here inner ih =>
    refine .node ((same _ .here).trans here) fun m hm => ih m hm fun a used => ?_
    exact same a (.inside hm used)

theorem memberTrees_congr {members members' : List (String × Layout)}
    (same : heldMembers members = heldMembers members')
    (each : ∀ m ∈ members, ∀ m' ∈ members', m.2.held = m'.2.held → m.2.tree = m'.2.tree) :
    memberTrees members = memberTrees members' := by
  induction members generalizing members' with
  | nil =>
    cases members' with
    | nil => rfl
    | cons => cases same
  | cons m rest ih =>
    cases members' with
    | nil => cases same
    | cons m' rest' =>
      rw [heldMembers, heldMembers, List.map_cons, List.map_cons, List.cons.injEq,
        Prod.mk.injEq] at same
      obtain ⟨⟨key, held⟩, others⟩ := same
      have first := each m (List.mem_cons_self ..) m' (List.mem_cons_self ..) held
      rw [memberTrees, memberTrees, key, first, ih others fun n hn n' hn' =>
        each n (List.mem_cons_of_mem _ hn) n' (List.mem_cons_of_mem _ hn')]

/-- A memory holds one value at a place. -/
theorem Fits.tree_eq {objects : Nat → Object} {L L' : Layout} (fits : L.Fits objects)
    (fits' : L'.Fits objects) (held : L.held = L'.held) : L.tree = L'.tree := by
  induction fits generalizing L' with
  | atom a =>
    cases fits' with
    | atom b =>
      injection held with held
      rw [held]
    | node => cases held
  | node here inner ih =>
    cases fits' with
    | atom => cases held
    | node here' inner' =>
      injection held with held
      subst held
      rw [here] at here'
      injection here' with array same
      rw [tree, tree, array, memberTrees_congr same fun m hm m' hm' =>
        ih m hm (inner' m' hm')]

/-! ## Writing a member -/

section PutMember

variable {objects objects' : Nat → Object} {address : Nat} {isArray : Bool}
  {members : List (String × Layout)} {key : String} {new : Layout}

/-- What takes the place of a member, or comes as a new one, uses no objects but that member's. -/
def Within (new : Layout) (old : Option Layout) : Prop :=
  ∀ a, new.Uses a → ∃ L ∈ old, L.Uses a

theorem Within.uses (within : new.Within (members.lookup key)) {a : Nat}
    (used : (Layout.node address isArray (putEntry members key new)).Uses a) :
    (Layout.node address isArray members).Uses a := by
  cases used with
  | here => exact .here
  | inside member inner =>
    rcases mem_putEntry member with rfl | member
    · obtain ⟨L, found, used⟩ := within a inner
      exact .inside (mem_of_lookup_eq_some found) used
    · exact .inside member inner

theorem Separate.putMember (separate : (Layout.node address isArray members).Separate)
    (newSeparate : new.Separate) (within : new.Within (members.lookup key)) :
    (Layout.node address isArray (putEntry members key new)).Separate := by
  obtain ⟨before, after, parts, put⟩ := exists_putEntry members key
  cases separate with
  | node above apart inner =>
    have old_mem : ∀ L ∈ members.lookup key, (key, L) ∈ members := fun L found =>
      mem_of_lookup_eq_some found
    refine .node ?_ ?_ ?_
    · intro m hm used
      rcases mem_putEntry hm with rfl | hm
      · obtain ⟨L, found, oldUsed⟩ := within _ used
        exact above _ (old_mem L found) oldUsed
      · exact above m hm used
    · rw [put, List.pairwise_append, List.pairwise_cons]
      rw [parts, List.pairwise_append, List.pairwise_append] at apart
      obtain ⟨⟨hbefore, -, toOld⟩, hafter, toAfter⟩ := apart
      refine ⟨hbefore, ⟨fun y hy a newUsed => ?_, hafter⟩, fun x hx y hy a used => ?_⟩
      · obtain ⟨L, found, oldUsed⟩ := within a newUsed
        refine toAfter (key, L) (List.mem_append_right _ ?_) y hy a oldUsed
        rw [Option.mem_def.1 found]
        exact List.mem_singleton.2 rfl
      · rcases List.mem_cons.1 hy with rfl | hy
        · intro newUsed
          obtain ⟨L, found, oldUsed⟩ := within a newUsed
          refine toOld x hx (key, L) ?_ a used oldUsed
          rw [Option.mem_def.1 found]
          exact List.mem_singleton.2 rfl
        · exact toAfter x (List.mem_append_left _ hx) y hy a used
    · intro m hm
      rcases mem_putEntry hm with rfl | hm
      · exact newSeparate
      · exact inner m hm

/-- **A member that is written leaves the other members as they are.** -/
theorem Fits.putMember (fits : (Layout.node address isArray members).Fits objects)
    (separate : (Layout.node address isArray members).Separate)
    (here : objects' address = (objects address).put key new.held) (newFits : new.Fits objects')
    (same : ∀ a, a ≠ address → (∀ L ∈ members.lookup key, ¬L.Uses a) → objects' a = objects a) :
    (Layout.node address isArray (putEntry members key new)).Fits objects' := by
  obtain ⟨before, after, parts, put⟩ := exists_putEntry members key
  cases fits with
  | node there inner =>
    cases separate with
    | node above apart innerSeparate =>
      have others : ∀ m ∈ before ++ after, m.2.Fits objects' := by
        intro m hm
        have member : m ∈ members := by
          rw [parts]
          rcases List.mem_append.1 hm with hm | hm
          · exact List.mem_append_left _ (List.mem_append_left _ hm)
          · exact List.mem_append_right _ hm
        refine (inner m member).frame fun a used => same a ?_ ?_
        · rintro rfl
          exact above m member used
        · intro L found oldUsed
          rw [Option.mem_def.1 found] at parts
          rw [parts, List.pairwise_append, List.pairwise_append] at apart
          have old : (key, L) ∈ (Option.map (Prod.mk key) (some L)).toList :=
            List.mem_singleton.2 rfl
          rcases List.mem_append.1 hm with hm | hm
          · exact apart.1.2.2 m hm _ old a used oldUsed
          · exact apart.2.2 _ (List.mem_append_right _ old) m hm a oldUsed used
      refine .node ?_ ?_
      · rw [here, there, Object.put, heldMembers, heldMembers, map_putEntry]
      · intro m hm
        rw [put] at hm
        rcases List.mem_append.1 hm with hm | hm
        · exact others m (List.mem_append_left _ hm)
        · rcases List.mem_cons.1 hm with rfl | hm
          · exact newFits
          · exact others m (List.mem_append_right _ hm)

end PutMember

end Layout

end RpcBridge.Client
