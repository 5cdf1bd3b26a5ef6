import RpcBridge.Proofs.Client.Exporting
import RpcBridge.Proofs.Client.Mirror

/-!
# Proofs/Client/Moved — dictionaries whose keys are converted

A client that reads a dictionary with days or times as keys goes through the keys that it finds,
converts each of them, assigns the value to the slot of the converted key and converts it there.
The old slot stays: in the end the dictionary has its old members and as many new ones.  What the
new slot holds is the value as it is read by itself.

* `ReadsTo` — what a client makes of a value by itself;
* `entry_run` — what one turn makes of the value in the new slot;
* `entries_of_mapping` — the members of the dictionary in the end.
-/

namespace RpcBridge.Client

open Statement

/-! ## A value by itself -/

/-- The memory is what a client makes of a JSON value of the type, when it reads that by itself. -/
def ReadsTo (js : Engine) (d : Descriptor) (j : Json) (α : Memory) : Prop :=
  ∃ r code next μ, Yields (Resolver.code .back d Caller.data Caller.data) r code next ∧
    μ.HasRead "data" j ∧ runAll js code.body μ = .ok α

/-- What a slot of the second memory holds is what the variable of the result holds in the first
one, up to addresses; in the second memory, its objects are those of `W`. -/
def SameValueIn (W : Nat → Prop) (α μ : Memory) (h : Held) : Prop :=
  ∃ pairs, (∀ a b, pairs a b → W b) ∧ Held.Alike pairs (α.vars (.root "data")) h ∧
    ∀ a b, pairs a b → (α.objects a).Alike pairs (μ.objects b)

/-- What a slot of the second memory holds is what the variable of the result holds in the first
one, up to addresses. -/
def SameValue (α μ : Memory) (h : Held) : Prop := SameValueIn (fun _ => True) α μ h

namespace SameValueIn

variable {W : Nat → Prop} {α μ μ' : Memory} {h : Held}

/-- Objects that are not part of the value may change. -/
theorem frame (same : SameValueIn W α μ h) (kept : ∀ a, W a → μ'.objects a = μ.objects a) :
    SameValueIn W α μ' h := by
  obtain ⟨pairs, within, held, objects⟩ := same
  refine ⟨pairs, within, held, fun a b paired => ?_⟩
  rw [kept b (within a b paired)]
  exact objects a b paired

theorem sameValue (same : SameValueIn W α μ h) : SameValue α μ h := by
  obtain ⟨pairs, -, held, objects⟩ := same
  exact ⟨pairs, fun _ _ _ => trivial, held, objects⟩

end SameValueIn

/-- What the value looks like by itself it looks like in the slot. -/
theorem SameValue.looks {α μ : Memory} {h : Held} {t : Tree} (same : SameValue α μ h)
    (shows : α.Shows "data" t) : h.Looks μ t := by
  obtain ⟨pairs, -, held, objects⟩ := same
  obtain ⟨L, eq, fits, rfl⟩ := shows
  rw [eq] at held
  exact held.looks objects fits

/-! ## The value of an entry -/

/-- A member of the dictionary holds a value that has just been read, and a temporary holds its
key. -/
structure EntryAt (js : Engine) (n : Nat) (t : Temp) (address : Nat) (key : String) (L : Layout)
    (μ : Memory) : Prop where
  data : μ.vars (.root "data") = .object address
  named : (μ.vars (.temp t)).keyText js = key
  old : t.number < n
  there : (μ.objects address).members.lookup key = some L.held
  fits : L.Fits μ.objects
  separate : L.Separate
  below : ¬L.Uses address

section Entry

variable {js : Engine} {n m : Nat} {t : Temp} {address : Nat} {key : String} {L L' : Layout}
  {α μ : Memory} {d : Descriptor} {j : Json} {code walked : Code}

/-- The slot of the key that a temporary holds. -/
abbrev slotOf (t : Temp) : Place := .slot Caller.data t

theorem spot_slotOf (data : μ.vars (.root "data") = .object address)
    (named : (μ.vars (.temp t)).keyText js = key) :
    μ.spot js (slotOf t) = .ok (.at (.member address key)) := by
  rw [slotOf, Caller.data, Memory.spot, Memory.spot, ok_bind, named, Memory.readSpot, Memory.read,
    Memory.content, Option.getD_some, data]
  rfl

/-- The slot of an entry, and the objects of two layouts of its value. -/
def EntryAt.site (entry : EntryAt js n t address key L' μ) (separate : L.Separate) (first : Nat) :
    Site js ⟨slotOf t, first, n⟩ where
  pairs := L.Pairs L'
  left h h' := h.unique separate h'
  right h h' := h.swap.unique entry.separate h'.swap
  address := address
  key := key
  apart _ h := entry.below h.uses.2
  before := μ
  names μ' same := by
    have temp : μ'.vars (.temp t) = μ.vars (.temp t) := same _ (Nat.not_le_of_lt entry.old)
    exact spot_slotOf ((same _ id).trans entry.data) (temp ▸ entry.named)

/-- The conversion of a value by itself is carried over to the new slot. -/
theorem carries_slotOf {s : Shape} {first m' : Nat}
    (h : Yields (convert .back s Caller.data Caller.data) first code m)
    (h' : Yields (convert .back s (slotOf t) (slotOf t)) n walked m') :
    (⟨slotOf t, first, n⟩ : Graft).Carries [] code.body walked.body := by
  have start : (⟨slotOf t, first, n⟩ : Graft).number first = n := by
    rw [Graft.number, Nat.sub_self, Nat.add_zero]
  rw [← start] at h'
  exact carries_of_convert s .root .root (sameText_self _ _) (Nat.le_refl _) h h'

/-- **The value of an entry goes through the same steps as by itself.** -/
theorem entry_parallel {first m' : Nat} (entry : EntryAt js n t address key L' μ)
    (held : α.vars (.root "data") = L.held) (fits : L.Fits α.objects) (separate : L.Separate)
    (same : L.tree = L'.tree) {s : Shape}
    (h : Yields (convert .back s Caller.data Caller.data) first code m)
    (h' : Yields (convert .back s (slotOf t) (slotOf t)) n walked m') :
    Parallel (fun α μ' => ∃ x, Agrees L'.Uses n (μ.put (.member address key) (some x)) μ' ∧
        SameValueIn L'.Uses α μ' x)
      (runAll js code.body α) (runAll js walked.body μ) := by
  let S := entry.site separate first
  obtain ⟨alike, objects⟩ := Layout.alike_of_tree_eq same fits entry.fits fun _ _ => id
  have start : S.Mirrors [] α μ := by
    refine ⟨nofun, nofun, ⟨L'.held, entry.there, held ▸ alike⟩, objects, ?_⟩
    have unchanged : S.before.put S.slot (μ.content S.slot) = μ := Memory.put_self rfl
    rw [unchanged]
    exact .refl _ _ _
  refine (Site.mirrors_of_run (carries_slotOf h h') start).mono fun α' μ' ends => ?_
  obtain ⟨x, there, same⟩ := ends.root
  refine ⟨x, ?_, L.Pairs L', fun _ _ paired => paired.uses.2, same, ends.objects⟩
  have frame := ends.frame
  rw [there] at frame
  exact frame.mono (fun _ ⟨_, paired⟩ => paired.uses.2) (Nat.le_refl _)

/-- **What becomes of the value of an entry**: its conversion ends if that of the value by itself
does, and comes to the same. -/
theorem entry_run (entry : EntryAt js n t address key L μ) (parsed : L.tree = .ofJson j)
    (values : Yields (convert .back d.shape (slotOf t) (slotOf t)) n walked m) :
    ((∃ μ', runAll js walked.body μ = .ok μ') ↔ ∃ α, ReadsTo js d j α) ∧
      ∀ μ', runAll js walked.body μ = .ok μ' →
        ∃ x, Agrees L.Uses n (μ.put (.member address key) (some x)) μ' ∧
          ∀ α, ReadsTo js d j α → SameValueIn L.Uses α μ' x := by
  -- the value may have been read anywhere, for instance here
  have elsewhere : ∀ α, ReadsTo js d j α → ∃ μ', runAll js walked.body μ = .ok μ' ∧
      ∃ x, Agrees L.Uses n (μ.put (.member address key) (some x)) μ' ∧
        SameValueIn L.Uses α μ' x := by
    rintro α ⟨r, code, next, μ₀, accepted, ⟨L₀, held, fits, separate, parsed₀⟩, ran⟩
    have parallel := entry_parallel entry held fits separate (parsed₀.trans parsed.symm)
      (yields_generating accepted) values
    exact parallel.right ran
  have here : ∀ μ', runAll js walked.body μ = .ok μ' → ∃ α, ReadsTo js d j α := by
    intro μ' ran
    obtain ⟨code, next, generated⟩ :=
      Convertible.yields ⟨_, _, _, _, _, _, values⟩ .back Caller.data Caller.data 0
    have held := μ.vars_put_self (.root "data") L.held
    have parallel := entry_parallel entry held entry.fits entry.separate rfl generated values
    obtain ⟨α, ran, -⟩ := parallel.left ran
    exact ⟨α, .empty, code, ⟨.empty, next⟩, _, yields_generating_iff.2 ⟨generated, rfl⟩,
      ⟨L, held, entry.fits, entry.separate, parsed⟩, ran⟩
  refine ⟨⟨fun ⟨μ', ran⟩ => here μ' ran, fun ⟨α, reads⟩ => ?_⟩, fun μ' ran => ?_⟩
  · obtain ⟨μ', ran, -⟩ := elsewhere α reads
    exact ⟨μ', ran⟩
  · obtain ⟨α₀, reads₀⟩ := here μ' ran
    obtain ⟨_, ran₀, x, agrees, -⟩ := elsewhere α₀ reads₀
    cases ran.symm.trans ran₀
    refine ⟨x, agrees, fun α reads => ?_⟩
    obtain ⟨_, ran₁, y, agrees₁, same⟩ := elsewhere α reads
    cases ran.symm.trans ran₁
    have outside : (Location.member address key).Outside L.Uses n := entry.below
    have content {z : Held} (agrees : Agrees L.Uses n (μ.put (.member address key) (some z)) μ') :
        μ'.content (.member address key) = some z :=
      (agrees.content outside).trans (Memory.content_put _ _ _)
    cases (content agrees).symm.trans (content agrees₁)
    exact same

end Entry

/-! ## One turn -/

/-- What is done for a key: it is converted, the value is assigned to the new slot, and converted
there. -/
def turnBody (kind : TemporalKind) (n : Nat) (walked : Code) : List Statement :=
  .assign (.temp ⟨"k", n + 1⟩) (.converted (TemporalDecoder kind) (.temp ⟨"k", n⟩)) ::
    .assign (slotOf ⟨"k", n + 1⟩) (.place (slotOf ⟨"k", n⟩)) :: walked.body

/-- A turn of the loop over the keys. -/
def turn (js : Engine) (kind : TemporalKind) (n : Nat) (walked : Code) (μ : Memory)
    (key : String) : Except Fault Memory :=
  runAll js (turnBody kind n walked) (μ.put (.var (.temp ⟨"k", n⟩)) (some (.atom (.string key))))

/-- The loop that is generated for a dictionary with converted keys. -/
theorem body_of_mapping {kind : TemporalKind} {s : Shape} {n m : Nat} {code : Code}
    (h : Yields (convert .back (.mapping (.temporal kind) s) Caller.data Caller.data) n code m) :
    ∃ walked,
      Yields (convert .back s (slotOf ⟨"k", n + 1⟩) (slotOf ⟨"k", n + 1⟩)) (n + 2) walked m ∧
      code.body =
        [.declare ⟨"k", n + 1⟩, .forKeys ⟨"k", n⟩ Caller.data (turnBody kind n walked)] := by
  obtain ⟨keys, between, walked, generated, moved⟩ := convert_mapping h
  obtain ⟨rfl, rfl⟩ := convert_temporal generated
  rcases moved with ⟨stays, -⟩ | ⟨-, values, rfl⟩
  · cases stays
  · refine ⟨walked, values, ?_⟩
    have apart : Place.toText (slotOf ⟨"k", n⟩) ≠ (slotOf ⟨"k", n + 1⟩).toText :=
      Place.toText_slot_ne (Nat.ne_of_lt (Nat.lt_succ_self n))
    have converts :
        (Code.ofTemporal kind .back (.temp ⟨"k", n⟩) (.temp ⟨"k", n + 1⟩)).transforms = true := rfl
    rw [Code.ofMapping, converts, Bool.true_or, if_pos rfl, body_ofTemporal,
      body_ofMoved apart values]
    rfl

section Turn

variable {js : Engine} {kind : TemporalKind} {n m address : Nat} {name : String} {L : Layout}
  {rest : List (String × Layout)} {held : List (String × Held)} {μ μ' : Memory} {walked : Code}

/-- Between two turns: the members that are still to be visited are there, with the values that
have been read, and there is nothing yet under their converted keys. -/
structure Visiting (js : Engine) (kind : TemporalKind) (address : Nat)
    (rest : List (String × Layout)) (held : List (String × Held)) (μ : Memory) : Prop where
  data : μ.vars (.root "data") = .object address
  dictionary : μ.objects address = ⟨false, held⟩
  there : ∀ m ∈ rest, held.lookup m.1 = some m.2.held
  free : ∀ m ∈ rest, held.lookup (js.keyOfMoment kind m.1) = none
  distinct : (rest.map (·.1)).Nodup
  fits : ∀ m ∈ rest, m.2.Fits μ.objects
  separate : ∀ m ∈ rest, m.2.Separate
  below : ∀ m ∈ rest, ¬m.2.Uses address
  apart : rest.Pairwise fun x y => ∀ a, x.2.Uses a → ¬y.2.Uses a

/-- The memory in which something stands under the converted key of a name. -/
def moved (js : Engine) (kind : TemporalKind) (n address : Nat) (name : String) (x : Held)
    (μ : Memory) : Memory :=
  ((μ.put (.var (.temp ⟨"k", n⟩)) (some (.atom (.string name)))).put (.var (.temp ⟨"k", n + 1⟩))
    (some (.atom (.moment kind name)))).put (.member address (js.keyOfMoment kind name)) (some x)

theorem objects_moved (x : Held) (dictionary : μ.objects address = ⟨false, held⟩)
    (free : held.lookup (js.keyOfMoment kind name) = none) :
    (moved js kind n address name x μ).objects address =
      ⟨false, held ++ [(js.keyOfMoment kind name, x)]⟩ := by
  simp only [moved, Memory.put, if_true, dictionary, Object.put,
    putEntry_of_lookup_eq_none x free]

theorem objects_moved_of_ne (x : Held) {a : Nat} (ne : a ≠ address) :
    (moved js kind n address name x μ).objects a = μ.objects a :=
  Memory.objects_put_of_ne _ _ _ ne

theorem Visiting.turn_eq (visiting : Visiting js kind address ((name, L) :: rest) held μ)
    (walked : Code) :
    turn js kind n walked μ name =
      runAll js walked.body (moved js kind n address name L.held μ) := by
  let μ₁ := μ.put (.var (.temp ⟨"k", n⟩)) (some (.atom (.string name)))
  let μ₂ := μ₁.put (.var (.temp ⟨"k", n + 1⟩)) (some (.atom (.moment kind name)))
  have read : μ₁.vars (.temp ⟨"k", n⟩) = .atom (.string name) := μ.vars_put_self _ _
  have old : μ₂.vars (.temp ⟨"k", n⟩) = .atom (.string name) :=
    (μ₁.vars_put_of_ne _ (by simp)).trans read
  have new : μ₂.vars (.temp ⟨"k", n + 1⟩) = .atom (.moment kind name) := μ₁.vars_put_self _ _
  have data : μ₂.vars (.root "data") = .object address := visiting.data
  have decoded : (TemporalDecoder kind).run (.atom (.string name)) =
      .ok (.atom (.moment kind name)) := by
    cases kind <;> rfl
  have converts : (Statement.assign (.temp ⟨"k", n + 1⟩)
      (.converted (TemporalDecoder kind) (.temp ⟨"k", n⟩))).run js μ₁ = .ok μ₂ := by
    have value : μ₁.value js (.temp ⟨"k", n⟩) = .ok (.atom (.string name)) :=
      congrArg Except.ok read
    rw [Statement.run, Operand.run, value, ok_bind, decoded]
    rfl
  have source : μ₂.value js (slotOf ⟨"k", n⟩) = .ok L.held := by
    have there : (μ₂.objects address).members.lookup name = some L.held := by
      have same : μ₂.objects address = ⟨false, held⟩ := visiting.dictionary
      rw [same]
      exact visiting.there _ (List.mem_cons_self ..)
    rw [Memory.value, spot_slotOf data (congrArg (Held.keyText js) old), ok_bind, Memory.readSpot,
      Memory.read, Memory.content]
    exact congrArg (fun x : Option Held => Except.ok (x.getD _)) there
  have moves : (Statement.assign (slotOf ⟨"k", n + 1⟩) (.place (slotOf ⟨"k", n⟩))).run js μ₂ =
      .ok (moved js kind n address name L.held μ) := by
    rw [Statement.run, spot_slotOf data (congrArg (Held.keyText js) new), Operand.run, source]
    rfl
  rw [turn, turnBody, runAll_cons, converts, ok_bind, runAll_cons, moves, ok_bind]

/-- The value stands in its new slot as it was read. -/
theorem Visiting.entry (visiting : Visiting js kind address ((name, L) :: rest) held μ) (n : Nat) :
    EntryAt js (n + 2) ⟨"k", n + 1⟩ address (js.keyOfMoment kind name) L
      (moved js kind n address name L.held μ) := by
  have first : (name, L) ∈ (name, L) :: rest := List.mem_cons_self ..
  have below := visiting.below _ first
  have free := visiting.free _ first
  refine ⟨visiting.data, ?_, Nat.lt_succ_self _, ?_, ?_, visiting.separate _ first, below⟩
  · rw [moved, Memory.vars_put_member, Memory.vars_put_self]
    rfl
  · rw [objects_moved _ visiting.dictionary free, lookup_append_of_none free, List.lookup_cons_self]
  · refine (visiting.fits _ first).frame fun a used => objects_moved_of_ne _ ?_
    rintro rfl
    exact below used

/-- **What a turn preserves.** -/
theorem Visiting.next (visiting : Visiting js kind address ((name, L) :: rest) held μ)
    (injective : Function.Injective (js.keyOfMoment kind)) {x : Held}
    (agrees : Agrees L.Uses (n + 2) (moved js kind n address name x μ) μ') :
    Visiting js kind address rest (held ++ [(js.keyOfMoment kind name, x)]) μ' := by
  obtain ⟨data, dictionary, there, free, distinct, fits, separate, below, apart⟩ := visiting
  rw [List.forall_mem_cons] at there free fits separate below
  rw [List.map_cons, List.nodup_cons] at distinct
  rw [List.pairwise_cons] at apart
  refine ⟨(agrees.vars _ id).trans data, ?_, fun m hm => ?_, fun m hm => ?_, distinct.2,
    fun m hm => ?_, separate.2, below.2, apart.2⟩
  · rw [agrees.objects _ below.1, objects_moved x dictionary free.1]
  · rw [List.lookup_append, there.2 m hm, Option.some_or]
  · rw [lookup_append_of_none (free.2 m hm), lookup_cons_eq, if_neg, List.lookup_nil]
    intro same
    exact distinct.1 (List.mem_map.2 ⟨m, hm, injective same⟩)
  · refine (fits.2 m hm).frame fun a used => ?_
    rw [agrees.objects a fun used' => apart.1 m hm a used' used, objects_moved_of_ne]
    rintro rfl
    exact below.2 m hm used

end Turn

/-! ## The loop -/

/-- A new member of the dictionary: it has the converted key of an old one, and its value is what
the value of the old one comes to by itself, and looks like it. -/
structure ConvertedEntry (js : Engine) (kind : TemporalKind) (d : Descriptor) (μ : Memory)
    (member : String × Json) (entry : String × Held) : Prop where
  key : entry.1 = js.keyOfMoment kind member.1
  same : ∀ α, ReadsTo js d member.2 α → SameValue α μ entry.2
  looks : ∀ α t, ReadsTo js d member.2 α → α.Shows "data" t → entry.2.Looks μ t

theorem convertedEntry {js : Engine} {kind : TemporalKind} {d : Descriptor} {μ : Memory}
    {member : String × Json} {x : Held}
    (same : ∀ α, ReadsTo js d member.2 α → SameValue α μ x) :
    ConvertedEntry js kind d μ member (js.keyOfMoment kind member.1, x) :=
  ⟨rfl, same, fun α _ reads shows => (same α reads).looks shows⟩

section Loop

variable {js : Engine} {kind : TemporalKind} {d : Descriptor} {n m address : Nat}
  {members : Members} {rest : List (String × Layout)} {held : List (String × Held)}
  {μ μ' : Memory} {walked : Code}

/-- The members as they have been read. -/
abbrev AreRead (members : Members) (layouts : List (String × Layout)) : Prop :=
  List.Forall₂ (fun m l => l.1 = m.1 ∧ l.2.tree = .ofJson m.2) members layouts

/-- **The loop over the keys** ends if the conversions of all values by themselves do.  It adds a
member for each key. -/
theorem loop_run (injective : Function.Injective (js.keyOfMoment kind))
    (values : Yields (convert .back d.shape (slotOf ⟨"k", n + 1⟩) (slotOf ⟨"k", n + 1⟩)) (n + 2)
      walked m)
    (read : AreRead members rest) (visiting : Visiting js kind address rest held μ) :
    ((∃ μ', (rest.map (·.1)).foldlM (turn js kind n walked) μ = .ok μ') ↔
        ∀ m ∈ members, ∃ α, ReadsTo js d m.2 α) ∧
      ∀ μ', (rest.map (·.1)).foldlM (turn js kind n walked) μ = .ok μ' →
        ∃ news, μ'.vars (.root "data") = .object address ∧
          μ'.objects address = ⟨false, held ++ news⟩ ∧
          List.Forall₂ (ConvertedEntry js kind d μ') members news ∧
          ∀ a, a ≠ address → (∀ m ∈ rest, ¬m.2.Uses a) → μ'.objects a = μ.objects a := by
  induction read generalizing held μ with
  | nil =>
    refine ⟨⟨fun _ => List.forall_mem_nil _, fun _ => ⟨μ, rfl⟩⟩, ?_⟩
    rintro μ' ⟨⟩
    exact ⟨[], visiting.data, by rw [List.append_nil]; exact visiting.dictionary, .nil,
      fun _ _ _ => rfl⟩
  | @cons member layout members rest first _ ih =>
    obtain ⟨_, j⟩ := member
    obtain ⟨name, L⟩ := layout
    obtain ⟨rfl, parsed⟩ := first
    obtain ⟨ends, converted⟩ := entry_run (visiting.entry n) parsed values
    rw [List.map_cons, List.foldlM_cons, visiting.turn_eq, List.forall_mem_cons, ← ends]
    cases ran : runAll js walked.body (moved js kind n address name L.held μ) with
    | error fault =>
      refine ⟨⟨?_, ?_⟩, ?_⟩
      · rintro ⟨_, ⟨⟩⟩
      · rintro ⟨⟨_, ⟨⟩⟩, _⟩
      · rintro _ ⟨⟩
    | ok μ₁ =>
      obtain ⟨x, agrees, same⟩ := converted μ₁ ran
      have written : (moved js kind n address name L.held μ).put
          (.member address (js.keyOfMoment kind name)) (some x) =
            moved js kind n address name x μ :=
        Memory.put_put _ _ _ _
      rw [written] at agrees
      obtain ⟨others, result⟩ := ih (visiting.next injective agrees)
      rw [ok_bind, others]
      refine ⟨⟨fun all => ⟨⟨μ₁, rfl⟩, all⟩, And.right⟩, fun μ' ran' => ?_⟩
      obtain ⟨news, data, dictionary, entries, frame⟩ := result μ' ran'
      have below := visiting.below _ (List.mem_cons_self ..)
      have apart := (List.pairwise_cons.1 visiting.apart).1
      refine ⟨(js.keyOfMoment kind name, x) :: news, data, ?_,
        .cons (convertedEntry fun α reads => ?_) entries, fun a ne free => ?_⟩
      · rw [dictionary, List.append_assoc, List.singleton_append]
      · -- the later turns do not touch the value
        have kept : ∀ a, L.Uses a → μ'.objects a = μ₁.objects a := by
          intro a used
          refine frame a ?_ fun m hm => apart m hm a used
          rintro rfl
          exact below used
        exact ((same α reads).frame kept).sameValue
      · rw [List.forall_mem_cons] at free
        rw [frame a ne free.2, agrees.objects a free.1, objects_moved_of_ne x ne]

end Loop

/-! ## The dictionary in the end -/

theorem areRead_of_trees {members : Members} {layouts : List (String × Layout)}
    (parsed : Layout.memberTrees layouts = Tree.ofMembers members) : AreRead members layouts := by
  rw [Layout.memberTrees_eq, Tree.ofMembers_eq, ← List.forall₂_eq_eq_eq,
    List.forall₂_map_left_iff, List.forall₂_map_right_iff] at parsed
  exact (parsed.imp fun _ _ same => Prod.mk.inj same).flip

/-- Before the first turn. -/
theorem visiting_start {js : Engine} {kind : TemporalKind} {address : Nat}
    {layouts : List (String × Layout)} {μ : Memory}
    (data : μ.vars (.root "data") = .object address)
    (fits : (Layout.node address false layouts).Fits μ.objects)
    (separate : (Layout.node address false layouts).Separate)
    (distinct : (layouts.map (·.1)).Nodup)
    (apart : ∀ text, js.keyOfMoment kind text ∉ layouts.map (·.1)) :
    Visiting js kind address layouts (Layout.heldMembers layouts) μ := by
  cases fits with
  | node here inner =>
    cases separate with
    | node above between within =>
      refine ⟨data, here, fun m hm => ?_, fun m _ => ?_, distinct, inner, within, above, between⟩
      · rw [Layout.heldMembers, lookup_map, lookup_eq_some_of_mem distinct hm, Option.map_some]
      · refine lookup_eq_none ?_
        rw [Layout.keys_heldMembers]
        exact apart m.1

/-- **Dictionaries whose keys are converted keep their old entries.**  Run on a dictionary that has
been read, the generated statements end if the conversions of all values by themselves do.  In the
end all the members that were sent are still there, followed by one more for each of them: under
the converted key it holds the converted value. -/
theorem entries_of_mapping {kind : TemporalKind} {value : Descriptor} {r next : Resolver}
    {code : Code}
    (accepted : Yields
      (Resolver.code .back (.mapping (.temporal kind) value) Caller.data Caller.data) r code next)
    (js : Engine) (injective : Function.Injective (js.keyOfMoment kind)) {members : Members}
    (distinct : (members.map (·.1)).Nodup)
    (apart : ∀ text, js.keyOfMoment kind text ∉ members.map (·.1)) {μ : Memory}
    (read : μ.HasRead "data" (.object members)) :
    ((∃ μ', runAll js code.body μ = .ok μ') ↔ ∀ m ∈ members, ∃ α, ReadsTo js value m.2 α) ∧
      ∀ μ', runAll js code.body μ = .ok μ' → ∃ address olds news,
        μ.vars (.root "data") = .object address ∧ μ.objects address = ⟨false, olds⟩ ∧
        μ'.vars (.root "data") = .object address ∧ μ'.objects address = ⟨false, olds ++ news⟩ ∧
        olds.map (·.1) = members.map (·.1) ∧
        List.Forall₂ (ConvertedEntry js kind value μ') members news ∧
        (olds ++ news).length = 2 * members.length := by
  obtain ⟨walked, values, body⟩ := body_of_mapping (yields_generating accepted)
  obtain ⟨L, held, fits, separate, parsed⟩ := read
  rw [Tree.ofJson] at parsed
  cases L with
  | atom => cases parsed
  | node address isArray layouts =>
    rw [Layout.tree, Tree.node.injEq] at parsed
    obtain ⟨rfl, parsed⟩ := parsed
    have areRead := areRead_of_trees parsed
    have names : layouts.map (·.1) = members.map (·.1) := by
      rw [← Layout.keys_memberTrees, parsed, Tree.ofMembers_eq, List.map_map]
      rfl
    rw [← names] at distinct apart
    let μ₁ := μ.put (.var (.temp ⟨"k", r.counter + 1⟩)) (some (.atom .undefined))
    have visiting : Visiting js kind address layouts (Layout.heldMembers layouts) μ₁ :=
      visiting_start held fits separate distinct apart
    have dictionary : μ.objects address = ⟨false, Layout.heldMembers layouts⟩ := visiting.dictionary
    have run : runAll js code.body μ =
        (layouts.map (·.1)).foldlM (turn js kind r.counter walked) μ₁ := by
      have keys : μ₁.keys (.object address) = layouts.map (·.1) := by
        rw [Memory.keys, visiting.dictionary, Layout.keys_heldMembers]
      have source : μ₁.value js Caller.data = .ok (.object address) :=
        congrArg Except.ok held
      rw [body, runAll_cons, Statement.run, ok_bind, runAll_singleton, Statement.run, source,
        ok_bind, keys]
      rfl
    obtain ⟨ends, result⟩ := loop_run injective values areRead visiting
    rw [run]
    refine ⟨ends, fun μ' ran => ?_⟩
    obtain ⟨news, data, after, entries, -⟩ := result μ' ran
    refine ⟨address, _, news, held, dictionary, data, after, ?_, entries, ?_⟩
    · rw [Layout.keys_heldMembers, names]
    · rw [List.length_append, ← entries.length_eq, Layout.heldMembers, List.length_map,
        ← areRead.length_eq, Nat.two_mul]

/-- A day under a day is a date object under its new key only, and stays a text under the old
one. -/
theorem entries_of_mapping_day :
    let days := Descriptor.mapping (.temporal .date) (.temporal .date)
    let js : Engine := ⟨fun _ text => "day " ++ text⟩
    let sent : Memory :=
      ⟨fun _ => .object 0, fun _ => ⟨false, [("2024-02-29", .atom (.string "2024-03-01"))]⟩, 1⟩
    ∃ code r next, Yields (Resolver.code .back days Caller.data Caller.data) r code next ∧
      ∃ μ', runAll js code.body sent = .ok μ' ∧
        (μ'.objects 0).members = [("2024-02-29", .atom (.string "2024-03-01")),
          ("day 2024-02-29", .atom (.moment .date "2024-03-01"))] := by
  intro days js sent
  obtain ⟨code, next, accepted⟩ : ∃ code next,
      Yields (Resolver.code .back days Caller.data Caller.data) .empty code next := ⟨_, _, rfl⟩
  let members : Members := [("2024-02-29", .string "2024-03-01")]
  have injective : Function.Injective (js.keyOfMoment .date) := fun s t same => by
    simpa [js, String.ext_iff] using same
  have distinct : (members.map (·.1)).Nodup := List.nodup_singleton _
  have apart : ∀ text, js.keyOfMoment .date text ∉ members.map (·.1) := by
    intro text same
    have letters := congrArg String.toList (List.mem_singleton.1 same)
    simp [js] at letters
  have read : sent.HasRead "data" (.object members) :=
    ⟨.node 0 false [("2024-02-29", .atom (.string "2024-03-01"))], rfl,
      .node rfl (List.forall_mem_singleton.2 (.atom _)),
      .node (List.forall_mem_singleton.2 Layout.not_uses_atom) (List.pairwise_singleton _ _)
        (List.forall_mem_singleton.2 (.atom _)), rfl⟩
  obtain ⟨α, reads, day⟩ : ∃ α, ReadsTo js (.temporal .date) (.string "2024-03-01") α ∧
      α.vars (.root "data") = .atom (.moment .date "2024-03-01") := by
    let alone : Memory := ⟨fun _ => .atom (.string "2024-03-01"), fun _ => ⟨false, []⟩, 0⟩
    have readAlone : alone.HasRead "data" (.string "2024-03-01") :=
      ⟨.atom (.string "2024-03-01"), rfl, .atom _, .atom _, rfl⟩
    exact ⟨_, ⟨.empty, _, _, alone, rfl, readAlone, rfl⟩, rfl⟩
  obtain ⟨ends, result⟩ := entries_of_mapping accepted js injective distinct apart read
  obtain ⟨μ', ran⟩ := ends.2 (List.forall_mem_singleton.2 ⟨α, reads⟩)
  obtain ⟨address, olds, news, held, there, -, after, -, entries, -⟩ := result μ' ran
  cases held
  cases there
  obtain ⟨⟨name, x⟩, _, ⟨key, -, looks⟩, none, rfl⟩ := List.forall₂_cons_left_iff.1 entries
  cases List.forall₂_nil_left_iff.1 none
  obtain ⟨L, rfl, -, tree⟩ := looks α _ reads ⟨.atom _, day, .atom _, rfl⟩
  cases key
  have value : L.held = .atom (.moment .date "2024-03-01") := Layout.held_eq_atom.2 tree
  refine ⟨code, .empty, next, accepted, μ', ran, ?_⟩
  rw [after, value]
  rfl

end RpcBridge.Client
