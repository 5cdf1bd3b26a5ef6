import RpcBridge.Procedure.Reading
import RpcBridge.Proofs.Descriptor.Document

/-!
# Proofs/Procedure/Document — documents of procedures

A document is made sense of while it is read, so a reader works on a draft of the text.  Two things
follow for what comes of a document.  Out of the draft of a set's own document comes the set
(`ofText_pretty_of_readsBack`).  And whatever the document is, its procedures come out under the
names it gives them, in its order: a part that has been read stays, and a second one of its kind is
refused.  So a document cannot be read in which two procedures have one name.

* `ProcedureSet.ofList_eq_ok` — a set is that of a list exactly when it holds the list;
* `ProcedureSet.ofText_pretty_of_readsBack` — a set is read from its own text;
* `Procedure.Names`, `ProcedureSet.Lists` — what a document lists, and under which names;
* `ProcedureSet.exists_error_of_names_twice` — no name is listed twice.
-/

namespace RpcBridge

open Json (Misfit Draft Fault)

theorem mem_cons_of_fst_ne {α β : Type} {a a' : α} {b b' : β} {rest : List (α × β)}
    (other : a ≠ a') : (a', b') ∈ (a, b) :: rest ↔ (a', b') ∈ rest := by
  rw [List.mem_cons, or_iff_right]
  rintro ⟨⟩
  exact other rfl

theorem stringOfDraft_of_read {levels : Nat} {draft : Draft} {s : String}
    (read : draft.read levels = .ok (.string s)) : stringOfDraft draft = .ok s := by
  obtain rfl := Json.eq_of_read_string read
  rfl

namespace Procedure

/-- The literals of the types of a procedure are read from what is written for them. -/
def ReadsBack (p : Procedure) : Prop := p.input.ReadsBack ∧ p.output.ReadsBack

variable {p : Procedure}

theorem once_none {α : Type} (name : String) (a : α) : once name none (.ok a) = .ok (some a) := rfl

theorem readsBack_toJson (back : p.ReadsBack) : p.toJson.ReadsBack :=
  .object (List.forall_mem_cons.2 ⟨.string p.name, List.forall_mem_cons.2
    ⟨Descriptor.readsBack_toJson back.1,
      List.forall_mem_singleton.2 (Descriptor.readsBack_toJson back.2)⟩⟩)

/-- **What a draft holds of a procedure is the procedure.** -/
theorem ofDraft_of_read (back : p.ReadsBack) {levels : Nat} {draft : Draft}
    (read : draft.read levels = .ok p.toJson) : ofDraft levels draft = .ok p := by
  obtain ⟨inner, opening, _, rfl, rfl, each⟩ := Json.exists_of_read_object read
  obtain _ | @⟨⟨_, name⟩, _, _, _, ⟨rfl, named⟩, each⟩ := each
  obtain _ | @⟨⟨_, input⟩, _, _, _, ⟨rfl, taken⟩, each⟩ := each
  obtain _ | @⟨⟨_, output⟩, _, _, _, ⟨rfl, given⟩, ⟨⟩⟩ := each
  have parts : readMembers inner ⟨none, none, none⟩
      [(.ok "name", name), (.ok "input", input), (.ok "output", output)] =
        .ok ⟨some p.name, some p.input, some p.output⟩ := by
    have known (s : String) : Json.wellFormed (.ok s) = .ok s := rfl
    have apart : "input" ≠ "name" ∧ "output" ≠ "name" ∧ "output" ≠ "input" := by decide
    simp only [readMembers, known, ok_bind, if_true, apart, if_false, once_none,
      stringOfDraft_of_read named, Descriptor.ofDraft_of_read back.1 taken,
      Descriptor.ofDraft_of_read back.2 given, pure_eq_ok]
  exact bind_eq_ok.2 ⟨inner, rfl, bind_eq_ok.2 ⟨_, parts, rfl⟩⟩

theorem listOfDraft_of_read {ps : List Procedure} (back : ∀ p ∈ ps, p.ReadsBack) {levels : Nat}
    {draft : Draft} (read : draft.read levels = .ok (.array (ps.map toJson))) :
    listOfDraft levels draft = .ok ps := by
  obtain ⟨inner, opening, items, rfl, rfl, each⟩ := Json.exists_of_read_array read
  rw [List.forall₂_map_right_iff] at each
  have known := (List.forall₂_and_left ps items).2 ⟨back, each.flip⟩
  have listed : items.mapM (ofDraft inner) = .ok ps :=
    mapM_eq_ok.2 (known.flip.imp fun _ _ h => ofDraft_of_read h.1 h.2)
  exact bind_eq_ok.2 ⟨inner, rfl, bind_eq_ok.2 ⟨ps, listed, rfl⟩⟩

end Procedure

namespace ProcedureSet

/-! ## Sets of lists -/

theorem insert?_eq_some {s t : ProcedureSet} {p : Procedure} :
    s.insert? p = some t ↔ p.name ∉ s.names ∧ t.procedures = s.procedures ++ [p] := by
  cases t
  rw [insert?]
  split
  · next taken => exact ⟨nofun, fun h => absurd taken h.1⟩
  · next fresh => simp [names, fresh, eq_comm]

theorem insert?_eq_none {s : ProcedureSet} {p : Procedure} :
    s.insert? p = none ↔ p.name ∈ s.names := by
  rw [insert?]
  split
  · next taken => exact iff_of_true rfl taken
  · next fresh => exact iff_of_false nofun fresh

theorem ofList_concat {ps : List Procedure} {p : Procedure} {s : ProcedureSet} :
    ofList (ps ++ [p]) = .ok s ↔ ∃ t, ofList ps = .ok t ∧ t.insert? p = some s := by
  rw [ofList, List.foldlM_append, bind_eq_ok]
  refine exists_congr fun t => and_congr_right fun _ => ?_
  rw [List.foldlM_cons]
  cases t.insert? p <;> simp

/-- **A set is that of a list exactly when it holds the list.** -/
theorem ofList_eq_ok {ps : List Procedure} {s : ProcedureSet} :
    ofList ps = .ok s ↔ s.procedures = ps := by
  induction ps using List.reverseRecOn generalizing s with
  | nil =>
    obtain ⟨ps, distinct⟩ := s
    constructor
    · rintro ⟨⟩
      rfl
    · rintro rfl
      rfl
  | append_singleton ps p ih =>
    simp only [ofList_concat, insert?_eq_some, ih]
    constructor
    · rintro ⟨t, rfl, -, listed⟩
      exact listed
    · intro listed
      have distinct := s.distinct
      rw [listed, List.map_append, List.nodup_append] at distinct
      refine ⟨⟨ps, distinct.1⟩, rfl, fun taken => ?_, listed⟩
      exact distinct.2.2 _ taken _ (List.mem_singleton_self p.name) rfl

/-! ## Documents of sets -/

/-- The literals of the types of all procedures are read from what is written for them. -/
def ReadsBack (s : ProcedureSet) : Prop := ∀ p ∈ s.procedures, p.ReadsBack

theorem readsBack_toJson {s : ProcedureSet} (back : s.ReadsBack) : s.toJson.ReadsBack :=
  .object (List.forall_mem_singleton.2 (.array
    (List.forall_mem_map.2 fun p hp => Procedure.readsBack_toJson (back p hp))))

/-- **What a draft holds of a set is the set.** -/
theorem ofDraft_of_read {s : ProcedureSet} (back : s.ReadsBack) {draft : Draft}
    (read : draft.read Json.maxLevels = .ok s.toJson) : ofDraft draft = .ok s := by
  obtain ⟨inner, opening, _, enough, rfl, each⟩ := Json.exists_of_read_object read
  obtain _ | @⟨⟨_, list⟩, _, _, _, ⟨rfl, taken⟩, ⟨⟩⟩ := each
  have listed : readMembers inner none [(.ok "procedures", list)] = .ok s.procedures := by
    have procedures := Procedure.listOfDraft_of_read back taken
    rw [readMembers, Json.wellFormed_eq_ok.2 rfl, ok_bind, if_pos rfl, procedures,
      Procedure.once_none]
    rfl
  have whole : listOfDraft Json.maxLevels (.object opening [(.ok "procedures", list)] none) =
      .ok s.procedures := by
    rw [enough]
    exact bind_eq_ok.2 ⟨inner, rfl, bind_eq_ok.2 ⟨_, listed, rfl⟩⟩
  refine bind_eq_ok.2 ⟨_, whole, ?_⟩
  rw [ofList_eq_ok.2 rfl]

/-- **A set is read from its own text.** -/
theorem ofText_pretty_of_readsBack {s : ProcedureSet} (back : s.ReadsBack)
    (flat : s.toJson.depth ≤ Json.maxLevels) : ofText s.pretty = .ok s := by
  obtain ⟨draft, read, whole⟩ := Json.exists_readText_pretty (readsBack_toJson back)
  exact (whole ofDraft).trans (ofDraft_of_read back (read _ flat))

end ProcedureSet

/-! ## Names in a document -/

namespace Procedure

/-- A draft gives a procedure a name: in a member, or as its first item. -/
inductive Names : Draft → String → Prop where
  | member {opening : Place} {members : List (Except Fault String × Draft)}
      {unclosed? : Option Json.Cut} {name : String}
      (h : (.ok "name", .string (.ok name)) ∈ members) :
      Names (.object opening members unclosed?) name
  | first (opening : Place) (name : String) (rest : List Draft) (unclosed? : Option Json.Cut) :
      Names (.array opening (.string (.ok name) :: rest) unclosed?) name

theorem once_eq_ok {α : Type} {name : String} {part? next : Option α}
    {read : Except Json.ReadError α} :
    once name part? read = .ok next ↔ part? = none ∧ ∃ a, read = .ok a ∧ next = some a := by
  cases part? with
  | some a => simp [once]
  | none => cases read <;> simp [once, Except.map, eq_comm]

/-- What a member does to the name: it gives the name that is not there yet, or leaves it. -/
theorem readMembers_cons {levels : Nat} {key : Except Fault String} {d : Draft}
    {rest : List (Except Fault String × Draft)} {parts read : Parts}
    (h : readMembers levels parts ((key, d) :: rest) = .ok read) :
    ∃ next, readMembers levels next rest = .ok read ∧
      ((key = .ok "name" ∧ parts.name? = none ∧
          ∃ s, stringOfDraft d = .ok s ∧ next.name? = some s) ∨
        (key ≠ .ok "name" ∧ next.name? = parts.name?)) := by
  rw [readMembers] at h
  obtain ⟨name, known, step⟩ := bind_eq_ok.1 h
  obtain rfl := Json.wellFormed_eq_ok.1 known
  dsimp only at step
  split at step
  · next same =>
    obtain ⟨part, taken, rest⟩ := bind_eq_ok.1 step
    obtain ⟨fresh, s, held, rfl⟩ := once_eq_ok.1 taken
    exact ⟨_, rest, .inl ⟨congrArg _ same, fresh, s, held, rfl⟩⟩
  · next other =>
    have other : (.ok name : Except Fault String) ≠ .ok "name" :=
      fun same => other (by injection same)
    split at step
    · obtain ⟨part, -, rest⟩ := bind_eq_ok.1 step
      exact ⟨_, rest, .inr ⟨other, rfl⟩⟩
    · split at step
      · obtain ⟨part, -, rest⟩ := bind_eq_ok.1 step
        exact ⟨_, rest, .inr ⟨other, rfl⟩⟩
      · obtain ⟨-, -, rest⟩ := bind_eq_ok.1 step
        exact ⟨_, rest, .inr ⟨other, rfl⟩⟩

/-- **A procedure is read with the name that a member gives it**, and no second member gives it
one. -/
theorem name_of_readMembers {levels : Nat} {members : List (Except Fault String × Draft)}
    {parts read : Parts} (h : readMembers levels parts members = .ok read) :
    (∀ s, parts.name? = some s → read.name? = some s ∧ ∀ d, (.ok "name", d) ∉ members) ∧
      ∀ d, (.ok "name", d) ∈ members → ∃ s, stringOfDraft d = .ok s ∧ read.name? = some s := by
  induction members generalizing parts with
  | nil =>
    cases h
    exact ⟨fun s named => ⟨named, fun _ => List.not_mem_nil⟩, fun _ => nofun⟩
  | cons m rest ih =>
    obtain ⟨key, d⟩ := m
    obtain ⟨next, step, ⟨rfl, fresh, s, held, named⟩ | ⟨other, same⟩⟩ := readMembers_cons h
    · obtain ⟨stays, without⟩ := (ih step).1 s named
      refine ⟨fun t there => ?_, fun d' hd => ?_⟩
      · rw [fresh] at there
        cases there
      · rcases List.mem_cons.1 hd with same | hd
        · cases same
          exact ⟨s, held, stays⟩
        · exact absurd hd (without d')
    · rw [← same]
      simpa only [mem_cons_of_fst_ne other] using ih step

theorem name_of_ofDraft {levels : Nat} {draft : Draft} {p : Procedure} {name : String}
    (h : ofDraft levels draft = .ok p) (names : Names draft name) : p.name = name := by
  cases names with
  | member there =>
    obtain ⟨inner, -, h⟩ := bind_eq_ok.1 h
    obtain ⟨read, members, h⟩ := bind_eq_ok.1 h
    obtain ⟨-, -, h⟩ := bind_eq_ok.1 h
    obtain ⟨s, required, h⟩ := bind_eq_ok.1 h
    obtain ⟨input, -, h⟩ := bind_eq_ok.1 h
    obtain ⟨output, -, ⟨⟩⟩ := bind_eq_ok.1 h
    obtain ⟨t, ⟨⟩, named⟩ := (name_of_readMembers members).2 _ there
    rw [named] at required
    cases required
    rfl
  | first opening name rest unclosed? =>
    obtain ⟨inner, -, h⟩ := bind_eq_ok.1 h
    obtain ⟨_, ⟨⟩, h⟩ := bind_eq_ok.1 h
    obtain ⟨s, ⟨⟩, h⟩ := bind_eq_ok.1 h
    obtain ⟨_, -, h⟩ := bind_eq_ok.1 h
    obtain ⟨input, -, h⟩ := bind_eq_ok.1 h
    obtain ⟨_, -, h⟩ := bind_eq_ok.1 h
    obtain ⟨output, -, h⟩ := bind_eq_ok.1 h
    obtain ⟨-, -, ⟨⟩⟩ := bind_eq_ok.1 h
    rfl

/-- Procedures are read one by one. -/
theorem forall₂_of_listOfDraft {levels : Nat} {opening : Place} {items : List Draft}
    {unclosed? : Option Json.Cut} {ps : List Procedure}
    (h : listOfDraft levels (.array opening items unclosed?) = .ok ps) :
    ∃ inner, List.Forall₂ (fun d p => ofDraft inner d = .ok p) items ps := by
  obtain ⟨inner, -, h⟩ := bind_eq_ok.1 h
  obtain ⟨read, each, h⟩ := bind_eq_ok.1 h
  obtain ⟨-, -, ⟨⟩⟩ := bind_eq_ok.1 h
  exact ⟨inner, mapM_eq_ok.1 each⟩

end Procedure

namespace ProcedureSet

/-- A draft of a document lists drafts of procedures: in a member, or as its first item. -/
inductive Lists : Draft → List Draft → Prop where
  | member {opening inner : Place} {members : List (Except Fault String × Draft)}
      {unclosed? cut? : Option Json.Cut} {items : List Draft}
      (h : (.ok "procedures", .array inner items cut?) ∈ members) :
      Lists (.object opening members unclosed?) items
  | first (opening inner : Place) (items rest : List Draft) (unclosed? cut? : Option Json.Cut) :
      Lists (.array opening (.array inner items cut? :: rest) unclosed?) items

/-- **The procedures are those that a member lists**, and no second member lists any. -/
theorem listed_of_readMembers {levels : Nat} {members : List (Except Fault String × Draft)}
    {listed? : Option (List Procedure)} {ps : List Procedure}
    (h : readMembers levels listed? members = .ok ps) :
    (∀ qs, listed? = some qs → ps = qs ∧ ∀ d, (.ok "procedures", d) ∉ members) ∧
      ∀ d, (.ok "procedures", d) ∈ members → Procedure.listOfDraft levels d = .ok ps := by
  induction members generalizing listed? with
  | nil =>
    cases h
    refine ⟨?_, fun _ => nofun⟩
    rintro qs rfl
    exact ⟨rfl, fun _ => List.not_mem_nil⟩
  | cons m rest ih =>
    obtain ⟨key, d⟩ := m
    rw [readMembers] at h
    obtain ⟨name, known, step⟩ := bind_eq_ok.1 h
    obtain rfl := Json.wellFormed_eq_ok.1 known
    split at step
    · next same =>
      subst same
      obtain ⟨next, taken, others⟩ := bind_eq_ok.1 step
      obtain ⟨rfl, qs, held, rfl⟩ := Procedure.once_eq_ok.1 taken
      obtain ⟨rfl, without⟩ := (ih others).1 qs rfl
      refine ⟨nofun, fun d' hd => ?_⟩
      rcases List.mem_cons.1 hd with same | hd
      · cases same
        exact held
      · exact absurd hd (without d')
    · next other =>
      obtain ⟨-, -, others⟩ := bind_eq_ok.1 step
      have other : (.ok name : Except Fault String) ≠ .ok "procedures" :=
        fun same => other (by injection same)
      simpa only [mem_cons_of_fst_ne other] using ih others

/-- What a document lists is what is read from it. -/
theorem listed_of_listOfDraft {levels : Nat} {draft : Draft} {items : List Draft}
    {ps : List Procedure} (h : listOfDraft levels draft = .ok ps) (lists : Lists draft items) :
    ∃ inner, List.Forall₂ (fun d p => Procedure.ofDraft inner d = .ok p) items ps := by
  cases lists with
  | member there =>
    obtain ⟨inner, -, h⟩ := bind_eq_ok.1 h
    obtain ⟨read, members, h⟩ := bind_eq_ok.1 h
    obtain ⟨-, -, ⟨⟩⟩ := bind_eq_ok.1 h
    exact Procedure.forall₂_of_listOfDraft ((listed_of_readMembers members).2 _ there)
  | first opening place _ rest unclosed? cut? =>
    obtain ⟨inner, -, h⟩ := bind_eq_ok.1 h
    obtain ⟨read, listed, h⟩ := bind_eq_ok.1 h
    obtain ⟨-, -, ⟨⟩⟩ := bind_eq_ok.1 h
    exact Procedure.forall₂_of_listOfDraft listed

theorem ofDraft_eq_ok {draft : Draft} {s : ProcedureSet} (h : ofDraft draft = .ok s) :
    listOfDraft Json.maxLevels draft = .ok s.procedures := by
  obtain ⟨listed, read, h⟩ := bind_eq_ok.1 h
  split at h
  · next t same =>
    cases h
    rw [read, ofList_eq_ok.1 same]
  · cases h

/-- What is listed in a document that is read has the names of the set, item by item. -/
theorem name_of_ofDraft {draft : Draft} {s : ProcedureSet} (h : ofDraft draft = .ok s)
    {items : List Draft} (lists : Lists draft items) {i : Nat} {d : Draft} (hd : items[i]? = some d)
    {name : String} (names : Procedure.Names d name) : s.names[i]? = some name := by
  obtain ⟨inner, each⟩ := listed_of_listOfDraft (ofDraft_eq_ok h) lists
  obtain ⟨length, each⟩ := List.forall₂_iff_get.1 each
  obtain ⟨inside, rfl⟩ := List.getElem?_eq_some_iff.1 hd
  have named := Procedure.name_of_ofDraft (each i inside (length ▸ inside)) names
  rw [ProcedureSet.names, List.getElem?_map, List.getElem?_eq_getElem (length ▸ inside)]
  exact congrArg some named

/-- **A document that lists two procedures of one name is not read.** -/
theorem exists_error_of_names_twice {draft : Draft} {items : List Draft}
    (lists : Lists draft items) {i j : Nat} (apart : i ≠ j) {d d' : Draft}
    (hd : items[i]? = some d) (hd' : items[j]? = some d')
    {name : String} (names : Procedure.Names d name) (names' : Procedure.Names d' name) :
    ∃ e, ofDraft draft = .error e := by
  cases h : ofDraft draft with
  | error e => exact ⟨e, rfl⟩
  | ok s =>
    have there := name_of_ofDraft h lists hd names
    have again := name_of_ofDraft h lists hd' names'
    obtain ⟨inside, -⟩ := List.getElem?_eq_some_iff.1 there
    exact absurd ((List.getElem?_inj inside s.distinct).1 (there.trans again.symm)) apart

end ProcedureSet

end RpcBridge
