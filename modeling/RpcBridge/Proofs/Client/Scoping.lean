import RpcBridge.Proofs.Client.Changes
import RpcBridge.Proofs.Client.Exporting

/-!
# Proofs/Client/Scoping — the variables of generated code

Temporaries are numbered through a whole client, and a number that is taken is never given out
again, so no two of them have one name (`temps_of_exportClient`).  What a statement names is a
parameter of its function, or a temporary that a loop around it or a declaration in front of it has
introduced.

* `Statement.Scoped` — every variable of a statement is in scope;
* `Numbered` — temporaries of distinct numbers between two bounds;
* `scoped_of_convert`, `numbered_of_convert` — both, of the code of a shape.
-/

namespace RpcBridge.Client

/-! ## Variables in scope -/

/-- The variables of a place: where it starts, and what its keys are taken from. -/
def Place.variables : Place → List Variable
  | .root name => [.root name]
  | .temp t => [.temp t]
  | .field p _ | .item p _ => p.variables
  | .slot p t => .temp t :: p.variables

/-- The variables of an operand. -/
def Operand.variables : Operand → List Variable
  | .place p | .converted _ p => p.variables
  | .emptyObject | .emptyArray => []

namespace Statement

/-- What a statement declares for the rest of its block. -/
def declares : Statement → List Temp
  | .declare t => [t]
  | _ => []

mutual

/-- The temporaries that a statement introduces, whether for a block or for a loop. -/
def introduces : Statement → List Temp
  | .assign _ _ => []
  | .declare t => [t]
  | .forKeys t _ body => t :: introducesAll body
  | .unlessUndefined _ body | .unlessNull _ _ body => introducesAll body

/-- The temporaries that statements introduce. -/
def introducesAll : List Statement → List Temp
  | [] => []
  | s :: rest => s.introduces ++ introducesAll rest

end

mutual

/-- Every variable of a statement is in scope: it is given, or it belongs to a loop around the place
where it is used, or it has been declared before in a block around that place. -/
def Scoped (scope : List Variable) : Statement → Prop
  | .assign target value => target.variables ⊆ scope ∧ value.variables ⊆ scope
  | .declare _ => True
  | .forKeys t p body => p.variables ⊆ scope ∧ ScopedAll (.temp t :: scope) body
  | .unlessUndefined p body => p.variables ⊆ scope ∧ ScopedAll scope body
  | .unlessNull source target body =>
    source.variables ⊆ scope ∧ target.variables ⊆ scope ∧ ScopedAll scope body

/-- Every variable of the statements of a block is in scope. -/
def ScopedAll (scope : List Variable) : List Statement → Prop
  | [] => True
  | s :: rest => s.Scoped scope ∧ ScopedAll (s.declares.map .temp ++ scope) rest

end

theorem introducesAll_append (front rest : List Statement) :
    introducesAll (front ++ rest) = introducesAll front ++ introducesAll rest := by
  induction front with
  | nil => rfl
  | cons s front ih => rw [List.cons_append, introducesAll, introducesAll, ih, List.append_assoc]

mutual

theorem Scoped.mono : ∀ (s : Statement) {scope wider : List Variable}, scope ⊆ wider →
    s.Scoped scope → s.Scoped wider
  | .assign _ _, _, _, subset, h => ⟨List.Subset.trans h.1 subset, List.Subset.trans h.2 subset⟩
  | .declare _, _, _, _, _ => trivial
  | .forKeys _ _ body, _, _, subset, h =>
    ⟨List.Subset.trans h.1 subset,
      ScopedAll.mono body (List.cons_subset_cons _ subset) h.2⟩
  | .unlessUndefined _ body, _, _, subset, h =>
    ⟨List.Subset.trans h.1 subset, ScopedAll.mono body subset h.2⟩
  | .unlessNull _ _ body, _, _, subset, h =>
    ⟨List.Subset.trans h.1 subset, List.Subset.trans h.2.1 subset,
      ScopedAll.mono body subset h.2.2⟩

/-- What is in scope stays in scope when there is more of it. -/
theorem ScopedAll.mono : ∀ (body : List Statement) {scope wider : List Variable},
    scope ⊆ wider → ScopedAll scope body → ScopedAll wider body
  | [], _, _, _, _ => trivial
  | s :: rest, _, _, subset, h => ⟨Scoped.mono s subset h.1,
    ScopedAll.mono rest
      (List.append_subset.2
        ⟨List.subset_append_left _ _, List.subset_append_of_subset_right _ subset⟩) h.2⟩

end

theorem ScopedAll.append {scope : List Variable} {front rest : List Statement}
    (first : ScopedAll scope front) (second : ScopedAll scope rest) :
    ScopedAll scope (front ++ rest) := by
  induction front generalizing scope with
  | nil => exact second
  | cons s front ih => exact ⟨first.1, ih first.2 (second.mono rest (List.subset_append_right _ _))⟩

end Statement

section Scopes

variable {scope : List Variable} {direction : Direction} {source target : Place} {n m : Nat}
  {code : Code}

theorem scoped_copy (hsource : source.variables ⊆ scope) (htarget : target.variables ⊆ scope) :
    Statement.ScopedAll scope (Code.copy source target).body := by
  unfold Code.copy
  split
  · trivial
  · exact ⟨⟨htarget, hsource⟩, trivial⟩

/-- A fresh container only names the place it is made for. -/
theorem scoped_fresh (htarget : target.variables ⊆ scope) {container : Operand}
    (empty : container.variables = []) :
    Statement.ScopedAll scope (Code.fresh direction target container) := by
  cases direction with
  | out => exact ⟨⟨htarget, empty ▸ List.nil_subset _⟩, trivial⟩
  | back => trivial

/-- A slot whose key is a temporary in scope. -/
theorem subset_slot {p : Place} {t : Temp} (there : .temp t ∈ scope) (h : p.variables ⊆ scope) :
    (Place.slot p t).variables ⊆ scope :=
  List.cons_subset.2 ⟨there, h⟩

theorem scoped_ofMoved {inPlace : Code} (hsource : source.variables ⊆ scope)
    (htarget : target.variables ⊆ scope) (inner : Statement.ScopedAll scope inPlace.body) :
    Statement.ScopedAll scope (Code.ofMoved source target inPlace).body := by
  unfold Code.ofMoved
  split
  · exact ⟨⟨htarget, hsource⟩, inner⟩
  · exact scoped_copy hsource htarget

theorem scoped_ofMapping {key prepared : Temp} {keys values : Code}
    (hsource : source.variables ⊆ scope) (htarget : target.variables ⊆ scope)
    (hkeys : Statement.ScopedAll (.temp key :: .temp prepared :: scope) keys.body)
    (hvalues : Statement.ScopedAll (.temp key :: .temp prepared :: scope) values.body) :
    Statement.ScopedAll scope
      (Code.ofMapping direction key prepared source target keys values).body := by
  unfold Code.ofMapping
  split
  · -- the loop stands behind the declaration of the prepared key
    refine ⟨trivial, .append (scoped_fresh ?_ rfl) ⟨⟨?_, hkeys.append hvalues⟩, trivial⟩⟩
    · exact List.subset_cons_of_subset _ htarget
    · exact List.subset_cons_of_subset _ hsource
  · exact scoped_copy hsource htarget

/-- In the loop over a dictionary, the key it runs over and the prepared one are in scope. -/
theorem scoped_mapping {key value : Shape}
    (keys : ∀ {scope : List Variable} {source target : Place} {n m : Nat} {code : Code},
      source.variables ⊆ scope → target.variables ⊆ scope →
      Yields (convert direction key source target) n code m → Statement.ScopedAll scope code.body)
    (values : ∀ {scope : List Variable} {source target : Place} {n m : Nat} {code : Code},
      source.variables ⊆ scope → target.variables ⊆ scope →
      Yields (convert direction value source target) n code m →
      Statement.ScopedAll scope code.body)
    (hsource : source.variables ⊆ scope) (htarget : target.variables ⊆ scope)
    (h : Yields (convert direction (.mapping key value) source target) n code m) :
    Statement.ScopedAll scope code.body := by
  let inside := Variable.temp ⟨"k", n⟩ :: Variable.temp ⟨"k", n + 1⟩ :: scope
  have here : Variable.temp ⟨"k", n⟩ ∈ inside := List.mem_cons_self ..
  have there : Variable.temp ⟨"k", n + 1⟩ ∈ inside :=
    List.mem_cons_of_mem _ (List.mem_cons_self ..)
  have outer : scope ⊆ inside := List.subset_append_right [_, _] scope
  have single {x : Variable} (hx : x ∈ inside) : [x] ⊆ inside :=
    List.cons_subset.2 ⟨hx, List.nil_subset _⟩
  have ofSource := subset_slot here (List.Subset.trans hsource outer)
  have ofTarget := subset_slot there (List.Subset.trans htarget outer)
  obtain ⟨key, between, walked, generated, walk⟩ := convert_mapping h
  have hkeys : Statement.ScopedAll inside key.body := by
    refine keys ?_ ?_ generated
    · exact single here
    · exact single there
  rcases walk with ⟨-, value, rfl⟩ | ⟨-, value, rfl⟩
  · exact scoped_ofMapping hsource htarget hkeys (values ofSource ofTarget value)
  · exact scoped_ofMapping hsource htarget hkeys
      (scoped_ofMoved ofSource ofTarget (values ofTarget ofTarget value))

/-- **Every variable of generated code is in scope** where those of its places are. -/
theorem scoped_of_convert {s : Shape} (hsource : source.variables ⊆ scope)
    (htarget : target.variables ⊆ scope)
    (h : Yields (convert direction s source target) n code m) :
    Statement.ScopedAll scope code.body := by
  induction s generalizing scope source target n code m with
  | scalar =>
    rw [(convert_scalar h).1]
    exact scoped_copy hsource htarget
  | enum =>
    rw [(convert_enum h).1]
    exact scoped_copy hsource htarget
  | temporal =>
    rw [(convert_temporal h).1]
    exact ⟨⟨htarget, hsource⟩, trivial⟩
  | list element ih =>
    obtain ⟨inner, generated, rfl⟩ := convert_list h
    have index : Variable.temp ⟨"i", n⟩ ∈ Variable.temp ⟨"i", n⟩ :: scope := List.mem_cons_self ..
    have body := ih (subset_slot index (List.subset_cons_of_subset _ hsource))
      (subset_slot index (List.subset_cons_of_subset _ htarget)) generated
    unfold Code.ofList
    split
    · exact .append (scoped_fresh htarget rfl) ⟨⟨hsource, body⟩, trivial⟩
    · exact scoped_copy hsource htarget
  | mapping key value ihKey ihValue => exact scoped_mapping ihKey ihValue hsource htarget h
  | tuple items ih =>
    obtain ⟨inner, generated, rfl⟩ := convert_tuple h
    have body := convertItems_walk (P := fun _ body _ => Statement.ScopedAll scope body)
      (fun _ => trivial) Statement.ScopedAll.append (fun s hs => ih s hs hsource htarget) generated
    rcases body_ofTuple direction source target inner with copied | built
    · rw [copied]
      exact scoped_copy hsource htarget
    · rw [built]
      exact .append (scoped_fresh htarget rfl) body
  | optional inner ih =>
    obtain ⟨present, generated, rfl⟩ := convert_optional h
    have body := ih hsource htarget generated
    cases direction with
    | out => exact ⟨⟨hsource, body⟩, trivial⟩
    | back => exact ⟨⟨hsource, htarget, body⟩, trivial⟩
  | record name fields ih =>
    obtain ⟨inner, generated, rfl⟩ := convert_record h
    refine .append (scoped_fresh htarget rfl) ?_
    exact convertFields_walk (P := fun _ body _ => Statement.ScopedAll scope body)
      (fun _ => trivial) Statement.ScopedAll.append (fun f hf => ih f hf hsource htarget) generated
  | wrapper _ _ inner ih => exact ih hsource htarget (convert_wrapper h)
  | opened _ _ fields ih =>
    obtain ⟨field, inner, rfl, generated⟩ := convert_opened h
    exact ih _ (List.mem_singleton.2 rfl) hsource htarget generated
  | bareTemplate => exact (convert_bareTemplate h).elim
  | blocked => exact (convert_blocked h).elim

end Scopes

/-! ## Numbers -/

/-- The letter of a temporary that is made for an index or a key. -/
def Temp.Lettered (t : Temp) : Prop := t.letter = "i" ∨ t.letter = "k"

theorem Temp.Lettered.exists_char {t : Temp} (h : t.Lettered) :
    ∃ c : Char, c.isDigit = false ∧ t.letter.toList = [c] := by
  rcases h with h | h
  · exact ⟨'i', rfl, congrArg String.toList h⟩
  · exact ⟨'k', rfl, congrArg String.toList h⟩

/-- **Temporaries of different numbers have different names**, and so have those of different
letters. -/
theorem Temp.name_injective {s t : Temp} (hs : s.Lettered) (ht : t.Lettered)
    (h : s.name = t.name) : s = t := by
  obtain ⟨c, hc, first⟩ := hs.exists_char
  obtain ⟨d, hd, second⟩ := ht.exists_char
  have digits (n : Nat) : (toString n).toList = Nat.toDigits 10 n := Nat.toList_repr
  have texts := congrArg String.toList h
  rw [Temp.name, Temp.name, String.toList_append, String.toList_append, first, second, digits,
    digits, List.singleton_append, List.singleton_append] at texts
  have letters : s.letter = t.letter := by
    rw [← String.toList_inj, first, second, (List.cons.inj texts).1]
  have numbers : s.number = t.number := @Place.digits_of_append [] [] _ _ _ _ hc hd texts
  cases s
  cases t
  obtain rfl := letters
  obtain rfl := numbers
  rfl

/-- Temporaries of distinct numbers, from a lower bound up to below an upper one. -/
structure Numbered (n : Nat) (ts : List Temp) (m : Nat) : Prop where
  le : n ≤ m
  lettered : ∀ t ∈ ts, t.Lettered
  lower : ∀ t ∈ ts, n ≤ t.number
  upper : ∀ t ∈ ts, t.number < m
  distinct : (ts.map (·.number)).Nodup

namespace Numbered

variable {n k m : Nat} {ts us : List Temp}

theorem none (le : n ≤ m) : Numbered n [] m :=
  ⟨le, List.forall_mem_nil _, List.forall_mem_nil _, List.forall_mem_nil _, List.nodup_nil⟩

theorem one {t : Temp} (lettered : t.Lettered) : Numbered t.number [t] (t.number + 1) where
  le := Nat.le_succ _
  lettered := List.forall_mem_singleton.2 lettered
  lower := List.forall_mem_singleton.2 (Nat.le_refl _)
  upper := List.forall_mem_singleton.2 (Nat.lt_succ_self _)
  distinct := List.nodup_singleton _

/-- Temporaries whose numbers follow each other. -/
theorem append (first : Numbered n ts k) (second : Numbered k us m) : Numbered n (ts ++ us) m where
  le := Nat.le_trans first.le second.le
  lettered := List.forall_mem_append.2 ⟨first.lettered, second.lettered⟩
  lower := List.forall_mem_append.2
    ⟨first.lower, fun t ht => Nat.le_trans first.le (second.lower t ht)⟩
  upper := List.forall_mem_append.2
    ⟨fun t ht => Nat.lt_of_lt_of_le (first.upper t ht) second.le, second.upper⟩
  distinct := by
    rw [List.map_append, List.nodup_append]
    refine ⟨first.distinct, second.distinct, ?_⟩
    intro a ha b hb same
    obtain ⟨t, ht, rfl⟩ := List.mem_map.1 ha
    obtain ⟨u, hu, rfl⟩ := List.mem_map.1 hb
    have := first.upper t ht
    have := second.lower u hu
    omega

theorem perm (h : Numbered n ts m) (same : ts.Perm us) : Numbered n us m where
  le := h.le
  lettered t ht := h.lettered t (same.mem_iff.2 ht)
  lower t ht := h.lower t (same.mem_iff.2 ht)
  upper t ht := h.upper t (same.mem_iff.2 ht)
  distinct := (same.map _).nodup_iff.1 h.distinct

/-- Temporaries of distinct numbers have distinct names. -/
theorem names (h : Numbered n ts m) : (ts.map Temp.name).Nodup :=
  List.Nodup.map_on
    (fun s hs t ht same => Temp.name_injective (h.lettered s hs) (h.lettered t ht) same)
    h.distinct.of_map

end Numbered

section Numbering

variable {direction : Direction} {source target : Place} {n m : Nat} {code : Code}

open Statement

theorem introducesAll_fresh (direction : Direction) (target : Place) (container : Operand) :
    introducesAll (Code.fresh direction target container) = [] := by
  cases direction <;> rfl

theorem numbered_copy (source target : Place) (le : n ≤ m) :
    Numbered n (introducesAll (Code.copy source target).body) m := by
  unfold Code.copy
  split <;> exact .none le

/-- A loop over a dictionary introduces the prepared key and the key it runs over, then what its
block introduces. -/
theorem numbered_ofMapping {between : Nat} {keys values : Code}
    (hkeys : Numbered (n + 2) (introducesAll keys.body) between)
    (hvalues : Numbered between (introducesAll values.body) m) :
    Numbered n (introducesAll (Code.ofMapping direction ⟨"k", n⟩ ⟨"k", n + 1⟩ source target keys
      values).body) m := by
  have block := hkeys.append hvalues
  unfold Code.ofMapping
  split
  · have temps := (Numbered.one (t := ⟨"k", n⟩) (.inr rfl)).append
      (Numbered.one (t := ⟨"k", n + 1⟩) (.inr rfl))
    rw [List.cons_append, introducesAll, introducesAll_append, introducesAll_fresh,
      List.nil_append, introducesAll, introducesAll, List.append_nil, introduces, introduces,
      introducesAll_append]
    exact (temps.append block).perm (.swap _ _ _)
  · exact numbered_copy _ _ (by have := block.le; omega)

/-- **The temporaries of generated code** have distinct numbers, those that the code has taken. -/
theorem numbered_of_convert {s : Shape} (h : Yields (convert direction s source target) n code m) :
    Numbered n (introducesAll code.body) m := by
  have le := convert_le h
  induction s generalizing source target n code m with
  | scalar =>
    rw [(convert_scalar h).1]
    exact numbered_copy _ _ le
  | enum =>
    rw [(convert_enum h).1]
    exact numbered_copy _ _ le
  | temporal =>
    rw [(convert_temporal h).1]
    exact .none le
  | list element ih =>
    obtain ⟨inner, generated, rfl⟩ := convert_list h
    unfold Code.ofList
    split
    · rw [introducesAll_append, introducesAll_fresh, List.nil_append, introducesAll,
        introducesAll, List.append_nil, introduces]
      exact (Numbered.one (t := ⟨"i", n⟩) (.inl rfl)).append (ih generated (convert_le generated))
    · exact numbered_copy _ _ le
  | mapping key value ihKey ihValue =>
    obtain ⟨keys, between, walked, generated, walk⟩ := convert_mapping h
    have hkeys := ihKey generated (convert_le generated)
    rcases walk with ⟨-, values, rfl⟩ | ⟨-, values, rfl⟩
    · exact numbered_ofMapping hkeys (ihValue values (convert_le values))
    · refine numbered_ofMapping hkeys ?_
      have moved := ihValue values (convert_le values)
      unfold Code.ofMoved
      split
      · exact moved
      · exact numbered_copy _ _ moved.le
  | tuple items ih =>
    obtain ⟨inner, generated, rfl⟩ := convert_tuple h
    have body := convertItems_walk (P := fun n body m => Numbered n (introducesAll body) m)
      (fun n => .none (Nat.le_refl n))
      (fun first second => introducesAll_append _ _ ▸ first.append second)
      (fun s hs _ _ _ _ h => ih s hs h (convert_le h)) generated
    rcases body_ofTuple direction source target inner with copied | built
    · rw [copied]
      exact numbered_copy _ _ le
    · rw [built, introducesAll_append, introducesAll_fresh, List.nil_append]
      exact body
  | optional inner ih =>
    obtain ⟨present, generated, rfl⟩ := convert_optional h
    have same : introducesAll (Code.ofOptional direction source target present).body =
        introducesAll present.body := by
      cases direction <;> exact List.append_nil _
    rw [same]
    exact ih generated le
  | record name fields ih =>
    obtain ⟨inner, generated, rfl⟩ := convert_record h
    rw [introducesAll_append, introducesAll_fresh, List.nil_append]
    exact convertFields_walk (P := fun n body m => Numbered n (introducesAll body) m)
      (fun n => .none (Nat.le_refl n))
      (fun first second => introducesAll_append _ _ ▸ first.append second)
      (fun f hf _ _ _ h => ih f hf h (convert_le h)) generated
  | wrapper _ _ inner ih => exact ih (convert_wrapper h) le
  | opened _ _ fields ih =>
    obtain ⟨field, inner, rfl, generated⟩ := convert_opened h
    exact ih _ (List.mem_singleton.2 rfl) generated le
  | bareTemplate => exact (convert_bareTemplate h).elim
  | blocked => exact (convert_blocked h).elim

end Numbering

/-! ## Clients -/

/-- The temporaries that the two functions of a procedure introduce. -/
def Caller.introduces (c : Caller) : List Temp :=
  Statement.introducesAll c.prepareBody ++ Statement.introducesAll c.restoreBody

section Exported

variable {p : Procedure} {r next last : Resolver} {caller : Caller} {callers : List Caller}
  {seen : List String} {procedures : List Procedure}

theorem numbered_of_exportProcedure (h : Yields (exportProcedure p) r caller next) :
    Numbered r.counter caller.introduces next.counter := by
  obtain ⟨-, -, -, between, prepared, restored⟩ := yields_exportProcedure.1 h
  have prepare : Numbered r.counter (Statement.introducesAll caller.prepareBody) between := by
    unfold Caller.prepareBody
    split
    · exact numbered_of_convert prepared
    · exact .none (convert_le prepared)
  have restore : Numbered between (Statement.introducesAll caller.restoreBody) next.counter := by
    unfold Caller.restoreBody
    split
    · exact numbered_of_convert restored
    · exact .none (convert_le restored)
  exact prepare.append restore

theorem numbered_of_exportProcedures
    (h : exportProcedures seen r procedures = .ok (callers, last)) :
    Numbered r.counter (callers.flatMap Caller.introduces) last.counter := by
  induction procedures generalizing seen r callers with
  | nil =>
    obtain ⟨rfl, rfl⟩ := exportProcedures_nil.1 h
    exact .none (Nat.le_refl _)
  | cons p rest ih =>
    obtain ⟨-, caller, next, others, exported, exportedRest, rfl⟩ := exportProcedures_cons.1 h
    rw [List.flatMap_cons]
    exact (numbered_of_exportProcedure exported).append (ih exportedRest)

/-- The variables of the function that prepares parameters. -/
def prepareScope : List Variable := [.root "params", .root "preparedParams"]

/-- The variables of the function that restores a result. -/
def restoreScope : List Variable := [.root "data"]

theorem scoped_of_exportProcedure (h : Yields (exportProcedure p) r caller next) :
    Statement.ScopedAll prepareScope caller.prepareBody ∧
      Statement.ScopedAll restoreScope caller.restoreBody := by
  obtain ⟨-, -, -, between, prepared, restored⟩ := yields_exportProcedure.1 h
  have params : Caller.params.variables ⊆ prepareScope := by decide
  have preparedParams : Caller.preparedParams.variables ⊆ prepareScope := by decide
  have data : Caller.data.variables ⊆ restoreScope := by decide
  constructor
  · unfold Caller.prepareBody
    split
    · exact scoped_of_convert params preparedParams prepared
    · exact ⟨⟨preparedParams, params⟩, trivial⟩
  · unfold Caller.restoreBody
    split
    · exact scoped_of_convert data data restored
    · trivial

theorem scoped_of_exportProcedures
    (h : exportProcedures seen r procedures = .ok (callers, last)) :
    ∀ c ∈ callers, Statement.ScopedAll prepareScope c.prepareBody ∧
      Statement.ScopedAll restoreScope c.restoreBody := by
  induction procedures generalizing seen r callers with
  | nil =>
    obtain ⟨rfl, -⟩ := exportProcedures_nil.1 h
    exact List.forall_mem_nil _
  | cons p rest ih =>
    obtain ⟨-, caller, next, others, exported, exportedRest, rfl⟩ := exportProcedures_cons.1 h
    exact List.forall_mem_cons.2 ⟨scoped_of_exportProcedure exported, ih exportedRest⟩

/-- A temporary has the name of no parameter. -/
theorem Temp.Lettered.name_ne {t : Temp} (h : t.Lettered) :
    t.name ≠ "params" ∧ t.name ≠ "preparedParams" ∧ t.name ≠ "data" := by
  have apart (name : String) (hi : name.toList.head? ≠ some 'i')
      (hk : name.toList.head? ≠ some 'k') :
      t.name ≠ name := by
    rintro rfl
    rw [Temp.name, String.toList_append] at hi hk
    rcases h with h | h
    · exact hi (by rw [h]; rfl)
    · exact hk (by rw [h]; rfl)
  exact ⟨apart _ (by decide) (by decide), apart _ (by decide) (by decide),
    apart _ (by decide) (by decide)⟩

/-- **The variables of a client.**  No two temporaries that its functions introduce have one name,
and none has the name of a parameter or of the prepared parameters.  A statement names these or a
temporary that has been introduced around it or before it. -/
theorem temps_of_exportClient {options : ExportOptions} {a : Artifact}
    (h : exportClient options procedures = .ok a) :
    ((a.callers.flatMap Caller.introduces).map Temp.name).Nodup ∧
    (∀ t ∈ a.callers.flatMap Caller.introduces,
      t.name ≠ "params" ∧ t.name ≠ "preparedParams" ∧ t.name ≠ "data") ∧
    ∀ c ∈ a.callers, Statement.ScopedAll [.root "params", .root "preparedParams"] c.prepareBody ∧
      Statement.ScopedAll [.root "data"] c.restoreBody := by
  obtain ⟨⟨callers, last⟩, exported, same⟩ := bind_eq_ok.1 h
  cases same
  have numbered := numbered_of_exportProcedures exported
  exact ⟨numbered.names, fun t ht => (numbered.lettered t ht).name_ne,
    scoped_of_exportProcedures exported⟩

/-- The temporaries of a client for a procedure that takes dates by day and gives back instants. -/
theorem temps_of_exportClient_calendar :
    ∃ p a, p = Procedure.mk "Book" (.mapping (.temporal .date) (.list (.temporal .date)))
        (.list (.list (.temporal .dateTime))) ∧
      exportClient ⟨none, none⟩ [p] = .ok a ∧
      (a.callers.flatMap Caller.introduces).map Temp.name = ["k1", "k0", "i2", "i3", "i4"] ∧
      ((a.callers.flatMap Caller.introduces).map Temp.name).Nodup ∧
      ∀ c ∈ a.callers,
        Statement.ScopedAll [.root "params", .root "preparedParams"] c.prepareBody ∧
          Statement.ScopedAll [.root "data"] c.restoreBody := by
  obtain ⟨p, hp⟩ : ∃ p, p = Procedure.mk "Book"
      (.mapping (.temporal .date) (.list (.temporal .date)))
      (.list (.list (.temporal .dateTime))) := ⟨_, rfl⟩
  have names : (exportClient ⟨none, none⟩ [p]).toOption.map
      (fun a => (a.callers.flatMap Caller.introduces).map Temp.name) =
        some ["k1", "k0", "i2", "i3", "i4"] := by
    rw [hp]
    rfl
  cases exported : exportClient ⟨none, none⟩ [p] with
  | error e =>
    rw [exported] at names
    cases names
  | ok a =>
    rw [exported] at names
    obtain ⟨distinct, -, inScope⟩ := temps_of_exportClient exported
    exact ⟨p, a, hp, exported, Option.some.inj names, distinct, inScope⟩

end Exported

end RpcBridge.Client
