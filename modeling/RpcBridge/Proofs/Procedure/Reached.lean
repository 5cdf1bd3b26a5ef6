import Mathlib
import RpcBridge.Proofs.Procedure.Document

/-!
# Proofs/Procedure/Reached — the sets one can get, and their documents

A set is got by starting anew, by adding procedures and by loading documents, in any order, and
whatever fails leaves the set one has.  Such a set is read from its own document, as long as its
literals are read from theirs and the document nests no deeper than a reader goes
(`document_of_reached`).  On the way back, a document with a name that comes twice is not read at
all.
-/

namespace RpcBridge

/-- The number a value is. -/
def Json.number? : Json → Option JsonNumber
  | .number n => some n
  | _ => none

theorem Json.number?_eq_some {j : Json} {n : JsonNumber} :
    j.number? = some n ↔ j = .number n := by
  cases j <;> simp [number?]

namespace ProcedureSet

theorem run_insert (s : ProcedureSet) (p : Procedure) : (insert p).run.run s =
    match s.insert? p with
    | some t => (.ok (), t)
    | none => (.error p.name, s) := by
  change (match s.insert? p with
    | some t => set t
    | none => throw p.name : ExceptT String (StateM ProcedureSet) Unit).run.run s = _
  cases s.insert? p <;> rfl

/-- Something that is done to a set one has. -/
inductive Operation where
  /-- Starting anew. -/
  | new
  /-- Adding a procedure in place. -/
  | insert (p : Procedure)
  /-- Taking the set with one more procedure. -/
  | extend (p : Procedure)
  /-- Taking the set of a document. -/
  | load (text : String)

/-- The set one has afterwards: what fails leaves the set. -/
def Operation.apply (s : ProcedureSet) : Operation → ProcedureSet
  | .new => empty
  | .insert p => ((ProcedureSet.insert p).run.run s).2
  | .extend p => (s.insert? p).getD s
  | .load text => (ofText text).toOption.getD s

/-- The set one has after some operations. -/
def reached (operations : List Operation) : ProcedureSet := operations.foldl Operation.apply empty

/-- **A set is read from its own document.**  Whatever has been done to a set, its names are
distinct, a name that is taken is refused and the set stays, and the set is what is read from its
document, if the literals in it are read from their texts and the document is flat enough.  A
document that lists two procedures of one name is not read. -/
theorem document_of_reached :
    (∀ (operations : List Operation), let s := reached operations
      s.names.Nodup ∧
      (∀ p, if p.name ∈ s.names then (insert p).run.run s = (.error p.name, s)
        else ∃ t, (insert p).run.run s = (.ok (), t) ∧ t.procedures = s.procedures ++ [p]) ∧
      (s.ReadsBack → s.toJson.depth ≤ Json.maxLevels → ofText s.pretty = .ok s)) ∧
    ∀ (text : String) (items : List Json.Draft) (i j : Nat) (d d' : Json.Draft) (name : String),
      Lists (Json.draft (Symbol.ofText text)).draft items →
      i ≠ j → items[i]? = some d → items[j]? = some d' →
      Procedure.Names d name → Procedure.Names d' name → ∃ e, ofText text = .error e := by
  constructor
  · intro operations s
    refine ⟨s.distinct, fun p => ?_, ofText_pretty_of_readsBack⟩
    rw [run_insert]
    split
    · next taken => rw [insert?_eq_none.2 taken]
    · next fresh =>
      obtain ⟨t, added⟩ := Option.ne_none_iff_exists'.1 (mt insert?_eq_none.1 fresh)
      rw [added]
      exact ⟨t, rfl, (insert?_eq_some.1 added).2⟩
  · intro text items i j d d' name lists apart hd hd' names names'
    obtain ⟨e, failed⟩ := exists_error_of_names_twice lists apart hd hd' names names'
    refine ⟨e, ?_⟩
    rw [ofText, Json.readText, failed]
    rfl

/-- A number that is read from its text: one and a half. -/
def oneAndHalf : Finite := ⟨false, ⟨4609434218613702656, by decide⟩⟩

theorem readsBack_oneAndHalf : (JsonNumber.real oneAndHalf).ReadsBack := by
  have read : (Json.parse (JsonNumber.real oneAndHalf).toText).toOption.bind Json.number? =
      some (.real oneAndHalf) := by
    decide +kernel
  rw [JsonNumber.ReadsBack]
  cases parsed : Json.parse (JsonNumber.real oneAndHalf).toText with
  | error e =>
    rw [parsed] at read
    cases read
  | ok j =>
    rw [parsed] at read
    exact congrArg _ (Json.number?_eq_some.1 read)

/-- Two procedures, one of them with an enum of literals of all kinds; one that comes again is
refused, and a document with one that comes again is not read. -/
theorem document_of_reached_rates :
    let rate := EnumDef.mk "Rate" [⟨"half", .float (.finite oneAndHalf)⟩, ⟨"one", .int 1⟩,
      ⟨"word", .text "1"⟩]
    let quote : Procedure := ⟨"quote", .record "Order" [("rate", .enum rate)] true,
      .mapping (.scalar .string) (.list (.temporal .date))⟩
    let ping : Procedure := ⟨"ping", .scalar .none, .optional (.enum rate)⟩
    let s := reached [.insert quote, .load "[", .extend ping, .insert quote]
    let text :=
      "\x7b\"procedures\":[\x7b\"name\":\"ping\"\x7d,\x7b\"name\":\"ping\"\x7d]\x7d"
    let twice (after : String) : Json.Draft :=
      .object (.into (Symbol.ofText ("\x7b\"name\":\"ping\"\x7d" ++ after)))
        [(.ok "name", .string (.ok "ping"))] none
    let items := [twice ",\x7b\"name\":\"ping\"\x7d]\x7d", twice "]\x7d"]
    s.procedures = [quote, ping] ∧
    (insert quote).run.run s = (.error "quote", s) ∧
    (s.ReadsBack ∧ s.toJson.depth ≤ Json.maxLevels ∧ ofText s.pretty = .ok s) ∧
    (Lists (Json.draft (Symbol.ofText text)).draft items ∧ ∃ e, ofText text = .error e) := by
  intro rate quote ping s text twice items
  have listed : s.procedures = [quote, ping] := rfl
  have back : s.ReadsBack := by
    have literals : ∀ m ∈ rate.members, m.value.ReadsBack := by
      simp only [rate, List.forall_mem_cons, EnumLiteral.ReadsBack]
      exact ⟨⟨_, rfl, readsBack_oneAndHalf⟩, trivial, trivial, List.forall_mem_nil _⟩
    have only {d : Descriptor} (h : ∀ e, Descriptor.enum e ∈ d.parts → e = rate) : d.ReadsBack :=
      fun e part => h e (Descriptor.mem_parts part) ▸ literals
    rw [ReadsBack, listed]
    refine List.forall_mem_cons.2 ⟨⟨only fun e part => ?_, only fun e part => ?_⟩,
      List.forall_mem_singleton.2 ⟨only fun e part => ?_, only fun e part => ?_⟩⟩
    all_goals simp [quote, ping, Descriptor.parts, Descriptor.fieldParts] at part
    all_goals exact part
  have flat : s.toJson.depth ≤ Json.maxLevels := by
    rw [toJson, listed]
    decide
  have lists : Lists (Json.draft (Symbol.ofText text)).draft items := by
    have whole : (Json.draft (Symbol.ofText text)).draft = .object (.into (Symbol.ofText text))
        [(.ok "procedures", .array (.into ((Symbol.ofText text).drop 14)) items none)] none := by
      unfold text items twice
      cbv
    rw [whole]
    exact .member (.head _)
  obtain ⟨ofReached, ofText⟩ := document_of_reached
  obtain ⟨-, inserted, roundTrip⟩ :=
    ofReached [.insert quote, .load "[", .extend ping, .insert quote]
  have refused := ofText text items 0 1 _ _ "ping" lists (by decide) rfl rfl (.member (.head _))
    (.member (.head _))
  refine ⟨listed, ?_, ⟨back, flat, roundTrip back flat⟩, lists, refused⟩
  have taken : quote.name ∈ s.names := by
    rw [names, listed]
    exact .head _
  exact (if_pos taken).mp (inserted quote)

end ProcedureSet

end RpcBridge
