import RpcBridge.Proofs.Dispatch.Hooks
import RpcBridge.Proofs.Json.Settled
import RpcBridge.Proofs.Wire.Keys

/-!
# Proofs/Dispatch/Envelope — what is taken for a request, and how it is answered

A text holds a request if it is JSON and has the parts of one, by name or by position
(`Json.Envelopes`, `Request.StandsIn`).  Everything else follows from that: a response carries the
number of the request that stands in the text, and null if none does, whatever fails later on
(`call_eq`).  What may be left without a response is only an error of the caller's own hooks and
bodies, or a call that was made in the wrong way (`run_eq_error`); `call_enveloped` puts the two
together.
-/

namespace RpcBridge

open Json (Misfit)

/-! ## Named and placed parts -/

/-- A step for each item succeeds if it does for every one. -/
theorem forM_eq_ok {ε α : Type} {f : α → Except ε PUnit} {items : List α} :
    forM items f = .ok () ↔ ∀ a ∈ items, f a = .ok () := by
  induction items with
  | nil => exact iff_of_true rfl (List.forall_mem_nil _)
  | cons a rest ih =>
    rw [List.forM_cons, bind_eq_ok, List.forall_mem_cons, ← ih]
    exact ⟨fun ⟨_, first, others⟩ => ⟨first, others⟩, fun ⟨first, others⟩ => ⟨_, first, others⟩⟩

theorem map_eq_ok {ε α β : Type} {f : α → β} {x : Except ε α} {b : β} :
    x.map f = .ok b ↔ ∃ a, x = .ok a ∧ f a = b := by
  cases x <;> simp [Except.map]

theorem map_eq_error {ε α β : Type} {f : α → β} {x : Except ε α} {e : ε} :
    x.map f = .error e ↔ x = .error e := by
  cases x <;> simp [Except.map]

namespace Parts

variable {α β β' β'' γ : Type} {p : Part α β} {q : Part α β'} {r : Part α β''}

/-- What a member is checked for; one that is not asked for passes. -/
def fits (checks : List (String × (α → Except Misfit Unit))) (m : String × α) :
    Except Misfit Unit :=
  (checks.lookup m.1).elim (.ok ()) (· m.2)

/-- Members of distinct names are checked one after the other. -/
theorem checkNamed_of_distinct (checks : List (String × (α → Except Misfit Unit)))
    {seen : List String} {members : List (String × α)} (distinct : (members.map (·.1)).Nodup)
    (fresh : ∀ m ∈ members, m.1 ∉ seen) :
    checkNamed checks seen members = forM members (fits checks) := by
  induction members generalizing seen with
  | nil => rfl
  | cons m rest ih =>
    rw [List.map_cons, List.nodup_cons] at distinct
    rw [List.forall_mem_cons] at fresh
    rw [checkNamed, List.forM_cons, fits]
    cases checks.lookup m.1 with
    | none => exact ih distinct.2 fresh.2
    | some check =>
      dsimp only [Option.elim_some]
      rw [if_neg (by simpa using fresh.1)]
      have later : ∀ n ∈ rest, n.1 ∉ m.1 :: seen := by
        intro n hn there
        rcases List.mem_cons.1 there with same | there
        · exact distinct.1 (same ▸ List.mem_map_of_mem hn)
        · exact fresh.2 n hn there
      rw [ih distinct.2 later]

theorem fits_eq_ok {checks : List (String × (α → Except Misfit Unit))} {m : String × α}
    (each : ∀ c ∈ checks, c.1 = m.1 → c.2 m.2 = .ok ()) : fits checks m = .ok () := by
  rw [fits]
  cases known : checks.lookup m.1 with
  | none => rfl
  | some check => exact each _ (mem_of_lookup_eq_some known) rfl

theorem get_named_eq_ok {members : List (String × α)} {title : String} {count : Nat} {b : β} :
    (named members).get title count p = .ok b ↔
      ∃ a, members.lookup p.name = some a ∧ p.read a = .ok b := by
  rw [get]
  cases members.lookup p.name <;> simp

theorem get_placed_eq_ok {items : List α} {title : String} {count : Nat} {b : β} :
    (placed items).get title count p = .ok b ↔
      ∃ a, items[p.index]? = some a ∧ p.read a = .ok b := by
  rw [get]
  cases items[p.index]? <;> simp

/-- A part that is read under its name passes its check. -/
theorem check_eq_ok {members : List (String × α)} (distinct : (members.map (·.1)).Nodup)
    {m : String × α} (hm : m ∈ members)
    (found : ∃ a b, members.lookup p.name = some a ∧ p.read a = .ok b) (same : p.check.1 = m.1) :
    p.check.2 m.2 = .ok () := by
  obtain ⟨a, b, found, read⟩ := found
  have here : members.lookup p.name = some m.2 := by
    rw [show p.name = m.1 from same]
    exact lookup_eq_some_of_mem distinct hm
  obtain rfl : m.2 = a := Option.some.inj (here.symm.trans found)
  change (p.read m.2).map _ = _
  rw [read]
  rfl

/-- **A node of three named parts is read if each part is**, whatever its other members are. -/
theorem threeOuter_named_eq_ok {members : List (String × α)}
    (distinct : (members.map (·.1)).Nodup) {title : String} {make : β → β' → β'' → γ} {c : γ} :
    (named members).threeOuter title p q r make = .ok c ↔
      ∃ b b' b'', (∃ a, members.lookup p.name = some a ∧ p.read a = .ok b) ∧
        (∃ a, members.lookup q.name = some a ∧ q.read a = .ok b') ∧
        (∃ a, members.lookup r.name = some a ∧ r.read a = .ok b'') ∧ make b b' b'' = c := by
  rw [threeOuter, bind_eq_ok]
  simp only [bind_eq_ok, get_named_eq_ok]
  constructor
  · rintro ⟨-, -, b, first, b', second, b'', third, -, -, made⟩
    exact ⟨b, b', b'', first, second, third, Except.ok.inj made⟩
  · rintro ⟨b, b', b'', ⟨a, first⟩, ⟨a', second⟩, ⟨a'', third⟩, rfl⟩
    refine ⟨(), ?_, b, ⟨a, first⟩, b', ⟨a', second⟩, b'', ⟨a'', third⟩, (), rfl, rfl⟩
    rw [start, checkNamed_of_distinct _ distinct (fun _ _ => List.not_mem_nil), forM_eq_ok]
    refine fun m hm => fits_eq_ok (List.forall_mem_cons.2 ⟨?_, List.forall_mem_cons.2 ⟨?_,
      List.forall_mem_singleton.2 ?_⟩⟩)
    · exact check_eq_ok distinct hm ⟨a, b, first⟩
    · exact check_eq_ok distinct hm ⟨a', b', second⟩
    · exact check_eq_ok distinct hm ⟨a'', b'', third⟩

/-- A node of three placed parts is read if each part is and nothing is behind them. -/
theorem threeOuter_placed_eq_ok {items : List α} {title : String} {make : β → β' → β'' → γ}
    {c : γ} :
    (placed items).threeOuter title p q r make = .ok c ↔
      ∃ b b' b'', (∃ a, items[p.index]? = some a ∧ p.read a = .ok b) ∧
        (∃ a, items[q.index]? = some a ∧ q.read a = .ok b') ∧
        (∃ a, items[r.index]? = some a ∧ r.read a = .ok b'') ∧ items.length ≤ 3 ∧
          make b b' b'' = c := by
  rw [threeOuter, bind_eq_ok]
  simp only [bind_eq_ok, get_placed_eq_ok]
  have stops : (placed items).stopOuter 3 = .ok () ↔ items.length ≤ 3 := by
    rw [stopOuter, stopWith]
    split
    · next long => exact iff_of_false (fun failed => by cases failed) (by omega)
    · next short => exact iff_of_true rfl (by omega)
  constructor
  · rintro ⟨-, -, b, first, b', second, b'', third, _, ends, made⟩
    exact ⟨b, b', b'', first, second, third, stops.1 ends, Except.ok.inj made⟩
  · rintro ⟨b, b', b'', first, second, third, short, rfl⟩
    exact ⟨(), rfl, b, first, b', second, b'', third, (), stops.2 short, rfl⟩

end Parts

/-! ## What is taken for a request -/

/-- A JSON value that holds a request: an object with its number, method and parameters, whatever
else is in it, or the array of these three. -/
inductive Json.Envelopes : Json → Request → Prop where
  | object {members : Members} {r : Request} (id : ("id", .ofInt64 r.id) ∈ members)
      (method : ("method", .string r.method) ∈ members) (params : ("params", r.params) ∈ members) :
      Envelopes (.object members) r
  | array (r : Request) : Envelopes (.array [.ofInt64 r.id, .string r.method, r.params]) r

theorem Whole.eq_of_toInt64? {n : Whole} {i : Int64} (h : n.toInt64? = some i) :
    n = .ofInt64 i := by
  obtain ⟨n, lower, upper⟩ := n
  rw [toInt64?] at h
  split at h
  · next small =>
    obtain rfl := Option.some.inj h
    simp only [ofInt64, Int64.toInt_ofInt_of_le lower small]
  · cases h

theorem readInt64_eq_ok {j : Json} {i : Int64} : readInt64 j = .ok i ↔ j = .ofInt64 i := by
  constructor
  · intro h
    cases j with
    | number n =>
      cases n with
      | whole n =>
        rw [readInt64] at h
        split at h
        · next fits =>
          obtain rfl := Except.ok.inj h
          rw [Whole.eq_of_toInt64? fits, Json.ofInt64]
        · cases h
      | real x => cases h
    | _ => cases h
  · rintro rfl
    rw [Json.ofInt64, readInt64, Whole.toInt64?_ofInt64]

theorem readString_eq_ok {j : Json} {s : String} : readString j = .ok s ↔ j = .string s := by
  cases j <;> simp [readString, Misfit.expected]

namespace Request

/-- What is read of members of distinct names: the three of a request, if they are there. -/
theorem ofJson_object_eq_ok {members : Members} (distinct : (members.map (·.1)).Nodup)
    {r : Request} : ofJson (.object members) = .ok r ↔ (Json.object members).Envelopes r := by
  change (Parts.named members).threeOuter _ _ _ _ _ = _ ↔ _
  rw [Parts.threeOuter_named_eq_ok distinct]
  simp only [readInt64_eq_ok, readString_eq_ok]
  constructor
  · rintro ⟨id, method, params, ⟨_, first, rfl⟩, ⟨_, second, rfl⟩, ⟨_, third, same⟩, rfl⟩
    obtain rfl := Except.ok.inj same
    exact .object (mem_of_lookup_eq_some first) (mem_of_lookup_eq_some second)
      (mem_of_lookup_eq_some third)
  · rintro (⟨id, method, params⟩ | _)
    exact ⟨r.id, r.method, r.params, ⟨_, lookup_eq_some_of_mem distinct id, rfl⟩,
      ⟨_, lookup_eq_some_of_mem distinct method, rfl⟩,
      ⟨_, lookup_eq_some_of_mem distinct params, rfl⟩, rfl⟩

/-- What is read of items: there have to be three. -/
theorem ofJson_array_eq_ok {items : List Json} {r : Request} :
    ofJson (.array items) = .ok r ↔ (Json.array items).Envelopes r := by
  change (Parts.placed items).threeOuter _ _ _ _ _ = _ ↔ _
  rw [Parts.threeOuter_placed_eq_ok]
  simp only [readInt64_eq_ok, readString_eq_ok]
  constructor
  · rintro ⟨id, method, params, ⟨_, first, rfl⟩, ⟨_, second, rfl⟩, ⟨_, third, same⟩, short, rfl⟩
    obtain rfl := Except.ok.inj same
    match items, first, second, third with
    | [_, _, _], rfl, rfl, rfl => exact .array ⟨id, method, _⟩
  · rintro ⟨⟩
    exact ⟨r.id, r.method, r.params, ⟨_, rfl, rfl⟩, ⟨_, rfl, rfl⟩, ⟨_, rfl, rfl⟩, le_rfl, rfl⟩

/-- **What is read as a request is what holds one.** -/
theorem ofJson_eq_ok {j : Json} (settled : j.Settled) {r : Request} :
    ofJson j = .ok r ↔ j.Envelopes r := by
  cases settled with
  | array => exact ofJson_array_eq_ok
  | object distinct => exact ofJson_object_eq_ok distinct
  | _ => exact iff_of_false nofun nofun

/-- A text that holds a request: JSON that does. -/
def StandsIn (r : Request) (text : List Symbol) : Prop :=
  ∃ j, Json.parseSymbols text = .ok j ∧ j.Envelopes r

/-- A text holds one request at most. -/
theorem StandsIn.unique {r r' : Request} {text : List Symbol} (h : r.StandsIn text)
    (h' : r'.StandsIn text) : r = r' := by
  obtain ⟨j, parsed, holds⟩ := h
  obtain ⟨j', parsed', holds'⟩ := h'
  obtain rfl := Except.ok.inj (parsed.symm.trans parsed')
  have settled := Json.settled_of_parse parsed
  have read := (ofJson_eq_ok settled).2 holds
  exact Except.ok.inj (read.symm.trans ((ofJson_eq_ok settled).2 holds'))

end Request

/-! ## How it is answered -/

/-- Errors that are of the request or of a value in it. -/
inductive RpcError.Answerable : RpcError → Prop where
  | invalidRequest (message : String) : Answerable (.invalidRequest message)
  | validation (root : String) (e : WireError) : Answerable (.validation root e)

theorem Response.validationErrors_eq_none {e : RpcError} :
    validationErrors e = none ↔ ¬e.Answerable := by
  cases e <;> simp only [validationErrors, reduceCtorEq, true_iff, false_iff, not_not]
  case invalidRequest message => exact .invalidRequest message
  case validation root e => exact .validation root e
  all_goals exact nofun

/-- A response: the version, either a result or an error, and a number or null. -/
def Json.IsResponse (j id : Json) : Prop :=
  ∃ name content, (name = "result" ∨ name = "error") ∧
    j = .object [("jsonrpc", .string "2.0"), (name, content), ("id", id)]

variable {C : Type}

/-- An error of a handler's own: of the first hook that refuses, or of the body behind hooks that
pass. -/
inductive Handler.Fails (h : Handler C) (params : Json) (context : C) : RpcError → Prop where
  | hook {front back : List (Hook C)} {k : Hook C} {e : RpcError}
      (hooks : h.hooks = front ++ k :: back) (pass : ∀ k ∈ front, k.check context = .ok ())
      (refused : k.check context = .error e) : Fails h params context e
  | body {v : Value} {e : RpcError} (pass : ∀ k ∈ h.hooks, k.check context = .ok ())
      (read : h.procedure.input.decode params = .ok v) (failed : h.body v context = .error e) :
      Fails h params context e

/-- What fails behind the hooks: the body, or one of the values. -/
theorem Handler.outcome_eq_error (h : Handler C) (params : Json) (context : C) {e : RpcError}
    (unanswerable : ¬e.Answerable) : h.outcome params context = .error e ↔
      ∃ v, h.procedure.input.decode params = .ok v ∧ h.body v context = .error e := by
  unfold outcome
  cases h.procedure.input.decode params with
  | error w =>
    refine iff_of_false (fun failed => ?_) ?_
    · obtain rfl := Except.error.inj failed
      exact unanswerable (.validation _ w)
    · rintro ⟨v, ⟨⟩, -⟩
  | ok v =>
    simp only [mapError_ok, ok_bind, Except.ok.injEq, exists_eq_left']
    cases ran : h.body v context with
    | error e' => rw [error_bind, Except.error.injEq, Except.error.injEq]
    | ok output =>
      refine iff_of_false (fun failed => ?_) nofun
      rw [ok_bind] at failed
      cases written : h.procedure.output.encode output with
      | ok j => simp [written] at failed
      | error w =>
        rw [written] at failed
        obtain rfl := Except.error.inj failed
        exact unanswerable (.validation _ w)

/-- Behind hooks that pass, a handler fails if its body does. -/
theorem Handler.fails_of_pass {h : Handler C} {params : Json} {context : C} {e : RpcError}
    (pass : ∀ k ∈ h.hooks, k.check context = .ok ()) :
    h.Fails params context e ↔
      ∃ v, h.procedure.input.decode params = .ok v ∧ h.body v context = .error e := by
  constructor
  · rintro (⟨hooks, -, refused⟩ | ⟨-, read, failed⟩)
    · have passed := pass _ (hooks ▸ List.mem_append_right _ (.head _))
      cases passed.symm.trans refused
    · exact ⟨_, read, failed⟩
  · rintro ⟨v, read, failed⟩
    exact .body pass read failed

/-- A hook that refuses is all a handler fails with. -/
theorem Handler.fails_of_refused {h : Handler C} {params : Json} {context : C} {e e' : RpcError}
    {front back : List (Hook C)} {k : Hook C} (hooks : h.hooks = front ++ k :: back)
    (pass : ∀ k ∈ front, k.check context = .ok ()) (refused : k.check context = .error e') :
    h.Fails params context e ↔ e' = e := by
  constructor
  · rintro (⟨hooks', pass', refused'⟩ | ⟨pass', -, -⟩)
    · -- both are what passing the hooks comes to
      have first : (Running.passHooks context (front ++ k :: back)).run [] = _ :=
        Running.passHooks_of_refused pass refused []
      rw [← hooks, hooks', Running.passHooks_of_refused pass' refused'] at first
      exact (Except.error.inj (Prod.mk.inj first).1).symm
    · have passed := pass' k (hooks ▸ List.mem_append_right _ (.head _))
      cases passed.symm.trans refused
  · rintro rfl
    exact .hook hooks pass refused

namespace Dispatcher

/-- Nothing is run for a request that names no handler. -/
theorem run_of_unnamed {d : Dispatcher C} {r : Request} (unnamed : d.registry.find? r.method = none)
    (mode : Mode) (context : C) : d.run mode r context = Running.lift (.ok none) := by
  cases mode with
  | blocking => rw [run, dispatch, unnamed]
  | awaiting => rw [run, dispatchAwaiting, unnamed]

/-- **What a run fails with**, if it is not the request's: an error of the handler's own, or that it
has to be awaited. -/
theorem run_eq_error (d : Dispatcher C) (mode : Mode) (r : Request) (context : C) {e : RpcError}
    (unanswerable : ¬e.Answerable) :
    ((d.run mode r context).run []).1 = .error e ↔
      ∃ h, d.registry.find? r.method = some h ∧
        if h.awaited && mode = .blocking then e = .awaitedOnly h.name
        else h.Fails r.params context e := by
  cases named : d.registry.find? r.method with
  | none =>
    rw [run_of_unnamed named]
    exact iff_of_false nofun nofun
  | some h =>
    simp only [Option.some.injEq, exists_eq_left']
    split
    · next barred =>
      rw [run_awaitedOnly named barred, Except.error.injEq, eq_comm]
    · next callable =>
      rcases Hook.pass_or_refused context h.hooks with
        pass | ⟨front, k, back, e', hooks, pass, refused⟩
      · rw [h.fails_of_pass pass, run_of_pass named callable pass, map_eq_error,
          h.outcome_eq_error r.params context unanswerable]
      · rw [run_of_refused named callable hooks pass refused, h.fails_of_refused hooks pass refused,
          Except.error.injEq]

/-- Whatever is answered is a response with the number that is given. -/
theorem isResponse_of_answer {d : Dispatcher C} {context : C} {id j : Json}
    {outcome : Except RpcError (Option Json)} (h : d.answer context id outcome = .ok j) :
    j.IsResponse id := by
  match outcome with
  | .ok (some result) => exact ⟨"result", result, .inl rfl, (Except.ok.inj h).symm⟩
  | .ok none => exact ⟨"error", _, .inr rfl, (Except.ok.inj h).symm⟩
  | .error e =>
    rw [answer, answerError] at h
    cases mapped : d.mapError e context with
    | none =>
      rw [mapped] at h
      cases h
    | some error =>
      rw [mapped] at h
      exact ⟨"error", error, .inr rfl, (Except.ok.inj h).symm⟩

/-- **The answer to a text**: to the request that stands in it, or to none. -/
theorem call_eq (d : Dispatcher C) (mode : Mode) (text : List Symbol) (context : C) :
    (∃ r, r.StandsIn text ∧ (d.call mode text context).1 =
      (d.answer context (.ofInt64 r.id) ((d.run mode r context).run []).1).map Json.compact) ∨
    (¬∃ r : Request, r.StandsIn text) ∧ ∃ message, (d.call mode text context).1 =
      (d.answer context .null (.error (.invalidRequest message))).map Json.compact := by
  cases parsed : Json.parseSymbols text with
  | error f =>
    refine .inr ⟨fun ⟨r, j, read, _⟩ => ?_, f.messageIn text, ?_⟩
    · cases parsed.symm.trans read
    · rw [call, parsed]
      rfl
  | ok j =>
    have settled := Json.settled_of_parse parsed
    cases read : Request.ofJson j with
    | ok r =>
      refine .inl ⟨r, ⟨j, parsed, (Request.ofJson_eq_ok settled).1 read⟩, ?_⟩
      rw [call_of_readable parsed read]
    | error m =>
      refine .inr ⟨fun ⟨r, j', read', holds⟩ => ?_, m.message, ?_⟩
      · obtain rfl := Except.ok.inj (parsed.symm.trans read')
        cases read.symm.trans ((Request.ofJson_eq_ok settled).2 holds)
      · rw [call, parsed]
        dsimp only
        rw [callJson, read]
        rfl

/-- An error is what a call is left with if it is the outcome and no error object is made of it. -/
theorem answer_eq_error {d : Dispatcher C} {context : C} {id : Json}
    {outcome : Except RpcError (Option Json)} {e : RpcError} :
    d.answer context id outcome = .error e ↔ outcome = .error e ∧ d.mapError e context = none := by
  match outcome with
  | .ok (some result) => exact iff_of_false nofun nofun
  | .ok none => exact iff_of_false nofun nofun
  | .error e' =>
    rw [answer, answerError, Except.error.injEq]
    cases mapped : d.mapError e' context with
    | none =>
      rw [Except.error.injEq]
      exact ⟨fun same => ⟨same, same ▸ mapped⟩, And.left⟩
    | some error =>
      refine iff_of_false (fun failed => by cases failed) ?_
      rintro ⟨same, unmapped⟩
      cases (same ▸ mapped).symm.trans unmapped

/-- **A response carries the number of its request, and no request goes without one.**  Whatever a
call is answered with is an object of the version, either a result or an error, and the number of
the request that stands in the text, or null if none does.  If errors are mapped as in a new
dispatcher, a call is left without a response only by the handler that is named: by an error of a
hook or of the body that is none of a request or of a value, or because the handler has to be
awaited and is called at once. -/
theorem call_enveloped (d : Dispatcher C) (mode : Mode) (text : List Symbol) (context : C) :
    (∀ response, (d.call mode text context).1 = .ok response →
      ∃ j id : Json, response = j.compact ∧ j.IsResponse id ∧
        (∀ r : Request, r.StandsIn text → id = .ofInt64 r.id) ∧
        ((¬∃ r : Request, r.StandsIn text) → id = .null)) ∧
    (d.mapError = empty.mapError → ∀ e, (d.call mode text context).1 = .error e ↔
      ∃ (r : Request) (h : Handler C), r.StandsIn text ∧
        d.registry.find? r.method = some h ∧ ¬e.Answerable ∧
        if h.awaited && mode = .blocking then e = .awaitedOnly h.name
        else h.Fails r.params context e) := by
  rcases d.call_eq mode text context with ⟨r, stands, answered⟩ | ⟨none, message, answered⟩
  · rw [answered]
    refine ⟨fun response h => ?_, fun fresh e => ?_⟩
    · obtain ⟨j, answer, rfl⟩ := map_eq_ok.1 h
      refine ⟨j, .ofInt64 r.id, rfl, isResponse_of_answer answer, fun r' stands' => ?_,
        fun none => absurd ⟨r, stands⟩ none⟩
      rw [stands.unique stands']
    · rw [map_eq_error, answer_eq_error, fresh]
      change _ ∧ Response.validationErrors e = none ↔ _
      rw [Response.validationErrors_eq_none]
      constructor
      · rintro ⟨failed, unanswerable⟩
        obtain ⟨h, named, why⟩ := (d.run_eq_error mode r context unanswerable).1 failed
        exact ⟨r, h, stands, named, unanswerable, why⟩
      · rintro ⟨r', h, stands', named, unanswerable, why⟩
        obtain rfl := stands.unique stands'
        exact ⟨(d.run_eq_error mode r context unanswerable).2 ⟨h, named, why⟩, unanswerable⟩
  · rw [answered]
    refine ⟨fun response h => ?_, fun fresh e => ?_⟩
    · obtain ⟨j, answer, rfl⟩ := map_eq_ok.1 h
      exact ⟨j, .null, rfl, isResponse_of_answer answer, fun r stands => absurd ⟨r, stands⟩ none,
        fun _ => rfl⟩
    · rw [map_eq_error, answer_eq_error, fresh]
      refine iff_of_false (fun ⟨failed, unmapped⟩ => ?_) fun ⟨r, h, stands, _⟩ => none ⟨r, stands⟩
      obtain rfl := Except.error.inj failed
      change Response.validationErrors (.invalidRequest message) = _ at unmapped
      exact Response.validationErrors_eq_none.1 unmapped (.invalidRequest message)

/-- A door that is closed to visitors: their call is left without a response, but not what is no
request or asks for something else. -/
theorem call_enveloped_door :
    let owner : Guard Bool := ⟨"owner", fun owner =>
      if owner then .ok () else .error (.permissionDenied "closed")⟩
    let door : Handler Bool := ⟨⟨"door", .scalar .none, .scalar .int⟩, false, [owner], [],
      fun _ _ => .ok (.int 3)⟩
    let disp : Dispatcher Bool := ⟨⟨[door], by decide⟩, empty.mapError⟩
    let knock := Symbol.ofText "[7, \"door\", null]"
    let ring := Symbol.ofText "[7, \"bell\", null]"
    let noise := Symbol.ofText "[7, \"door\"]"
    (disp.call .blocking knock false).1 = .error (.permissionDenied "closed") ∧
    (∃ j : Json, (disp.call .blocking ring false).1 = .ok j.compact ∧ j.IsResponse (.ofInt64 7)) ∧
    ∃ j : Json, (disp.call .awaiting noise false).1 = .ok j.compact ∧ j.IsResponse .null := by
  intro owner door disp knock ring noise
  let seven : Json := .number (.whole ⟨7, by decide, by decide⟩)
  let request (method : String) : Json := .array [seven, .string method, .null]
  have parsedKnock : Json.parseSymbols knock = .ok (request "door") := by
    unfold knock request seven
    cbv
  have parsedRing : Json.parseSymbols ring = .ok (request "bell") := by
    unfold ring request seven
    cbv
  have parsedNoise : Json.parseSymbols noise = .ok (.array [seven, .string "door"]) := by
    unfold noise seven
    cbv
  have knocks : Request.StandsIn ⟨7, "door", .null⟩ knock := ⟨_, parsedKnock, .array ⟨7, "door", _⟩⟩
  have rings : Request.StandsIn ⟨7, "bell", .null⟩ ring := ⟨_, parsedRing, .array ⟨7, "bell", _⟩⟩
  have few (a b : Json) (r : Request) : ¬(Json.array [a, b]).Envelopes r := by
    intro holds
    cases holds
  have silent : ¬∃ r : Request, r.StandsIn noise := by
    rintro ⟨r, j, parsed, holds⟩
    cases parsedNoise.symm.trans parsed
    exact few _ _ _ holds
  have unanswerable : ¬(RpcError.permissionDenied "closed").Answerable := by
    intro answerable
    cases answerable
  refine ⟨?_, ?_, ?_⟩
  · refine ((disp.call_enveloped .blocking knock false).2 rfl _).2
      ⟨_, door, knocks, rfl, unanswerable, ?_⟩
    rw [if_neg (by decide)]
    have hooks : door.hooks = [] ++ [⟨.guard "owner", owner.check⟩] := rfl
    exact .hook hooks (List.forall_mem_nil _) rfl
  · obtain ⟨responds, fails⟩ := disp.call_enveloped .blocking ring false
    cases answered : (disp.call .blocking ring false).1 with
    | error e =>
      obtain ⟨r, h, stands, named, -⟩ := (fails rfl e).1 answered
      obtain rfl := rings.unique stands
      cases named
    | ok response =>
      obtain ⟨j, id, rfl, isResponse, numbered, -⟩ := responds response answered
      obtain rfl := numbered _ rings
      exact ⟨j, rfl, isResponse⟩
  · obtain ⟨responds, fails⟩ := disp.call_enveloped .awaiting noise false
    cases answered : (disp.call .awaiting noise false).1 with
    | error e =>
      obtain ⟨r, h, stands, -⟩ := (fails rfl e).1 answered
      exact absurd ⟨r, stands⟩ silent
    | ok response =>
      obtain ⟨j, id, rfl, isResponse, -, unnumbered⟩ := responds response answered
      obtain rfl := unnumbered silent
      exact ⟨j, rfl, isResponse⟩

end Dispatcher

end RpcBridge
