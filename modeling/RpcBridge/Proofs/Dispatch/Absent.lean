import RpcBridge.Proofs.Client.Sent
import RpcBridge.Proofs.Dispatch.Envelope

/-!
# Proofs/Dispatch/Absent — a request without parameters

A procedure whose input may be absent is called with null; a client that has nothing to send leaves
the parameters out (`Client.toJson?_requestTree`).  The two are not the same: parameters that are
left out are missed when the request is read, before it is known which procedure it names and what
that procedure takes (`ofJson_without`).  So such a request is refused without its number, and
nothing is started for it, where the request with null is served (`unserved_of_absent`).
-/

namespace RpcBridge

open Json (Misfit)

/-! ## Leaving out one name -/

section Without

variable {α : Type} {entries : List (String × α)} {name : String}

/-- The entries without those of one name. -/
def without (entries : List (String × α)) (name : String) : List (String × α) :=
  entries.filter (·.1 ≠ name)

theorem lookup_without_self : (without entries name).lookup name = none := by
  refine lookup_eq_none fun there => ?_
  obtain ⟨e, he, same⟩ := List.mem_map.1 there
  exact of_decide_eq_true (List.mem_filter.1 he).2 same

theorem lookup_without_of_ne {other : String} (h : other ≠ name) :
    (without entries name).lookup other = entries.lookup other := by
  induction entries with
  | nil => rfl
  | cons e rest ih =>
    obtain ⟨n, a⟩ := e
    by_cases left : n = name
    · have drops : without ((n, a) :: rest) name = without rest name := by simp [without, left]
      rw [drops, ih, lookup_cons_eq, if_neg (left ▸ h)]
    · have stays : without ((n, a) :: rest) name = (n, a) :: without rest name := by
        simp [without, left]
      rw [stays, lookup_cons_eq, lookup_cons_eq, ih]

theorem nodup_without (distinct : (entries.map (·.1)).Nodup) :
    ((without entries name).map (·.1)).Nodup :=
  distinct.sublist (List.filter_sublist.map _)

end Without

/-- Steps that come to nothing can be left out. -/
theorem forM_filter {ε α : Type} {f : α → Except ε PUnit} {keep : α → Bool} {items : List α}
    (idle : ∀ a ∈ items, keep a = false → f a = .ok ()) :
    forM (items.filter keep) f = forM items f := by
  induction items with
  | nil => rfl
  | cons a rest ih =>
    rw [List.forall_mem_cons] at idle
    rw [List.forM_cons, ← ih idle.2]
    cases kept : keep a with
    | false => rw [List.filter_cons_of_neg (by simp [kept]), idle.1 kept, ok_bind]
    | true => rw [List.filter_cons_of_pos kept, List.forM_cons]

namespace Parts

variable {α β β' β'' γ : Type} {p : Part α β} {q : Part α β'} {r : Part α β''}

/-- **A third part that is left out is missed**, if the other two are read, and then only. -/
theorem threeOuter_without {members : List (String × α)} (distinct : (members.map (·.1)).Nodup)
    {a : α} {b : β''} (there : (r.name, a) ∈ members) (read : r.read a = .ok b)
    (first : p.name ≠ r.name) (second : q.name ≠ r.name) (title : String)
    (make : β → β' → β'' → γ) :
    (named (without members r.name)).threeOuter title p q r make =
      (named members).threeOuter title p q r make >>= fun _ => .error (.missingField r.name) := by
  have found : members.lookup r.name = some a := lookup_eq_some_of_mem distinct there
  have starts : (named (without members r.name)).start [p.check, q.check, r.check] =
      (named members).start [p.check, q.check, r.check] := by
    rw [start, start, checkNamed_of_distinct _ (nodup_without distinct) fun _ _ =>
      List.not_mem_nil, checkNamed_of_distinct _ distinct fun _ _ => List.not_mem_nil]
    refine forM_filter fun m hm left => ?_
    have same : m.1 = r.name := by simpa using left
    refine fits_eq_ok (List.forall_mem_cons.2 ⟨fun here => absurd (here.trans same) first,
      List.forall_mem_cons.2 ⟨fun here => absurd (here.trans same) second,
        List.forall_mem_singleton.2 ?_⟩⟩)
    exact check_eq_ok distinct hm ⟨a, b, found, read⟩
  have other {β : Type} {s : Part α β} (h : s.name ≠ r.name) :
      (named (without members r.name)).get title 3 s = (named members).get title 3 s := by
    rw [get, get, lookup_without_of_ne h]
  have missing : (named (without members r.name)).get title 3 r =
      .error (.missingField r.name) := by
    rw [get, lookup_without_self]
  have third : (named members).get title 3 r = .ok b := get_named_eq_ok.2 ⟨a, found, read⟩
  rw [threeOuter, threeOuter, starts, other first, other second, missing, third]
  cases (named members).start [p.check, q.check, r.check] with
  | error => rfl
  | ok =>
    cases (named members).get title 3 p with
    | error => rfl
    | ok =>
      cases (named members).get title 3 q <;> rfl

end Parts

/-- **A request without parameters cannot be read**: if all else fits, they are missed. -/
theorem Request.ofJson_without {members : Members} (distinct : (members.map (·.1)).Nodup)
    {params : Json} (there : ("params", params) ∈ members) :
    ofJson (.object (without members "params")) =
      ofJson (.object members) >>= fun _ => .error (.missingField "params") :=
  Parts.threeOuter_without (p := ⟨0, "id", readInt64⟩) (q := ⟨1, "method", readString⟩)
    (r := ⟨2, "params", .ok⟩) distinct there rfl (by decide) (by decide) _ _

/-! ## What a client sends -/

namespace Client

/-- The object a client makes a request of; what has not been written is undefined. -/
def requestTree (id : Int64) (method : String) (params : Option Tree) : Tree :=
  .node false [("id", .atom (.number (.whole (.ofInt64 id)))), ("method", .atom (.string method)),
    ("params", params.getD (.atom .undefined))]

/-- For an argument that is undefined, the parameters are left out. -/
theorem toJson?_requestTree {dateText : TemporalKind → String → String} {copied : Bool}
    {untyped : Json → Tree → Prop} {s : Shape} {v : Value} (id : Int64) (method : String)
    (denotes : s.Denotes untyped (.atom .undefined) v) :
    (requestTree id method (content copied s (.atom .undefined))).toJson? dateText =
      some (.object [("id", .ofInt64 id), ("method", .string method)]) := by
  have unsent : sent dateText copied s (.atom .undefined) = none := sent_undefined denotes
  have noText : ((content copied s (.atom .undefined)).getD (.atom .undefined)).toJson? dateText =
      none := by
    rw [sent] at unsent
    cases written : content copied s (.atom .undefined) with
    | none => rfl
    | some t => rwa [written, Option.bind_some] at unsent
  rw [requestTree, Tree.toJson?, Tree.memberJsons_eq]
  simp only [List.map_cons, List.map_nil, noText]
  rfl

end Client

/-! ## What becomes of it -/

variable {C : Type}

theorem Json.IsResponse.unique {j id id' : Json} (h : j.IsResponse id) (h' : j.IsResponse id') :
    id = id' := by
  obtain ⟨name, content, -, rfl⟩ := h
  obtain ⟨name', content', -, same⟩ := h'
  simp only [Json.object.injEq, List.cons.injEq, Prod.mk.injEq, and_true] at same
  exact same.2.2.2

namespace Dispatcher

theorem callJson_of_readable {d : Dispatcher C} {request : Json} {r : Request}
    (readable : Request.ofJson request = .ok r) (mode : Mode) (context : C) :
    d.callJson mode request context =
      (d.answer context (.ofInt64 r.id) ((d.run mode r context).run []).1,
        ((d.run mode r context).run []).2) := by
  rw [callJson, readable]
  rfl

/-- What a call comes to if it is not made with a request: an answer without a number. -/
def refusal (d : Dispatcher C) (context : C) (m : Misfit) : Except RpcError Json × List Event :=
  (d.answerError context .null (.invalidRequest m.message), [])

theorem callJson_of_unreadable {d : Dispatcher C} {request : Json} {m : Misfit}
    (unreadable : Request.ofJson request = .error m) (mode : Mode) (context : C) :
    d.callJson mode request context = d.refusal context m := by
  rw [callJson, unreadable, refusal]

theorem call_of_parsed {d : Dispatcher C} {text : List Symbol} {request : Json}
    (parsed : Json.parseSymbols text = .ok request) (mode : Mode) (context : C) :
    d.call mode text context = ((d.callJson mode request context).1.map Json.compact,
      (d.callJson mode request context).2) := by
  rw [call, parsed]

/-- Behind hooks that pass, parameters that cannot be read end the run. -/
theorem run_of_misread {d : Dispatcher C} {mode : Mode} {context : C} {r : Request} {h : Handler C}
    {w : WireError} (named : d.registry.find? r.method = some h)
    (callable : ¬(h.awaited && mode = .blocking) = true)
    (pass : ∀ k ∈ h.hooks, k.check context = .ok ())
    (misread : h.procedure.input.decode r.params = .error w) :
    (d.run mode r context).run [] = (.error (.validation "params" w), h.hooks.map Hook.event) := by
  rw [run_of_pass named callable pass, Handler.outcome, misread, List.append_nil]
  rfl

/-- A request that is read and invalid all the same has started something: only a hook or a body
says so. -/
theorem started_of_invalidRequest {d : Dispatcher C} {mode : Mode} {r : Request} {context : C}
    {message : String}
    (failed : ((d.run mode r context).run []).1 = .error (.invalidRequest message)) :
    ((d.run mode r context).run []).2 ≠ [] := by
  cases named : d.registry.find? r.method with
  | none =>
    rw [run_of_unnamed named] at failed
    cases failed
  | some h =>
    by_cases callable : (h.awaited && mode = .blocking) = true
    · rw [run_awaitedOnly named callable] at failed
      cases failed
    · rcases Hook.pass_or_refused context h.hooks with
        pass | ⟨front, k, back, e, hooks, pass, refused⟩
      · cases read : h.procedure.input.decode r.params with
        | ok v =>
          rw [run_of_pass named callable pass, read]
          exact List.append_ne_nil_of_right_ne_nil _ (List.cons_ne_nil _ _)
        | error w =>
          rw [run_of_misread named callable pass read] at failed
          cases failed
      · rw [run_of_refused named callable hooks pass refused]
        exact List.append_ne_nil_of_right_ne_nil _ (List.cons_ne_nil _ _)

/-- **No request is answered like what is none.** -/
theorem refusal_ne_callJson {d : Dispatcher C} {mode : Mode} {context : C} {request : Json}
    {r : Request} (readable : Request.ofJson request = .ok r) (m : Misfit) :
    d.refusal context m ≠ d.callJson mode request context := by
  rw [callJson_of_readable readable]
  intro same
  obtain ⟨answer, events⟩ := Prod.mk.inj same
  cases answered : d.answerError context .null (.invalidRequest m.message) with
  | ok j =>
    have numbered := isResponse_of_answer (answer.symm.trans answered)
    change d.answer context .null (.error (.invalidRequest m.message)) = .ok j at answered
    have unnumbered := isResponse_of_answer answered
    cases numbered.unique unnumbered
  | error e =>
    have failed := (answer_eq_error.1 (answer.symm.trans answered)).1
    change d.answer context .null (.error (.invalidRequest m.message)) = .error e at answered
    obtain rfl := Except.error.inj (answer_eq_error.1 answered).1
    exact started_of_invalidRequest failed events.symm

section Null

variable {d : Dispatcher C} {mode : Mode} {context : C} {members : Members} {r : Request}
  (distinct : (members.map (·.1)).Nodup)

include distinct

/-- The parameters of a request are what stands under their name. -/
theorem params_of_mem {params : Json} (there : ("params", params) ∈ members)
    (holds : (Json.object members).Envelopes r) : r.params = params := by
  obtain ⟨-, -, there'⟩ | _ := holds
  have found := lookup_eq_some_of_mem distinct there
  exact Option.some.inj ((lookup_eq_some_of_mem distinct there').symm.trans found)

/-- With null, a handler is served that takes null. -/
theorem events_of_null (null : ("params", .null) ∈ members)
    (holds : (Json.object members).Envelopes r) {h : Handler C} {v : Value}
    (named : d.registry.find? r.method = some h)
    (callable : ¬(h.awaited && mode = .blocking) = true)
    (pass : ∀ k ∈ h.hooks, k.check context = .ok ())
    (read : h.procedure.input.decode .null = .ok v) :
    (d.callJson mode (.object members) context).2 = h.hooks.map Hook.event ++ [.body v] := by
  rw [callJson_of_readable ((Request.ofJson_object_eq_ok distinct).2 holds),
    run_of_pass named callable pass, params_of_mem distinct null holds, read]

variable {params : Json} (there : ("params", params) ∈ members)

include there

/-- Without parameters, nothing is. -/
theorem callJson_without (holds : (Json.object members).Envelopes r) :
    d.callJson mode (.object (without members "params")) context =
      d.refusal context (.missingField "params") := by
  refine callJson_of_unreadable ?_ mode context
  rw [Request.ofJson_without distinct there, (Request.ofJson_object_eq_ok distinct).2 holds,
    ok_bind]

/-- Leaving out the parameters makes no difference only to what is no request. -/
theorem callJson_without_eq_iff :
    d.callJson mode (.object (without members "params")) context =
      d.callJson mode (.object members) context ↔ ¬∃ r, (Json.object members).Envelopes r := by
  have reads {r : Request} : Request.ofJson (.object members) = .ok r ↔ _ :=
    Request.ofJson_object_eq_ok distinct
  constructor
  · rintro same ⟨r, holds⟩
    exact refusal_ne_callJson (reads.2 holds) _
      ((callJson_without distinct there holds).symm.trans same)
  · intro none
    cases read : Request.ofJson (.object members) with
    | ok r => exact absurd ⟨r, reads.1 read⟩ none
    | error m =>
      have still : Request.ofJson (.object (without members "params")) = .error m := by
        rw [Request.ofJson_without distinct there, read, error_bind]
      rw [callJson_of_unreadable read, callJson_of_unreadable still]

end Null

/-- What a client sends for an argument that is undefined is refused. -/
theorem callJson_requestTree (d : Dispatcher C) (mode : Mode) (context : C)
    {dateText : TemporalKind → String → String} {copied : Bool}
    {untyped : Json → Client.Tree → Prop} {s : Shape} {v : Value}
    (denotes : s.Denotes untyped (.atom .undefined) v) (id : Int64) (method : String) :
    let params := Client.content copied s (.atom .undefined)
    ∃ j, (Client.requestTree id method params).toJson? dateText = some j ∧
      d.callJson mode j context = d.refusal context (.missingField "params") := by
  let members : Members := [("id", .ofInt64 id), ("method", .string method), ("params", .null)]
  have holds : (Json.object members).Envelopes ⟨id, method, .null⟩ :=
    .object (.head _) (.tail _ (.head _)) (.tail _ (.tail _ (.head _)))
  have distinct : (members.map (·.1)).Nodup := show ["id", "method", "params"].Nodup by decide
  have there : ("params", .null) ∈ members := .tail _ (.tail _ (.head _))
  exact ⟨_, Client.toJson?_requestTree id method denotes, callJson_without distinct there holds⟩

/-- **Parameters that are left out are not null.**  A request with null as its parameters is served
if the procedure takes null: the hooks and the body of its handler are started.  Without its
parameters it is refused by every dispatcher, in both kinds of calls, without a number and before
anything is started; so it is never answered alike, unless it has been no request before.  And this
is what a client sends for an argument that is undefined. -/
theorem unserved_of_absent (d : Dispatcher C) (mode : Mode) (context : C) {members : Members}
    (distinct : (members.map (·.1)).Nodup) (null : ("params", .null) ∈ members) :
    (∀ r h v, (Json.object members).Envelopes r → d.registry.find? r.method = some h →
      ¬(h.awaited && mode = .blocking) = true → (∀ k ∈ h.hooks, k.check context = .ok ()) →
      h.procedure.input.decode .null = .ok v →
        (d.callJson mode (.object members) context).2 = h.hooks.map Hook.event ++ [.body v]) ∧
    (∀ r, (Json.object members).Envelopes r →
      d.callJson mode (.object (without members "params")) context =
        d.refusal context (.missingField "params") ∧
      ∀ text, Json.parseSymbols text = .ok (.object (without members "params")) →
        d.call mode text context =
          ((d.refusal context (.missingField "params")).1.map Json.compact, [])) ∧
    (d.callJson mode (.object (without members "params")) context =
      d.callJson mode (.object members) context ↔ ¬∃ r, (Json.object members).Envelopes r) ∧
    ∀ (dateText : TemporalKind → String → String) (copied : Bool)
      (untyped : Json → Client.Tree → Prop) (s : Shape) (v : Value) (id : Int64) (method : String),
      s.Denotes untyped (.atom .undefined) v →
        let params := Client.content copied s (.atom .undefined)
        ∃ j, (Client.requestTree id method params).toJson? dateText = some j ∧
          d.callJson mode j context = d.refusal context (.missingField "params") := by
  refine ⟨fun r h v holds => events_of_null distinct null holds, fun r holds => ?_,
    callJson_without_eq_iff distinct null, fun dateText copied untyped s v id method denotes =>
      d.callJson_requestTree mode context denotes id method⟩
  have refused : d.callJson mode (.object (without members "params")) context = _ :=
    callJson_without distinct null holds
  refine ⟨refused, fun text parsed => ?_⟩
  rw [call_of_parsed parsed, refused, refusal]

/-- A procedure that takes nothing: it is served with null and refused without. -/
theorem unserved_of_absent_ping :
    let ping : Handler Unit := ⟨⟨"ping", .scalar .none, .scalar .int⟩, false, [], [],
      fun _ _ => .ok (.int 3)⟩
    let disp : Dispatcher Unit := ⟨⟨[ping], by decide⟩, empty.mapError⟩
    let bare := [("id", Json.ofInt64 1), ("method", .string "ping")]
    (disp.callJson .blocking (.object (bare ++ [("params", .null)])) ()).2 = [.body .null] ∧
    disp.callJson .blocking (.object bare) () = disp.refusal () (.missingField "params") ∧
    disp.callJson .blocking (.object bare) () ≠
      disp.callJson .blocking (.object (bare ++ [("params", .null)])) () ∧
    ∀ dateText,
      let params := Client.content false (.scalar .none) (.atom .undefined)
      ∃ j, (Client.requestTree 1 "ping" params).toJson? dateText = some j ∧
        disp.callJson .blocking j () = disp.refusal () (.missingField "params") := by
  intro ping disp bare
  have holds : (Json.object (bare ++ [("params", .null)])).Envelopes ⟨1, "ping", .null⟩ :=
    .object (.head _) (.tail _ (.head _)) (.tail _ (.tail _ (.head _)))
  have null : ("params", .null) ∈ bare ++ [("params", Json.null)] := .tail _ (.tail _ (.head _))
  obtain ⟨served, refused, differs, sent⟩ := disp.unserved_of_absent .blocking () (by decide) null
  have takesNull : ping.procedure.input.decode .null = .ok .null := by cbv
  have unguarded : ∀ k ∈ ping.hooks, k.check () = .ok () := List.forall_mem_nil _
  refine ⟨served _ ping _ holds rfl (by decide) unguarded takesNull, (refused _ holds).1,
    fun same => differs.1 same ⟨_, holds⟩, fun dateText => ?_⟩
  exact sent dateText false (fun _ _ => True) (.scalar .none) .null 1 "ping" ⟨.none, .undefined⟩

end Dispatcher

end RpcBridge
