import RpcBridge.Wire.Error

/-!
# Proofs/Wire/Outcome — steps that may fail, taken apart

A chain of steps succeeds exactly when each step does, and fails with the error of the step that
fails.  An error of a part keeps its cause when it becomes an error of the whole.
-/

namespace RpcBridge

section Chains

variable {ε α β : Type}

@[simp] theorem ok_bind (a : α) (f : α → Except ε β) : (Except.ok a >>= f) = f a := rfl

@[simp] theorem error_bind (e : ε) (f : α → Except ε β) : (Except.error e >>= f) = .error e := rfl

@[simp] theorem pure_eq_ok (a : α) : (pure a : Except ε α) = .ok a := rfl

theorem bind_eq_ok {x : Except ε α} {f : α → Except ε β} {b : β} :
    x >>= f = .ok b ↔ ∃ a, x = .ok a ∧ f a = .ok b := by
  cases x <;> simp

theorem bind_eq_error {x : Except ε α} {f : α → Except ε β} {e : ε} :
    x >>= f = .error e ↔ x = .error e ∨ ∃ a, x = .ok a ∧ f a = .error e := by
  cases x <;> simp

@[simp] theorem mapError_ok {ε' : Type} (f : ε → ε') (a : α) :
    (Except.ok a : Except ε α).mapError f = .ok a := rfl

@[simp] theorem mapError_error {ε' : Type} (f : ε → ε') (e : ε) :
    (Except.error e : Except ε α).mapError f = .error (f e) := rfl

theorem mapError_eq_ok {ε' : Type} {f : ε → ε'} {x : Except ε α} {a : α} :
    x.mapError f = .ok a ↔ x = .ok a := by
  cases x <;> simp

end Chains

namespace Wired

variable {α β : Type} {step : Step}

@[simp] theorem within_ok (a : α) : Wired.within step (.ok a) = .ok a := rfl

theorem within_eq_ok {w : Wired α} {a : α} : w.within step = .ok a ↔ w = .ok a := mapError_eq_ok

theorem within_eq_error {w : Wired α} {e : WireError} :
    w.within step = .error e ↔ ∃ inner, w = .error inner ∧ e = inner.within step := by
  cases w <;> simp [within, eq_comm]

theorem items_nil (item : α → Wired β) (start : Nat) : items item start [] = .ok [] := rfl

theorem items_cons (item : α → Wired β) (start : Nat) (a : α) (rest : List α) :
    items item start (a :: rest) =
      ((item a).within (.index start) >>= fun b =>
        items item (start + 1) rest >>= fun bs => .ok (b :: bs)) := rfl

end Wired

end RpcBridge
