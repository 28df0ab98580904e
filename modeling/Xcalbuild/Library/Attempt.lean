/-
**Attempts.**

An attempt changes a state and can fail; what it did before it failed stays done. This is
`EStateM`, so a member function that throws or returns an error code in the middle is written in the
order of its statements.

`forEach_inv_iff` is the rule for a loop of attempts that stops at the first failure: when every
element that is good keeps an invariant, every element that is bad breaks it, and every element that
is not good ends the loop, the invariant holds after the loop exactly when the first element that is
not good is not bad. `forEach_keeps` is the rule for a loop that got to its end.
-/
import Xcalbuild.Library.Checks

namespace Xcalbuild.Library

/-- A computation that can fail and keeps the state when it does. -/
abbrev Attempt (σ ε α : Type) : Type := EStateM ε σ α

namespace Attempt

variable {σ ε α β : Type}

/-- A change of the state. -/
def update (f : σ → σ) : Attempt σ ε Unit := modify f

theorem run_update (f : σ → σ) (s : σ) :
    (update f : Attempt σ ε Unit).run s = .ok () (f s) := rfl

/-- The state after an attempt. -/
def stateOf : EStateM.Result ε σ α → σ
  | .ok _ s => s
  | .error _ s => s

/-- A computation without a state. -/
def lift : Except ε α → Attempt σ ε α
  | .ok a => pure a
  | .error e => throw e

theorem run_lift_ok {x : Except ε α} {a : α} (passed : x = .ok a) (s : σ) :
    (lift x : Attempt σ ε α).run s = .ok a s := by
  rw [passed]
  rfl

theorem run_lift_error {x : Except ε α} {e : ε} (failed : x = .error e) (s : σ) :
    (lift x : Attempt σ ε α).run s = .error e s := by
  rw [failed]
  rfl

theorem run_bind (x : Attempt σ ε α) (f : α → Attempt σ ε β) (s : σ) :
    (x >>= f).run s = match x.run s with
      | .ok a s' => (f a).run s'
      | .error e s' => .error e s' := by
  show EStateM.bind x f s = _
  unfold EStateM.bind EStateM.run
  cases x s with
  | ok a s' => rfl
  | error e s' => rfl

theorem run_bind_ok {x : Attempt σ ε α} {f : α → Attempt σ ε β} {s s' : σ} {a : α}
    (passed : x.run s = .ok a s') : (x >>= f).run s = (f a).run s' := by
  rw [run_bind, passed]

theorem run_bind_error {x : Attempt σ ε α} {f : α → Attempt σ ε β} {s s' : σ} {e : ε}
    (failed : x.run s = .error e s') : (x >>= f).run s = .error e s' := by
  rw [run_bind, failed]

/-- A sequence that succeeded is two parts that did. -/
theorem run_bind_eq_ok {x : Attempt σ ε α} {f : α → Attempt σ ε β} {s s'' : σ} {b : β}
    (ran : (x >>= f).run s = .ok b s'') :
    ∃ a s', x.run s = .ok a s' ∧ (f a).run s' = .ok b s'' := by
  rw [run_bind] at ran
  cases first : x.run s with
  | ok a s' =>
    rw [first] at ran
    exact ⟨a, s', rfl, ran⟩
  | error e s' =>
    rw [first] at ran
    cases ran

theorem run_lift_eq_ok {x : Except ε α} {s s' : σ} {a : α}
    (ran : (lift x : Attempt σ ε α).run s = .ok a s') : x = .ok a ∧ s' = s := by
  cases x with
  | ok b =>
    cases ran
    exact ⟨rfl, rfl⟩
  | error e => cases ran

/-- `for(const auto &elem: elems)` with a body that can fail. -/
def forEach (body : α → Attempt σ ε Unit) : List α → Attempt σ ε Unit
  | [] => pure ()
  | elem :: rest => do
      body elem
      forEach body rest

/-- **What every pass that succeeds keeps, a loop that succeeds keeps.** -/
theorem forEach_keeps {inv : σ → Prop} {body : α → Attempt σ ε Unit} {elems : List α}
    (each : ∀ elem s s', inv s → (body elem).run s = .ok () s' → inv s') {s s' : σ} (holds : inv s)
    (ran : (forEach body elems).run s = .ok () s') : inv s' := by
  induction elems generalizing s with
  | nil =>
    cases ran
    exact holds
  | cons elem rest ih =>
    obtain ⟨_, middle, first, later⟩ := run_bind_eq_ok ran
    exact ih (each elem s middle holds first) later

/-- What an element does to a state of the invariant. -/
inductive Fate (inv : σ → Prop) (good bad : α → Prop) (elem : α) : EStateM.Result ε σ Unit → Prop
  | passes (s : σ) : good elem → ¬ bad elem → inv s → Fate inv good bad elem (.ok () s)
  | fails (e : ε) (s : σ) : ¬ good elem → ¬ bad elem → inv s → Fate inv good bad elem (.error e s)
  | breaks (e : ε) (s : σ) : ¬ good elem → bad elem → ¬ inv s → Fate inv good bad elem (.error e s)

/-- **After a loop the invariant holds exactly when the first element that is not good is not
bad.** -/
theorem forEach_inv_iff {inv : σ → Prop} {good bad : α → Prop} {body : α → Attempt σ ε Unit}
    (each : ∀ elem s, inv s → Fate inv good bad elem ((body elem).run s)) (elems : List α) (s : σ)
    (holds : inv s) :
    inv (stateOf ((forEach body elems).run s)) ↔ ¬ FirstAt good bad elems := by
  induction elems generalizing s with
  | nil => exact iff_of_true holds firstAt_nil
  | cons elem rest ih =>
    have fate := each elem s holds
    rw [firstAt_cons, not_or]
    unfold forEach
    generalize ran : (body elem).run s = result at fate
    cases fate with
    | passes s' isGood notBad holds' =>
      rw [run_bind_ok ran, ih s' holds', and_iff_right notBad]
      exact not_congr (and_iff_right isGood).symm
    | fails e s' notGood notBad holds' =>
      rw [run_bind_error ran]
      exact iff_of_true holds' ⟨notBad, fun both => notGood both.1⟩
    | breaks e s' notGood isBad broken =>
      rw [run_bind_error ran]
      exact iff_of_false broken fun both => both.1 isBad

end Attempt

end Xcalbuild.Library
