/-
**Runs of a system, event by event.**

A system is a function that gives the state after an event, if the event is possible. `Reaches step
start events state` says that these events, in this order, lead to the state.

* `Reaches.invariant`: what holds at the start and is kept by every event holds at every state,
  together with the events so far;
* `Reaches.trans`: runs one after another;
* `reaches_of_foldlM`: a run that can be evaluated;
* `restrict`: the system in which an event is possible only where it is allowed.
-/
import Mathlib.Data.List.Basic

namespace Xcalbuild.Library

section Reach

variable {σ ε : Type} {step : σ → ε → Option σ} {start : σ}

/-- **The states that a run of events leads to.** -/
inductive Reaches (step : σ → ε → Option σ) (start : σ) : List ε → σ → Prop
  | start : Reaches step start [] start
  | step {events : List ε} {state state' : σ} {event : ε} : Reaches step start events state →
      step state event = some state' → Reaches step start (events ++ [event]) state'

/-- **The invariant rule**, for what relates a state to the events that led to it. -/
theorem Reaches.invariant (inv : List ε → σ → Prop) (entry : inv [] start)
    (kept : ∀ events state event state', Reaches step start events state → inv events state →
      step state event = some state' → inv (events ++ [event]) state')
    {events : List ε} {state : σ} (run : Reaches step start events state) : inv events state := by
  induction run with
  | start => exact entry
  | step run stepped ih => exact kept _ _ _ _ run ih stepped

/-- The run ends with a run that has been taken before it. -/
theorem Reaches.trans {events later : List ε} {state last : σ}
    (run : Reaches step start events state) (more : Reaches step state later last) :
    Reaches step start (events ++ later) last := by
  induction more with
  | start => rwa [List.append_nil]
  | step _ stepped ih =>
    rw [← List.append_assoc]
    exact .step ih stepped

/-- One event. -/
theorem Reaches.single {event : ε} {state : σ} (stepped : step start event = some state) :
    Reaches step start [event] state := .step .start stepped

/-- The event first, and then the run. -/
theorem Reaches.cons {event : ε} {events : List ε} {state last : σ}
    (stepped : step start event = some state) (more : Reaches step state events last) :
    Reaches step start (event :: events) last := (Reaches.single stepped).trans more

theorem reaches_of_foldlM {events : List ε} {last : σ} (run : events.foldlM step start = some last) :
    Reaches step start events last := by
  induction events generalizing start with
  | nil =>
    cases run
    exact .start
  | cons event events ih =>
    rw [List.foldlM_cons] at run
    obtain ⟨state, stepped, rest⟩ := Option.bind_eq_some_iff.mp run
    exact .cons stepped (ih rest)

/-! ### Restricted systems -/

/-- The system with the events that are allowed in their state. -/
def restrict (step : σ → ε → Option σ) (allowed : σ → ε → Bool) (state : σ) (event : ε) : Option σ :=
  if allowed state event then step state event else none

variable {allowed : σ → ε → Bool}

theorem restrict_eq_some {state state' : σ} {event : ε} :
    restrict step allowed state event = some state' ↔
      allowed state event = true ∧ step state event = some state' := by
  unfold restrict
  split_ifs with allows <;> simp [allows]

/-- A run of the restricted system is one of the system. -/
theorem Reaches.unrestrict {events : List ε} {state : σ}
    (run : Reaches (restrict step allowed) start events state) : Reaches step start events state := by
  induction run with
  | start => exact .start
  | step _ stepped ih => exact .step ih (restrict_eq_some.mp stepped).2

end Reach

end Xcalbuild.Library
