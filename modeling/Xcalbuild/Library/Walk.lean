/-
**What a walk passes over.**

A loop whose passes move a position forward passes over every place on its way exactly once.

* `Covers i s t`: the pass from the head `s` to the head `t` moves over the place `i`;
* `heads_comparable`: of two heads of one run, one comes before the other;
* `covers_before`, `covers_unique`: every place before a head is covered, by one pass;
* `log_of_passes`: a log to which each pass appends either an entry for each place it passes over or
  nothing has one entry for each place of the passes that append, in order.
-/
import Mathlib.Data.List.Forall2
import Xcalbuild.Library.Loop

namespace Xcalbuild.Library.Loop

variable {σ ε : Type} {loop : Loop σ ε}

/-! ### Heads of one run -/

theorem Heads.trans {start s t : σ} (first : loop.Heads start s) (second : loop.Heads s t) :
    loop.Heads start t := by
  induction second with
  | enter => exact first
  | pass _ notDone step ih => exact .pass ih notDone step

/-- The pass out of a head is the only way on from it. -/
theorem Heads.split {s s' t : σ} (notDone : loop.done s = false) (step : loop.body s = .next s')
    (heads : loop.Heads s t) : t = s ∨ loop.Heads s' t := by
  induction heads with
  | enter => exact Or.inl rfl
  | pass _ notDone' step' ih =>
    rcases ih with rfl | further
    · rw [step] at step'
      cases step'
      exact Or.inr .enter
    · exact Or.inr (.pass further notDone' step')

/-- There is no way on from a head where the loop is done. -/
theorem Heads.eq_of_done {s t : σ} (done : loop.done s = true) (heads : loop.Heads s t) : t = s := by
  induction heads with
  | enter => rfl
  | pass _ notDone _ ih =>
    rw [ih, done] at notDone
    cases notDone

/-- **Of two heads of one run, one comes before the other.** -/
theorem heads_comparable {start s t : σ} (first : loop.Heads start s)
    (second : loop.Heads start t) : loop.Heads s t ∨ loop.Heads t s := by
  induction first with
  | enter => exact Or.inl second
  | @pass s s' _ notDone step ih =>
    rcases ih with ahead | behind
    · rcases ahead.split notDone step with rfl | further
      · exact Or.inr (.pass .enter notDone step)
      · exact Or.inl further
    · exact Or.inr (.pass behind notDone step)

/-- The pass from the head `state` to the head `state'` moves over the place `i`. -/
structure Covers (loop : Loop σ ε) (position : σ → Nat) (start : σ) (i : Nat) (state state' : σ) :
    Prop where
  heads : loop.Heads start state
  notDone : loop.done state = false
  step : loop.body state = .next state'
  lower : position state ≤ i
  upper : i < position state'

/-- Every pass that goes on moves the position forward. -/
def Advances (loop : Loop σ ε) (position : σ → Nat) : Prop :=
  ∀ s s', loop.body s = .next s' → position s < position s'

/-- A loop that ends at its condition has a head there. -/
theorem run_finished {fuel : Nat} {start final : σ} (run : loop.run fuel start = .finished final) :
    loop.Heads start final ∧ loop.done final = true := by
  induction fuel generalizing start with
  | zero =>
    unfold Loop.run at run
    split_ifs at run with done
    cases run
    exact ⟨.enter, done⟩
  | succ fuel ih =>
    unfold Loop.run at run
    split_ifs at run with done
    · cases run
      exact ⟨.enter, done⟩
    · cases step : loop.body start with
      | next state =>
        rw [step] at run
        obtain ⟨heads, atEnd⟩ := ih run
        exact ⟨heads.head (Bool.not_eq_true _ ▸ done) step, atEnd⟩
      | leave state => rw [step] at run; cases run
      | fault error => rw [step] at run; cases run

/-- A loop that ends by a `break` has a pass that leaves it. -/
theorem run_broke {fuel : Nat} {start final : σ} (run : loop.run fuel start = .broke final) :
    ∃ state, loop.body state = .leave final := by
  induction fuel generalizing start with
  | zero =>
    unfold Loop.run at run
    split_ifs at run
  | succ fuel ih =>
    unfold Loop.run at run
    split_ifs at run with done
    cases step : loop.body start with
    | next state => rw [step] at run; exact ih run
    | leave state => rw [step] at run; cases run; exact ⟨start, step⟩
    | fault error => rw [step] at run; cases run

section Walk

variable {position : σ → Nat} {start : σ}

/-- The position never goes back. -/
theorem position_mono (advances : loop.Advances position) {s t : σ} (heads : loop.Heads s t) :
    position s ≤ position t := by
  induction heads with
  | enter => exact Nat.le_refl _
  | @pass t t' _ _ step ih =>
    have forward := advances t t' step
    omega

/-- A head that comes after the head `s` is `s` or comes after the pass out of `s`. -/
theorem position_after (advances : loop.Advances position) {s s' t : σ}
    (notDone : loop.done s = false) (step : loop.body s = .next s') (heads : loop.Heads s t) :
    t = s ∨ position s' ≤ position t := by
  rcases heads.split notDone step with same | further
  · exact Or.inl same
  · exact Or.inr (position_mono advances further)

/-- **No place is passed over twice.** -/
theorem covers_unique (advances : loop.Advances position) {i : Nat} {s s' t t' : σ}
    (first : loop.Covers position start i s s') (second : loop.Covers position start i t t') :
    s = t ∧ s' = t' := by
  have same : s = t := by
    have lower := first.lower
    have upper := first.upper
    have lower' := second.lower
    have upper' := second.upper
    rcases heads_comparable first.heads second.heads with ahead | behind
    · rcases position_after advances first.notDone first.step ahead with same | after
      · exact same.symm
      · omega
    · rcases position_after advances second.notDone second.step behind with same | after
      · exact same
      · omega
  subst same
  have step := first.step
  rw [second.step] at step
  cases step
  exact ⟨rfl, rfl⟩

/-- **Every place before a head is passed over on the way to it.** -/
theorem covers_before {i : Nat} (lower : position start ≤ i) {final : σ}
    (heads : loop.Heads start final) (upper : i < position final) :
    ∃ state state', loop.Covers position start i state state' := by
  induction heads with
  | enter => omega
  | @pass s s' before notDone step ih =>
    by_cases earlier : i < position s
    · exact ih earlier
    · exact ⟨s, s', before, notDone, step, Nat.le_of_not_lt earlier, upper⟩

/-! ### Logs -/

/-- A place is covered by one pass, so that a relation of the pass that covers it is one of that pass. -/
theorem covered_iff (advances : loop.Advances position) {s s' : σ} (before : loop.Heads start s)
    (notDone : loop.done s = false) (step : loop.body s = .next s') (appends : σ → σ → Prop) {i : Nat}
    (lower : position s ≤ i) (upper : i < position s') :
    (∃ t t', loop.Covers position start i t t' ∧ appends t t') ↔ appends s s' := by
  have covers : loop.Covers position start i s s' := ⟨before, notDone, step, lower, upper⟩
  refine ⟨?_, fun holds => ⟨s, s', covers, holds⟩⟩
  rintro ⟨t, t', covers', holds⟩
  obtain ⟨rfl, rfl⟩ := covers_unique advances covers covers'
  exact holds

/-- **A log of passes has one entry for each of its places, in order.** Each pass appends one entry
for each place it passes over, or nothing; `entry` says what an entry has to do with its place. -/
theorem log_of_passes {α : Type} (advances : loop.Advances position) (log : σ → List α)
    (entry : Nat → α → Prop) (appends : σ → σ → Prop) (empty : log start = [])
    (passes : ∀ s s', loop.Heads start s → loop.done s = false → loop.body s = .next s' →
      (appends s s' ∧ ∃ new, log s' = log s ++ new ∧
          List.Forall₂ entry (List.range' (position s) (position s' - position s)) new) ∨
        (¬ appends s s' ∧ log s' = log s)) {final : σ} (heads : loop.Heads start final) :
    ∃ places : List Nat, places.Pairwise (· < ·) ∧
      (∀ i, i ∈ places ↔ i < position final ∧
        ∃ s s', loop.Covers position start i s s' ∧ appends s s') ∧
      List.Forall₂ entry places (log final) := by
  induction heads with
  | enter =>
    refine ⟨[], List.Pairwise.nil, fun i => ⟨fun member => absurd member List.not_mem_nil, ?_⟩, ?_⟩
    · rintro ⟨before, s, s', covers, -⟩
      have forward := position_mono advances covers.heads
      have lower := covers.lower
      omega
    · rw [empty]
      exact List.Forall₂.nil
  | @pass s s' before notDone step ih =>
    obtain ⟨places, sorted, listed, logged⟩ := ih
    have forward := advances s s' step
    -- the places of this pass, by the uniqueness of the pass that covers a place
    have here : ∀ i, position s ≤ i → i < position s' →
        ((∃ t t', loop.Covers position start i t t' ∧ appends t t') ↔ appends s s') :=
      fun i lower upper => covered_iff advances before notDone step appends lower upper
    rcases passes s s' before notDone step with ⟨holds, new, appended, entries⟩ | ⟨fails, same⟩
    · refine ⟨places ++ List.range' (position s) (position s' - position s), ?_, ?_, ?_⟩
      · refine List.pairwise_append.mpr ⟨sorted, List.pairwise_lt_range', ?_⟩
        intro i early j late
        have lower := (List.mem_range'_1.mp late).1
        have upper := ((listed i).mp early).1
        omega
      · intro i
        rw [List.mem_append, listed i, List.mem_range'_1]
        constructor
        · rintro (⟨early, covered⟩ | ⟨lower, upper⟩)
          · exact ⟨by omega, covered⟩
          · have upper' : i < position s' := by omega
            exact ⟨upper', (here i lower upper').mpr holds⟩
        · rintro ⟨upper, covered⟩
          by_cases early : i < position s
          · exact Or.inl ⟨early, covered⟩
          · exact Or.inr ⟨by omega, by omega⟩
      · rw [appended]
        exact List.rel_append logged entries
    · refine ⟨places, sorted, fun i => ?_, by rwa [same]⟩
      rw [listed i]
      constructor
      · rintro ⟨early, covered⟩
        exact ⟨by omega, covered⟩
      · rintro ⟨upper, covered⟩
        by_cases early : i < position s
        · exact ⟨early, covered⟩
        · exact absurd ((here i (Nat.le_of_not_lt early) upper).mp covered) fails

/-- The log is kept as it grows. -/
theorem log_prefix {α : Type} (log : σ → List α)
    (passes : ∀ s s', loop.body s = .next s' → log s <+: log s') {final : σ}
    (heads : loop.Heads start final) : log start <+: log final := by
  induction heads with
  | enter => exact List.prefix_refl _
  | pass _ _ step ih => exact ih.trans (passes _ _ step)

end Walk

/-- A log whose entries are read at their places is the list of what is read there. -/
theorem eq_map_of_entries {ι α : Type} {read : ι → α} {places : List ι} {log : List α}
    (entries : List.Forall₂ (fun i entry => entry = read i) places log) :
    log = places.map read := by
  have same := List.forall₂_map_right_iff.mpr entries.flip
  rwa [List.forall₂_eq_eq_eq] at same

end Xcalbuild.Library.Loop
