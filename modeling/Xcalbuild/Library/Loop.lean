/-
**Loops with a condition, a `break` and faults.**

A `Loop` is the loop `while (!done) body` of an imperative program, as a function on the state the
body reads and writes. One pass through the body goes back to the head (`next`), leaves the loop
by a `break` (`leave`), or runs into a fault (`fault`).

* `Heads loop s t`: control reaches the head in state `t` when the loop is entered in state `s`;
* `heads_invariant`: what holds on entry and is kept by a pass holds at every head;
* `run_invariant`: and at the end of the loop, if a pass that leaves keeps it too;
* `run_cases`: how a loop can end at all;
* `run_of_progress`: if every pass at a head that is not done either leaves or lowers a measure,
  the loop ends without a fault, and it ends either at a head that is done or in a pass that
  leaves;
* `forEach` is a loop over a list whose body can leave it, and `forEach_cases` says where it ends;
  `mem_takeWhile_iff` says what comes before, in a list that increases;
* `walkSafe_of_invariant`: a loop whose passes move a position forward through a vector never
  leaves that vector.
-/
import Mathlib.Data.List.Basic

namespace Xcalbuild.Library

/-- What one pass through a loop body does. -/
inductive Pass (σ ε : Type) where
  | next (state : σ)
  | leave (state : σ)
  | fault (error : ε)

/-- How a loop ends: at its condition, by a `break`, in a fault, or (in the model only) with the
fuel used up. -/
inductive Exit (σ ε : Type) where
  | finished (state : σ)
  | broke (state : σ)
  | fault (error : ε)
  | exhausted

/-- `while (!done) body`. -/
structure Loop (σ ε : Type) where
  done : σ → Bool
  body : σ → Pass σ ε

namespace Loop

variable {σ ε : Type} (loop : Loop σ ε)

/-- The loop, for at most `fuel` passes. -/
def run : Nat → σ → Exit σ ε
  | 0, state => if loop.done state then .finished state else .exhausted
  | fuel + 1, state =>
      if loop.done state then .finished state else
        match loop.body state with
        | .next state' => run fuel state'
        | .leave state' => .broke state'
        | .fault error => .fault error

/-- Control reaches the head of the loop in the second state when it is entered in the first. -/
inductive Heads (start : σ) : σ → Prop
  | enter : Heads start start
  | pass {state state' : σ} : Heads start state → loop.done state = false →
      loop.body state = .next state' → Heads start state'

variable {loop}

theorem run_done {state : σ} (isDone : loop.done state = true) (fuel : Nat) :
    loop.run fuel state = .finished state := by
  cases fuel <;> simp [run, isDone]

theorem run_next {state state' : σ} (notDone : loop.done state = false)
    (step : loop.body state = .next state') (fuel : Nat) :
    loop.run (fuel + 1) state = loop.run fuel state' := by
  simp [run, notDone, step]

theorem run_leave {state state' : σ} (notDone : loop.done state = false)
    (step : loop.body state = .leave state') (fuel : Nat) :
    loop.run (fuel + 1) state = .broke state' := by
  simp [run, notDone, step]

theorem run_fault {state : σ} {error : ε} (notDone : loop.done state = false)
    (step : loop.body state = .fault error) (fuel : Nat) :
    loop.run (fuel + 1) state = .fault error := by
  simp [run, notDone, step]

/-- The heads after one pass are heads. -/
theorem Heads.head {state state' final : σ} (notDone : loop.done state = false)
    (step : loop.body state = .next state') (heads : loop.Heads state' final) :
    loop.Heads state final := by
  induction heads with
  | enter => exact .pass .enter notDone step
  | pass _ notDone' step' ih => exact .pass ih notDone' step'

/-- **The invariant rule.** What holds on entry and is kept by every pass holds at every head. -/
theorem heads_invariant {inv : σ → Prop} {start : σ} (entry : inv start)
    (kept : ∀ state state', inv state → loop.done state = false →
      loop.body state = .next state' → inv state')
    {state : σ} (heads : loop.Heads start state) : inv state := by
  induction heads with
  | enter => exact entry
  | pass _ notDone step ih => exact kept _ _ ih notDone step

/-- **The invariant rule for the end of the loop.** -/
theorem run_invariant (inv : σ → Prop) {fuel : Nat} {start final : σ} (entry : inv start)
    (kept : ∀ state state', inv state → loop.body state = .next state' → inv state')
    (left : ∀ state state', inv state → loop.body state = .leave state' → inv state')
    (ends : loop.run fuel start = .finished final ∨ loop.run fuel start = .broke final) :
    inv final := by
  induction fuel generalizing start with
  | zero =>
    unfold run at ends
    split_ifs at ends
    · obtain same | same := ends
      · cases same
        exact entry
      · cases same
    · obtain same | same := ends <;> cases same
  | succ fuel ih =>
    unfold run at ends
    split_ifs at ends
    · obtain same | same := ends
      · cases same
        exact entry
      · cases same
    · cases step : loop.body start with
      | next state =>
        rw [step] at ends
        exact ih (kept start state entry step) ends
      | leave state =>
        rw [step] at ends
        obtain same | same := ends
        · cases same
        · cases same
          exact left start _ entry step
      | fault error =>
        rw [step] at ends
        obtain same | same := ends <;> cases same

/-- **How a loop can end**, by the head at which it does. -/
theorem run_cases (fuel : Nat) (start : σ) :
    (∃ state, loop.Heads start state ∧ loop.done state = true ∧
        loop.run fuel start = .finished state) ∨
      (∃ state state', loop.Heads start state ∧ loop.body state = .leave state' ∧
        loop.run fuel start = .broke state') ∨
      (∃ state error, loop.Heads start state ∧ loop.body state = .fault error ∧
        loop.run fuel start = .fault error) ∨
      loop.run fuel start = .exhausted := by
  induction fuel generalizing start with
  | zero =>
    cases isDone : loop.done start with
    | true => exact Or.inl ⟨start, .enter, isDone, run_done isDone 0⟩
    | false =>
      refine Or.inr (Or.inr (Or.inr ?_))
      rw [run, isDone]
      rfl
  | succ fuel ih =>
    cases isDone : loop.done start with
    | true => exact Or.inl ⟨start, .enter, isDone, run_done isDone _⟩
    | false =>
      cases step : loop.body start with
      | next state' =>
        rw [run_next isDone step]
        rcases ih state' with ⟨state, heads, ends⟩ | ⟨state, final, heads, ends⟩ |
          ⟨state, error, heads, ends⟩ | spent
        · exact Or.inl ⟨state, heads.head isDone step, ends⟩
        · exact Or.inr (Or.inl ⟨state, final, heads.head isDone step, ends⟩)
        · exact Or.inr (Or.inr (Or.inl ⟨state, error, heads.head isDone step, ends⟩))
        · exact Or.inr (Or.inr (Or.inr spent))
      | leave state' =>
        exact Or.inr (Or.inl ⟨start, state', .enter, step, run_leave isDone step fuel⟩)
      | fault error =>
        exact Or.inr (Or.inr (Or.inl ⟨start, error, .enter, step, run_fault isDone step fuel⟩))

/-- **The progress rule.** If at every head that is not done the pass lowers the measure or leaves,
the loop ends, at a head that is done or in a pass that leaves. -/
theorem run_of_progress (measure : σ → Nat) (fuel : Nat) (start : σ)
    (progress : ∀ state, loop.Heads start state → loop.done state = false →
      (∃ state', loop.body state = .next state' ∧ measure state' < measure state) ∨
        ∃ state', loop.body state = .leave state')
    (enough : measure start < fuel) :
    (∃ state, loop.Heads start state ∧ loop.done state = true ∧
        loop.run fuel start = .finished state) ∨
      ∃ state state', loop.Heads start state ∧ loop.done state = false ∧
        loop.body state = .leave state' ∧ loop.run fuel start = .broke state' := by
  induction fuel generalizing start with
  | zero => omega
  | succ fuel ih =>
    cases isDone : loop.done start with
    | true => exact Or.inl ⟨start, .enter, isDone, run_done isDone _⟩
    | false =>
      rcases progress start .enter isDone with ⟨state', step, lower⟩ | ⟨state', step⟩
      · rw [run_next isDone step]
        rcases ih state' (fun state heads => progress state (heads.head isDone step)) (by omega)
          with ⟨state, heads, done, ends⟩ | ⟨state, final, heads, notDone, leaves, ends⟩
        · exact Or.inl ⟨state, heads.head isDone step, done, ends⟩
        · exact Or.inr ⟨state, final, heads.head isDone step, notDone, leaves, ends⟩
      · exact Or.inr ⟨start, state', .enter, isDone, step, run_leave isDone step fuel⟩

/-! ### Walks -/

/-- The loop walks a position through a vector: nothing it does faults, a pass moves the position
forward by one or two and not past the end, and the loop ends at the end or in a pass that leaves
it for the given reason. -/
structure WalkSafe (loop : Loop σ ε) (position : σ → Nat) (length : Nat) (reason : σ → Prop)
    (start : σ) : Prop where
  reads : ∀ state, loop.Heads start state → loop.done state = false →
    ∀ error, loop.body state ≠ .fault error
  moves : ∀ state state', loop.Heads start state → loop.done state = false →
    loop.body state = .next state' →
      (position state' = position state + 1 ∨ position state' = position state + 2) ∧
        position state' ≤ length
  ends : (∃ state, loop.Heads start state ∧ position state = length ∧
      loop.run (length + 1) start = .finished state) ∨
    ∃ state state', loop.Heads start state ∧ loop.done state = false ∧
      loop.body state = .leave state' ∧ position state' ≤ length ∧ reason state' ∧
        loop.run (length + 1) start = .broke state'

/-- **The walk rule.** An invariant under which every pass makes a legal move makes the walk
safe. -/
theorem walkSafe_of_invariant {position : σ → Nat} {length : Nat} {reason : σ → Prop}
    (inv : σ → Prop) {start : σ} (entry : inv start)
    (atEnd : ∀ state, loop.done state = true → position state = length)
    (pass : ∀ state, inv state → loop.done state = false →
      (∃ state', loop.body state = .next state' ∧ inv state' ∧
          (position state' = position state + 1 ∨ position state' = position state + 2) ∧
            position state' ≤ length) ∨
        ∃ state', loop.body state = .leave state' ∧ reason state' ∧ position state' ≤ length) :
    loop.WalkSafe position length reason start := by
  have invariant : ∀ state, loop.Heads start state → inv state := by
    intro state heads
    refine heads_invariant entry ?_ heads
    intro state state' holds notDone step
    rcases pass state holds notDone with ⟨next, step', kept, -⟩ | ⟨next, step', -⟩
    · rw [step] at step'
      cases step'
      exact kept
    · rw [step] at step'
      cases step'
  constructor
  · intro state heads notDone error faulty
    rcases pass state (invariant state heads) notDone with ⟨next, step, -⟩ | ⟨next, step, -⟩
    · rw [step] at faulty
      cases faulty
    · rw [step] at faulty
      cases faulty
  · intro state state' heads notDone step
    rcases pass state (invariant state heads) notDone with ⟨next, step', -, moved⟩ | ⟨next, step', -⟩
    · rw [step] at step'
      cases step'
      exact moved
    · rw [step] at step'
      cases step'
  · have progress : ∀ state, loop.Heads start state → loop.done state = false →
        (∃ state', loop.body state = .next state' ∧
          length - position state' < length - position state) ∨
          ∃ state', loop.body state = .leave state' := by
      intro state heads notDone
      rcases pass state (invariant state heads) notDone with
        ⟨next, step, -, moved, inside⟩ | ⟨next, step, -⟩
      · exact Or.inl ⟨next, step, by omega⟩
      · exact Or.inr ⟨next, step⟩
    rcases run_of_progress (fun state => length - position state) (length + 1) start progress
        (by omega) with ⟨state, heads, done, run⟩ | ⟨state, state', heads, notDone, step, run⟩
    · exact Or.inl ⟨state, heads, atEnd state done, run⟩
    · rcases pass state (invariant state heads) notDone with ⟨next, step', -⟩ | ⟨next, step', why⟩
      · rw [step] at step'
        cases step'
      · rw [step] at step'
        cases step'
        exact Or.inr ⟨state, state', heads, notDone, step, why.2, why.1, run⟩

end Loop

/-! ### Loops over a list -/

/-- `for (a : list) body`, where the body can leave the loop. -/
def forEach {σ ε α : Type} (body : α → σ → Pass σ ε) : List α → σ → Pass σ ε
  | [], state => .next state
  | a :: rest, state =>
      match body a state with
      | .next state' => forEach body rest state'
      | .leave state' => .leave state'
      | .fault error => .fault error

/-- **The rule for loops over a list.** With an invariant on the elements so far, the loop gets to
the end of the list, or it ends at the first element whose pass does not go on. -/
theorem forEach_cases {σ ε α : Type} {body : α → σ → Pass σ ε} (inv : List α → σ → Prop)
    (kept : ∀ done a state state', inv done state → body a state = .next state' →
      inv (done ++ [a]) state') (l : List α) {start : σ} (entry : inv [] start) :
    (∃ state, inv l state ∧ forEach body l start = .next state) ∨
      ∃ done a rest state, l = done ++ a :: rest ∧ inv done state ∧
        (∀ next, body a state ≠ .next next) ∧ forEach body l start = body a state := by
  have run : ∀ (l done : List α) (state : σ), inv done state →
      (∃ final, inv (done ++ l) final ∧ forEach body l state = .next final) ∨
        ∃ front a rest state', l = front ++ a :: rest ∧ inv (done ++ front) state' ∧
          (∀ next, body a state' ≠ .next next) ∧ forEach body l state = body a state' := by
    intro l
    induction l with
    | nil =>
      intro done state holds
      exact Or.inl ⟨state, by rwa [List.append_nil], rfl⟩
    | cons a rest ih =>
      intro done state holds
      unfold forEach
      cases step : body a state with
      | next state' =>
        rcases ih (done ++ [a]) state' (kept done a state state' holds step) with
          ⟨final, holds', ends⟩ | ⟨front, b, tail, last, parts, holds', stops, ends⟩
        · exact Or.inl ⟨final, by simpa using holds', ends⟩
        · exact Or.inr ⟨a :: front, b, tail, last, by rw [parts, List.cons_append],
            by simpa using holds', stops, ends⟩
      | leave state' =>
        refine Or.inr ⟨[], a, rest, state, rfl, by rwa [List.append_nil], ?_, step.symm⟩
        rw [step]
        exact fun next same => nomatch same
      | fault error =>
        refine Or.inr ⟨[], a, rest, state, rfl, by rwa [List.append_nil], ?_, step.symm⟩
        rw [step]
        exact fun next same => nomatch same
  exact run l [] start entry

/-- The elements before the first one without a property, in a list that increases. -/
theorem mem_takeWhile_iff {α : Type} {key : α → Nat} {p : α → Bool} {l : List α}
    (increasing : l.Pairwise fun first second => key first < key second) {x : α} :
    x ∈ l.takeWhile p ↔ x ∈ l ∧ p x = true ∧ ∀ y ∈ l, p y = false → key x < key y := by
  induction l with
  | nil => exact iff_of_false List.not_mem_nil fun all => List.not_mem_nil all.1
  | cons first rest ih =>
    obtain ⟨least, increasing⟩ := List.pairwise_cons.mp increasing
    by_cases holds : p first = true
    · rw [List.takeWhile_cons_of_pos holds, List.mem_cons, List.mem_cons, ih increasing,
        List.forall_mem_cons]
      constructor
      · rintro (rfl | ⟨member, px, before⟩)
        · exact ⟨Or.inl rfl, holds, fun fails => absurd holds (by rw [fails]; decide),
            fun y member _ => least y member⟩
        · exact ⟨Or.inr member, px, fun fails => absurd holds (by rw [fails]; decide), before⟩
      · rintro ⟨rfl | member, px, -, before⟩
        · exact Or.inl rfl
        · exact Or.inr ⟨member, px, before⟩
    · rw [List.takeWhile_cons_of_neg holds]
      refine iff_of_false List.not_mem_nil ?_
      rintro ⟨member, px, before⟩
      have below := before first List.mem_cons_self ((Bool.not_eq_true _).mp holds)
      rcases List.mem_cons.mp member with rfl | member
      · exact Nat.lt_irrefl _ below
      · exact Nat.lt_asymm below (least x member)

end Xcalbuild.Library
