/-
**Scans of a vector that note an item in every pass.**

A `Scanner` is a loop over the places of a vector. A pass notes one item and goes on at a later
place, or leaves the loop. Two scanners of one vector are compared pass by pass:

* `outcome`: what is left of a pass when all places past the end are one;
* `collect_step`: the items of a scan by the outcome of its first pass;
* `agree_iff`: two scans note the same items exactly when their passes have the same outcomes
  wherever the first scan goes, if an item tells where it was noted.
-/
import Xcalbuild.Library.Loop

namespace Xcalbuild.Library

/-- A pass at a place gives the next place and the item that it notes. -/
structure Scanner (β ε : Type) where
  pass : Nat → Pass (Nat × β) ε

namespace Scanner

variable {β ε ε' : Type}

/-- The loop over the first `n` places. Its state is the place and the items so far. -/
def loop (scanner : Scanner β ε) (n : Nat) : Loop (Nat × List β) ε where
  done state := decide (n ≤ state.1)
  body state :=
    match scanner.pass state.1 with
    | .next (i, item) => .next (i, state.2 ++ [item])
    | .leave (i, item) => .leave (i, state.2 ++ [item])
    | .fault error => .fault error

/-- The items when the loop has ended. A fault gives none. -/
def ended : Exit (Nat × List β) ε → Option (List β)
  | .finished state => some state.2
  | .broke state => some state.2
  | .fault _ => none
  | .exhausted => none

/-- The items of a scan from a place on. -/
def collect (scanner : Scanner β ε) (n fuel : Nat) (state : Nat × List β) : Option (List β) :=
  ended ((scanner.loop n).run fuel state)

/-- The items of the whole scan. -/
def items (scanner : Scanner β ε) (n : Nat) : Option (List β) :=
  scanner.collect n (n + 1) (0, [])

/-- The item of a pass and the place it goes on at, which is `n` if the scan ends there. -/
def outcome (scanner : Scanner β ε) (n i : Nat) : Option (β × Nat) :=
  match scanner.pass i with
  | .next (next, item) => some (item, min next n)
  | .leave (_, item) => some (item, n)
  | .fault _ => none

/-- The scan gets from a place to a place of the vector. -/
inductive Gets (scanner : Scanner β ε) (n : Nat) : Nat → Nat → Prop
  | here {i : Nat} : i < n → Gets scanner n i i
  | later {i next j : Nat} {item : β} : i < n → scanner.outcome n i = some (item, next) →
      Gets scanner n next j → Gets scanner n i j

/-- Every pass goes forward, and notes an item of its place. -/
structure Forward (place : β → Nat) (scanner : Scanner β ε) (n : Nat) : Prop where
  moves : ∀ i next item, i < n → scanner.outcome n i = some (item, next) → i < next
  placed : ∀ i next item, i < n → scanner.outcome n i = some (item, next) → place item = i

variable {scanner : Scanner β ε} {n i : Nat} {log : List β}

theorem outcome_le {next : Nat} {item : β} (gives : scanner.outcome n i = some (item, next)) :
    next ≤ n := by
  unfold outcome at gives
  split at gives
  · cases gives
    exact Nat.min_le_right _ _
  · cases gives
    exact Nat.le_refl n
  · cases gives

theorem collect_done (past : n ≤ i) (fuel : Nat) : scanner.collect n fuel (i, log) = some log := by
  have done : (scanner.loop n).done (i, log) = true := decide_eq_true past
  rw [collect, Loop.run_done done]
  rfl

/-- **The items of a scan by its first pass.** -/
theorem collect_step (inside : i < n) (fuel : Nat) :
    scanner.collect n (fuel + 1) (i, log) =
      (scanner.outcome n i).bind fun result =>
        scanner.collect n fuel (result.2, log ++ [result.1]) := by
  have notDone : (scanner.loop n).done (i, log) = false :=
    decide_eq_false (Nat.not_le_of_lt inside)
  cases pass : scanner.pass i with
  | next result =>
    obtain ⟨next, item⟩ := result
    have body : (scanner.loop n).body (i, log) = .next (next, log ++ [item]) := by
      simp only [loop, pass]
    have same : scanner.outcome n i = some (item, min next n) := by simp only [outcome, pass]
    rw [collect, Loop.run_next notDone body, same, Option.bind_some]
    show scanner.collect n fuel (next, _) = _
    by_cases past : n ≤ next
    · rw [collect_done past, collect_done (Nat.le_min.mpr ⟨past, Nat.le_refl n⟩)]
    · rw [Nat.min_eq_left (Nat.le_of_not_le past)]
  | leave result =>
    obtain ⟨next, item⟩ := result
    have body : (scanner.loop n).body (i, log) = .leave (next, log ++ [item]) := by
      simp only [loop, pass]
    have same : scanner.outcome n i = some (item, n) := by simp only [outcome, pass]
    rw [collect, Loop.run_leave notDone body, same, Option.bind_some, collect_done (Nat.le_refl n)]
    rfl
  | fault error =>
    have body : (scanner.loop n).body (i, log) = .fault error := by simp only [loop, pass]
    have same : scanner.outcome n i = none := by simp only [outcome, pass]
    rw [collect, Loop.run_fault notDone body, same]
    rfl

theorem Gets.lt {j : Nat} (gets : scanner.Gets n i j) : j < n := by
  induction gets with
  | here inside => exact inside
  | later _ _ _ ih => exact ih

variable {place : β → Nat}

/-- The place that a list of items goes on at, after those of a log. -/
def upcoming (place : β → Nat) (n : Nat) (log items : List β) : Nat :=
  ((items.drop log.length).head?.map place).getD n

/-- The log is kept, and the next item tells where the scan went on. -/
theorem upcoming_of_collect (forward : Forward place scanner n) {fuel : Nat} {items : List β}
    (inside : i ≤ n) (collected : scanner.collect n fuel (i, log) = some items) :
    log <+: items ∧ upcoming place n log items = i := by
  induction fuel generalizing i log with
  | zero =>
    by_cases past : n ≤ i
    · rw [collect_done past] at collected
      cases collected
      refine ⟨List.prefix_refl _, ?_⟩
      rw [upcoming, List.drop_length]
      exact Nat.le_antisymm past inside
    · have notDone : (scanner.loop n).done (i, log) = false := decide_eq_false past
      rw [collect, Loop.run, notDone] at collected
      cases collected
  | succ fuel ih =>
    by_cases past : n ≤ i
    · rw [collect_done past] at collected
      cases collected
      refine ⟨List.prefix_refl _, ?_⟩
      rw [upcoming, List.drop_length]
      exact Nat.le_antisymm past inside
    · rw [collect_step (Nat.lt_of_not_le past)] at collected
      obtain ⟨⟨item, next⟩, gives, collected⟩ := Option.bind_eq_some_iff.mp collected
      obtain ⟨⟨rest, rfl⟩, -⟩ := ih (outcome_le gives) collected
      refine ⟨⟨item :: rest, by simp⟩, ?_⟩
      rw [upcoming, List.append_assoc, List.drop_left]
      exact forward.placed i next item (Nat.lt_of_not_le past) gives

variable {other : Scanner β ε'}

/-- **Two scans note the same items** exactly when their passes have the same outcomes wherever the
first scan gets. -/
theorem collect_agree_iff (first : Forward place scanner n) (second : Forward place other n)
    {fuel : Nat} (inside : i ≤ n) (enough : n - i < fuel) :
    (∃ items, scanner.collect n fuel (i, log) = some items ∧
        other.collect n fuel (i, log) = some items) ↔
      ∀ j, scanner.Gets n i j →
        ∃ result, scanner.outcome n j = some result ∧ other.outcome n j = some result := by
  induction fuel generalizing i log with
  | zero => exact absurd enough (Nat.not_lt_zero _)
  | succ fuel ih =>
    by_cases past : n ≤ i
    · rw [collect_done past, collect_done past]
      refine iff_of_true ⟨log, rfl, rfl⟩ fun j gets => ?_
      cases gets with
      | here before => exact absurd before (Nat.not_lt_of_le past)
      | later before => exact absurd before (Nat.not_lt_of_le past)
    · have before : i < n := Nat.lt_of_not_le past
      rw [collect_step before, collect_step before]
      constructor
      · rintro ⟨items, collected, collected'⟩
        obtain ⟨⟨item, next⟩, gives, collected⟩ := Option.bind_eq_some_iff.mp collected
        obtain ⟨⟨item', next'⟩, gives', collected'⟩ := Option.bind_eq_some_iff.mp collected'
        have kept := upcoming_of_collect first (outcome_le gives) collected
        have kept' := upcoming_of_collect second (outcome_le gives') collected'
        have sameItem : item = item' := by
          obtain ⟨rest, split⟩ := kept.1
          obtain ⟨rest', split'⟩ := kept'.1
          rw [← split', List.append_assoc, List.append_assoc, List.append_cancel_left_eq] at split
          exact (List.cons.inj split).1
        subst sameItem
        have sameNext : next = next' := kept.2.symm.trans kept'.2
        subst sameNext
        have further := first.moves i next item before gives
        have later := (ih (outcome_le gives) (by omega)).mp ⟨items, collected, collected'⟩
        intro j gets
        cases gets with
        | here => exact ⟨_, gives, gives'⟩
        | later _ moved gets =>
          rw [gives] at moved
          cases moved
          exact later j gets
      · intro same
        obtain ⟨⟨item, next⟩, gives, gives'⟩ := same i (.here before)
        have further := first.moves i next item before gives
        rw [gives, gives', Option.bind_some, Option.bind_some]
        exact (ih (outcome_le gives) (by omega)).mpr
          fun j gets => same j (.later before gives gets)

/-- **A scan without faults has items.** -/
theorem exists_items (forward : Forward place scanner n)
    (total : ∀ i, i < n → ∃ result, scanner.outcome n i = some result) :
    ∃ items, scanner.items n = some items := by
  obtain ⟨items, collected, -⟩ := (collect_agree_iff forward forward (Nat.zero_le n)
    (Nat.lt_succ_self n)).mpr fun j gets =>
      let ⟨result, same⟩ := total j gets.lt
      ⟨result, same, same⟩
  exact ⟨items, collected⟩

theorem agree_iff (first : Forward place scanner n) (second : Forward place other n) :
    (∃ items, scanner.items n = some items ∧ other.items n = some items) ↔
      ∀ j, scanner.Gets n 0 j →
        ∃ result, scanner.outcome n j = some result ∧ other.outcome n j = some result :=
  collect_agree_iff first second (Nat.zero_le n) (by omega)

end Scanner

end Xcalbuild.Library
