/-
**Computations that can fail.**

The rules of sequencing in `Except`: a computation that succeeded hands its value on
(`ok_bind`), one that failed ends the sequence (`error_bind`), and a sequence that succeeded is a
first part that succeeded with a value its second part succeeds on (`bind_eq_ok`). Two sequences
with the same first part are compared by their second parts (`bind_congr_ok`). What every step of a
loop keeps, the loop keeps when it gets to its end (`foldlM_keeps`); elements that it does nothing
at can be left out (`foldlM_filter`), and its error is that of a step (`foldlM_error`). Loops over lists
whose elements are alike do the same (`foldlM_related`). `Raises` bounds the errors of a computation,
sequence by sequence.
-/
import Mathlib.Data.List.Forall2
import Mathlib.Tactic.Basic

namespace Xcalbuild.Library

variable {ε α β : Type}

@[simp] theorem ok_bind (a : α) (f : α → Except ε β) : (Except.ok a >>= f) = f a := rfl

@[simp] theorem error_bind (e : ε) (f : α → Except ε β) :
    ((Except.error e : Except ε α) >>= f) = .error e := rfl

theorem pure_eq_ok (a : α) : (pure a : Except ε α) = .ok a := rfl

theorem bind_eq_ok {x : Except ε α} {f : α → Except ε β} {b : β} (result : (x >>= f) = .ok b) :
    ∃ a, x = .ok a ∧ f a = .ok b := by
  cases x with
  | error e => cases result
  | ok a => exact ⟨a, rfl, result⟩

/-- The second parts only have to agree on what the first part can hand on. -/
theorem bind_congr_ok {x : Except ε α} {f g : α → Except ε β}
    (same : ∀ a, x = .ok a → f a = g a) : (x >>= f) = (x >>= g) := by
  cases x with
  | error e => rfl
  | ok a => exact same a rfl

theorem map_bind_except {γ : Type} (h : β → γ) (x : Except ε α) (f : α → Except ε β) :
    (x >>= f).map h = x >>= fun a => (f a).map h := by
  cases x with
  | error e => rfl
  | ok a => rfl

theorem ok_of_mapError {ε' : Type} {x : Except ε α} {f : ε → ε'} {a : α}
    (mapped : x.mapError f = .ok a) : x = .ok a := by
  cases x with
  | error e => cases mapped
  | ok b =>
    cases mapped
    rfl

/-- A loop that reads back what was written of each value. -/
theorem mapM_map_ok {step : α → Except ε β} {write : β → α}
    (reads : ∀ value, step (write value) = .ok value) (values : List β) :
    (values.map write).mapM step = .ok values := by
  induction values with
  | nil => rfl
  | cons value rest ih =>
    rw [List.map_cons, List.mapM_cons, reads, ih]
    rfl

/-- The errors of a computation are among some. -/
def Raises (may : ε → Prop) (x : Except ε α) : Prop := ∀ e, x = .error e → may e

namespace Raises

variable {may : ε → Prop}

theorem ok (a : α) : Raises may (Except.ok a) := fun _ failed => nomatch failed

theorem error {e : ε} (allowed : may e) : Raises may (Except.error e : Except ε α) := by
  intro e' same
  cases same
  exact allowed

theorem bind {x : Except ε α} {f : α → Except ε β} (first : Raises may x)
    (rest : ∀ a, x = .ok a → Raises may (f a)) : Raises may (x >>= f) := by
  cases x with
  | error e => exact error (first e rfl)
  | ok a => exact rest a rfl

theorem mapError {ε' : Type} {x : Except ε' α} {f : ε' → ε} (allowed : ∀ e, may (f e)) :
    Raises may (x.mapError f) := by
  cases x with
  | error e => exact error (allowed e)
  | ok a => exact ok a

end Raises

/-- **A loop whose steps can fail**, with an invariant about the elements that are done. -/
theorem foldlM_keeps {σ : Type} {step : σ → α → Except ε σ} (inv : List α → σ → Prop)
    (each : ∀ done a s s', inv done s → step s a = .ok s' → inv (done ++ [a]) s') {l : List α}
    {s s' : σ} {done : List α} (holds : inv done s) (ran : l.foldlM step s = .ok s') :
    inv (done ++ l) s' := by
  induction l generalizing done s with
  | nil =>
    cases ran
    rw [List.append_nil]
    exact holds
  | cons a rest ih =>
    rw [List.foldlM_cons] at ran
    obtain ⟨middle, first, later⟩ := bind_eq_ok ran
    rw [List.append_cons]
    exact ih (each done a s middle holds first) later

section Loop

variable {σ : Type} {step : σ → β → Except ε σ} {f : α → β}

/-- **Elements at which a loop does nothing** can be left out. -/
theorem foldlM_filter {keep : α → Bool} {l : List α}
    (skips : ∀ a ∈ l, keep a = false → ∀ s, step s (f a) = .ok s) (s : σ) :
    (l.map f).foldlM step s = ((l.filter keep).map f).foldlM step s := by
  induction l generalizing s with
  | nil => rfl
  | cons a rest ih =>
    obtain ⟨here, later⟩ := List.forall_mem_cons.mp skips
    rw [List.map_cons, List.foldlM_cons, List.filter_cons]
    by_cases kept : keep a = true
    · rw [if_pos kept, List.map_cons, List.foldlM_cons]
      exact bind_congr_ok fun s' _ => ih later s'
    · rw [if_neg kept, here ((Bool.not_eq_true _).mp kept) s, ok_bind, ih later s]

/-- The error of a loop is the error of one of its steps. -/
theorem foldlM_error {l : List α} {s : σ} {e : ε} (failed : (l.map f).foldlM step s = .error e) :
    ∃ a ∈ l, ∃ s', step s' (f a) = .error e := by
  induction l generalizing s with
  | nil => cases failed
  | cons a rest ih =>
    rw [List.map_cons, List.foldlM_cons] at failed
    cases first : step s (f a) with
    | error e' =>
      rw [first] at failed
      cases failed
      exact ⟨a, List.mem_cons_self, s, first⟩
    | ok s' =>
      rw [first, ok_bind] at failed
      obtain ⟨b, member, nonempty⟩ := ih failed
      exact ⟨b, List.mem_cons_of_mem a member, nonempty⟩

/-- **Loops over elements that are alike.** -/
theorem foldlM_related {step' : σ → α → Except ε σ} {l : List α} {m : List β}
    (related : List.Forall₂ (fun a b => ∀ s, step' s a = step s b) l m) (s : σ) :
    l.foldlM step' s = m.foldlM step s := by
  induction related generalizing s with
  | nil => rfl
  | cons here _ ih =>
    rw [List.foldlM_cons, List.foldlM_cons, here]
    exact bind_congr_ok fun s' _ => ih s'

end Loop

end Xcalbuild.Library
