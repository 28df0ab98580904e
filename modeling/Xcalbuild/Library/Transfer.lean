/-
**Messages over a stream.**

A sender appends to a stream and a receiver takes from one. Both are functions of the fuel for each
of their loops, so that a receiver that never ends has the same error for all fuels.

* `Sends`: with enough fuel the sender adds the bytes to what is written;
* `Receives`: with enough fuel the receiver gets a value from the bytes and leaves what is after
  them, and at any strict prefix of them it is lost;
* `Receives.bind`, `Receives.map`, `receives_list`, `Sends.seq`, `sends_list`: messages are put
  together from their parts.
-/
import Xcalbuild.Library.Fallible

namespace Xcalbuild.Library

variable {σ ε β α γ : Type}

/-! ### Sending -/

/-- The sender writes the bytes. -/
def Sends (written : σ → List β) (sender : Nat → σ → Option σ) (bytes : List β) : Prop :=
  ∀ fuel s, bytes.length < fuel → ∃ s', sender fuel s = some s' ∧ written s' = written s ++ bytes

section Sends

variable {written : σ → List β}

theorem sends_nothing : Sends written (fun _ s => some s) [] :=
  fun _ s _ => ⟨s, rfl, (List.append_nil _).symm⟩

/-- **One sender after the other.** -/
theorem Sends.seq {first second : Nat → σ → Option σ} {bytes bytes' : List β}
    (sends : Sends written first bytes) (sends' : Sends written second bytes') :
    Sends written (fun fuel s => (first fuel s).bind (second fuel)) (bytes ++ bytes') := by
  intro fuel s enough
  rw [List.length_append] at enough
  obtain ⟨middle, sent, adds⟩ := sends fuel s (by omega)
  obtain ⟨s', sent', adds'⟩ := sends' fuel middle (by omega)
  refine ⟨s', ?_, by rw [adds', adds, List.append_assoc]⟩
  show (first fuel s).bind (second fuel) = some s'
  rw [sent]
  exact sent'

/-- A sender for each element of a list, one after the other. -/
def sendList (sender : α → Nat → σ → Option σ) (fuel : Nat) : List α → σ → Option σ
  | [], s => some s
  | a :: rest, s => (sender a fuel s).bind (sendList sender fuel rest)

theorem sends_list {sender : α → Nat → σ → Option σ} {bytes : α → List β} (l : List α)
    (sends : ∀ a ∈ l, Sends written (sender a) (bytes a)) :
    Sends written (fun fuel => sendList sender fuel l) (l.flatMap bytes) := by
  induction l with
  | nil => exact sends_nothing
  | cons a rest ih =>
    obtain ⟨here, later⟩ := List.forall_mem_cons.mp sends
    exact here.seq (ih later)

end Sends

/-! ### Receiving -/

/-- **The receiver gets the value from the bytes**, and a strict prefix of them leaves it lost. -/
structure Receives (stream : σ → List β) (lost : ε) (receiver : Nat → StateT σ (Except ε) α)
    (bytes : List β) (value : α) : Prop where
  whole : ∀ fuel s rest, stream s = bytes ++ rest → (stream s).length < fuel →
    ∃ s', receiver fuel s = .ok (value, s') ∧ stream s' = rest
  /-- Without enough fuel there is nothing else that it gets. -/
  short : ∀ fuel s rest, stream s = bytes ++ rest →
    receiver fuel s = .error lost ∨ ∃ s', receiver fuel s = .ok (value, s') ∧ stream s' = rest
  cut : ∀ fuel s, stream s <+: bytes → (stream s).length < bytes.length →
    receiver fuel s = .error lost

namespace Receives

variable {stream : σ → List β} {lost : ε} {bytes bytes' : List β} {value : α} {result : γ}
  {receiver : Nat → StateT σ (Except ε) α}

theorem pure (value : α) : Receives stream lost (fun _ => Pure.pure value) [] value where
  whole _ s _ ahead _ := ⟨s, rfl, ahead⟩
  short _ s _ ahead := Or.inr ⟨s, rfl, ahead⟩
  cut _ _ _ shorter := absurd shorter (Nat.not_lt_zero _)

/-- **One receiver after the other.** -/
theorem bind (next : α → Nat → StateT σ (Except ε) γ)
    (first : Receives stream lost receiver bytes value)
    (second : Receives stream lost (next value) bytes' result) :
    Receives stream lost (fun fuel => receiver fuel >>= fun a => next a fuel) (bytes ++ bytes')
      result := by
  have goes : ∀ {fuel : Nat} {s s' : σ}, receiver fuel s = .ok (value, s') →
      (receiver fuel >>= fun a => next a fuel) s = next value fuel s' := by
    intro fuel s s' ran
    show (receiver fuel s >>= fun pair => next pair.1 fuel pair.2) = _
    rw [ran]
    rfl
  have stops : ∀ {fuel : Nat} {s : σ}, receiver fuel s = .error lost →
      (receiver fuel >>= fun a => next a fuel) s = .error lost := by
    intro fuel s ran
    show (receiver fuel s >>= fun pair => next pair.1 fuel pair.2) = _
    rw [ran]
    rfl
  constructor
  · intro fuel s rest ahead enough
    rw [List.append_assoc] at ahead
    obtain ⟨middle, ran, left⟩ := first.whole fuel s _ ahead enough
    have fewer : (stream middle).length ≤ (stream s).length := by
      have lengths := congrArg List.length ahead
      rw [List.length_append, ← left] at lengths
      omega
    obtain ⟨s', ran', left'⟩ := second.whole fuel middle rest left (by omega)
    exact ⟨s', (goes ran).trans ran', left'⟩
  · intro fuel s rest ahead
    rw [List.append_assoc] at ahead
    rcases first.short fuel s _ ahead with ends | ⟨middle, ran, left⟩
    · exact Or.inl (stops ends)
    · rcases second.short fuel middle rest left with ends | ⟨s', ran', left'⟩
      · exact Or.inl ((goes ran).trans ends)
      · exact Or.inr ⟨s', (goes ran).trans ran', left'⟩
  · intro fuel s cut shorter
    by_cases early : (stream s).length < bytes.length
    · have inside := List.prefix_of_prefix_length_le cut (List.prefix_append bytes bytes')
        (Nat.le_of_lt early)
      exact stops (first.cut fuel s inside early)
    · -- the first part is there as a whole, and the cut is in the second one
      obtain ⟨rest, ahead⟩ := List.prefix_of_prefix_length_le (List.prefix_append bytes bytes') cut
        (Nat.le_of_not_lt early)
      rcases first.short fuel s rest ahead.symm with ends | ⟨middle, ran, left⟩
      · exact stops ends
      · rw [← ahead, List.length_append, List.length_append] at shorter
        have cut' : rest <+: bytes' := by
          rw [← ahead] at cut
          exact (List.prefix_append_right_inj bytes).mp cut
        refine (goes ran).trans (second.cut fuel middle (left ▸ cut') ?_)
        rw [left]
        omega

/-- A receiver whose value is worked on. -/
theorem map (f : α → γ) (first : Receives stream lost receiver bytes value) :
    Receives stream lost (fun fuel => receiver fuel >>= fun a => Pure.pure (f a)) bytes
      (f value) := by
  have all := first.bind (fun a _ => Pure.pure (f a)) (Receives.pure (f value))
  rw [List.append_nil] at all
  exact all

end Receives

/-- A receiver that is called a number of times. -/
def receiveList (receiver : Nat → StateT σ (Except ε) α) (fuel : Nat) :
    Nat → StateT σ (Except ε) (List α)
  | 0 => pure []
  | count + 1 => receiver fuel >>= fun a => receiveList receiver fuel count >>= fun rest =>
      pure (a :: rest)

theorem receives_list {stream : σ → List β} {lost : ε} {receiver : Nat → StateT σ (Except ε) α}
    {bytes : γ → List β} {value : γ → α} (l : List γ)
    (receives : ∀ c ∈ l, Receives stream lost receiver (bytes c) (value c)) :
    Receives stream lost (fun fuel => receiveList receiver fuel l.length) (l.flatMap bytes)
      (l.map value) := by
  induction l with
  | nil => exact Receives.pure []
  | cons c rest ih =>
    obtain ⟨here, later⟩ := List.forall_mem_cons.mp receives
    exact Receives.bind (fun a fuel => receiveList receiver fuel rest.length >>= fun others =>
      pure (a :: others)) here ((ih later).map fun others => value c :: others)

end Xcalbuild.Library
