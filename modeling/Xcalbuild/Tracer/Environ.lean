/-
**The environment that a wrapper hands on.**

`call_execve`, `call_execvpe` and the two `call_posix_spawn` copy the environment they are given and
insert the three variables with which the library is loaded and finds the socket, as they are in the
process. `bear_env_insert` takes out what has the same name and goes back to the start of the array,
where the loop then skips the first string: of two such strings at the front the second one stays,
before the new one, and after the only string of an array the loop reads behind the end.

* `bearStringsRemove_eq`: the shifting loop takes out the string with the given address;
* `bearEnvInsert_eq`: what the insertion gives, for every array;
* `menvp_eq_iff`: the copy has each of the three once, with the value of the process, and the other
  strings as they were, exactly when no insertion finds such a front.
-/
import Xcalbuild.Library.Environment
import Xcalbuild.Library.Loop
import Mathlib.Data.List.Nodup
import Mathlib.Tactic.Linarith
import Mathlib.Tactic.Ring

namespace Xcalbuild.Tracer

open Library

/-! ### Arrays of strings -/

/-- A string of an array, with its address. -/
structure CStr where
  address : Nat
  text : Str
  deriving DecidableEq

/-- `bear_strings_copy`. Every copy of a string has an address of its own. -/
def bearStringsCopy (in_ : List Str) : List CStr :=
  in_.zipIdx.map fun (text, address) => ⟨address, text⟩

/-- An address that no string of the array has, as `asprintf` gives it. -/
def newAddress (envs : List CStr) : Nat := (envs.map CStr.address).foldr max 0 + 1

/-- `bear_strings_append` -/
def bearStringsAppend (in_ : List CStr) (e : CStr) : List CStr := in_ ++ [e]

/-- The loop of `bear_strings_remove` from a string on, with `action` so far: the cells it leaves,
the one of the terminator included. There is no result if a cell behind that is read. -/
def removeFrom (e : Nat) : Nat → List CStr → Option (List (Option CStr))
  | _, [] => some [none]
  | action, cell :: rest =>
      let action := if cell.address = e then action + 1 else action
      let here := if action = 0 then some (some cell) else ((cell :: rest).map some ++ [none])[action]?
      here.bind fun it => (removeFrom e action rest).map (it :: ·)

/-- The strings before the first null pointer. -/
def stringsOf : List (Option CStr) → List CStr
  | some cell :: rest => cell :: stringsOf rest
  | _ => []

/-- `bear_strings_remove`, by the address of the string. -/
def bearStringsRemove (in_ : List CStr) (e : Nat) : Option (List CStr) :=
  (removeFrom e 0 in_).map stringsOf

/-! ### Inserting a variable -/

/-- Why there is no new environment: the variable is not set in the process, which exits, or the loop
reads behind the array. -/
inductive EnvFailure where
  | exited
  | outOfBounds
  deriving DecidableEq

/-- The variables of the loop in `bear_env_insert`. -/
structure InsertState where
  envs : List CStr
  it : Nat

/-- The strings agree in their first characters, as `strncmp` has it. -/
def strncmpEqual (s t : Str) (n : Nat) : Bool := decide (s.take n = t.take n)

/-- The loop of `bear_env_insert`. -/
def insertLoop (env : Str) (keyLength : Nat) : Loop InsertState EnvFailure where
  done state := decide (state.it = state.envs.length)
  body state :=
    match state.envs[state.it]? with
    | none => .fault .outOfBounds
    | some cell =>
        if strncmpEqual env cell.text keyLength then
          match bearStringsRemove state.envs cell.address with
          | none => .fault .outOfBounds
          -- `it = envs`, and the loop goes on to the next one
          | some envs => .next ⟨envs, 0 + 1⟩
        else .next ⟨state.envs, state.it + 1⟩

/-- `bear_env_insert` -/
def bearEnvInsert (envs : List CStr) (key : Str) (value : Option Str) :
    Except EnvFailure (List CStr) :=
  match value with
  | none => .error .exited
  | some value =>
      let env := key ++ '=' :: value
      match (insertLoop env (key.length + 1)).run ((envs.length + 1) * (envs.length + 1)) ⟨envs, 0⟩ with
      | .finished state | .broke state =>
          .ok (bearStringsAppend state.envs ⟨newAddress state.envs, env⟩)
      | .fault error => .error error
      | .exhausted => .error .outOfBounds

/-- `ENV_PRELOAD` -/
def envPreload : Str := "LD_PRELOAD".toList

/-- `ENV_LIBRARY_PATH` -/
def envLibraryPath : Str := "LD_LIBRARY_PATH".toList

/-- `ENV_OUTPUT` -/
def envOutput : Str := "XCAL_TRACER_OUTPUT".toList

/-- The `menvp` of the `call_` functions, in a process with the first environment. -/
def menvp (environ envp : List Str) : Except EnvFailure (List Str) :=
  (bearEnvInsert (bearStringsCopy envp) envPreload (getenv environ envPreload)).bind fun envs =>
    (bearEnvInsert envs envLibraryPath (getenv environ envLibraryPath)).bind fun envs =>
      (bearEnvInsert envs envOutput (getenv environ envOutput)).bind fun envs =>
        .ok (envs.map CStr.text)

/-! ### The strings that are removed -/

/-- The addresses of the strings are all different. -/
def Distinct (envs : List CStr) : Prop := (envs.map CStr.address).Nodup

theorem stringsOf_append (cells : List CStr) (rest : List (Option CStr)) :
    stringsOf (cells.map some ++ none :: rest) = cells := by
  induction cells with
  | nil => rfl
  | cons cell cells ih => rw [List.map_cons, List.cons_append, stringsOf, ih]

/-- Behind the string that is removed, every cell gets the one after it. -/
theorem removeFrom_one {e : Nat} {cell : CStr} {rest : List CStr} (one : cell.address ≠ e)
    (absent : ∀ other ∈ rest, other.address ≠ e) :
    removeFrom e 1 (cell :: rest) = some (rest.map some ++ [none, none]) := by
  induction rest generalizing cell with
  | nil => simp [removeFrom, one]
  | cons next rest ih =>
    have tail := ih (absent next List.mem_cons_self) fun other member =>
      absent other (List.mem_cons_of_mem _ member)
    rw [removeFrom, if_neg one, tail]
    rfl

theorem removeFrom_hit {cell : CStr} {rest : List CStr}
    (absent : ∀ other ∈ rest, other.address ≠ cell.address) :
    (removeFrom cell.address 0 (cell :: rest)).map stringsOf = some rest := by
  cases rest with
  | nil => simp [removeFrom, stringsOf]
  | cons next rest =>
    have tail := removeFrom_one (absent next List.mem_cons_self) fun other member =>
      absent other (List.mem_cons_of_mem _ member)
    rw [removeFrom, if_pos rfl, tail]
    exact congrArg some (stringsOf_append (next :: rest) [none])

/-- **The shifting loop takes out the string with the address.** -/
theorem bearStringsRemove_eq (front : List CStr) {envs back : List CStr} {cell : CStr}
    (distinct : Distinct envs) (parts : envs = front ++ cell :: back) :
    bearStringsRemove envs cell.address = some (front ++ back) := by
  subst parts
  unfold bearStringsRemove
  induction front with
  | nil =>
    obtain ⟨absent, -⟩ := List.nodup_cons.mp distinct
    exact removeFrom_hit fun other member same =>
      absent (same ▸ List.mem_map_of_mem (f := CStr.address) member)
  | cons first front ih =>
    obtain ⟨absent, distinct⟩ := List.nodup_cons.mp distinct
    have other : first.address ≠ cell.address := fun same =>
      absent (same ▸ List.mem_map_of_mem (f := CStr.address) (by simp))
    obtain ⟨cells, left, same⟩ := Option.map_eq_some_iff.mp (ih distinct)
    rw [List.cons_append, removeFrom, if_neg other, left]
    simp [stringsOf, same]

theorem distinct_remove (front : List CStr) {back : List CStr} {cell : CStr}
    (distinct : Distinct (front ++ cell :: back)) : Distinct (front ++ back) := by
  refine List.Nodup.sublist (List.Sublist.map CStr.address ?_) distinct
  exact (List.sublist_cons_self cell back).append_left front

theorem lt_newAddress {envs : List CStr} {cell : CStr} (member : cell ∈ envs) :
    cell.address < newAddress envs := by
  unfold newAddress
  induction envs with
  | nil => cases member
  | cons first rest ih =>
    show cell.address < max first.address _ + 1
    rcases List.mem_cons.mp member with rfl | inside
    · omega
    · have below := ih inside
      omega

theorem distinct_append {envs : List CStr} (distinct : Distinct envs) (text : Str) :
    Distinct (bearStringsAppend envs ⟨newAddress envs, text⟩) := by
  show ((envs ++ [_]).map CStr.address).Nodup
  rw [List.map_append, List.map_singleton]
  refine List.nodup_append.mpr ⟨distinct, List.nodup_singleton _, fun address member other new => ?_⟩
  obtain ⟨cell, inside, rfl⟩ := List.mem_map.mp member
  rw [List.mem_singleton.mp new]
  exact Nat.ne_of_lt (lt_newAddress inside)

theorem distinct_copy (in_ : List Str) : Distinct (bearStringsCopy in_) := by
  show ((in_.zipIdx.map fun p => CStr.mk p.2 p.1).map CStr.address).Nodup
  rw [List.map_map]
  show (in_.zipIdx.map Prod.snd).Nodup
  rw [List.zipIdx_map_snd]
  exact List.nodup_range'

@[simp] theorem text_copy (in_ : List Str) : (bearStringsCopy in_).map CStr.text = in_ := by
  show (in_.zipIdx.map fun p => CStr.mk p.2 p.1).map CStr.text = in_
  rw [List.map_map]
  exact List.zipIdx_map_fst 0 in_

/-! ### What an insertion gives -/

/-- The array after an insertion, where there is one: the string that is first when the loop goes on
is not looked at again. -/
def inserted (key value : Str) : List Str → Option (List Str)
  | [] => some [binding key value]
  | e :: rest =>
      if names key e then
        match rest with
        | [] => none
        | f :: rest => some (f :: (without key rest ++ [binding key value]))
      else some (e :: (without key rest ++ [binding key value]))

section Insert

variable {key value : Str}

theorem inserted_other {e : Str} (rest : List Str) (other : names key e = false) :
    inserted key value (e :: rest) = some (e :: (without key rest ++ [binding key value])) := by
  simp [inserted, other]

theorem inserted_named {e : Str} (f : Str) (rest : List Str) (named : names key e = true) :
    inserted key value (e :: f :: rest) = some (f :: (without key rest ++ [binding key value])) := by
  simp [inserted, named]

theorem strncmpEqual_eq (text : Str) :
    strncmpEqual (key ++ '=' :: value) text (key.length + 1) = names key text := by
  have front : (key ++ '=' :: value).take (key.length + 1) = key ++ ['='] := by
    rw [← List.singleton_append, ← List.append_assoc]
    exact List.take_left' (by simp)
  rw [Bool.eq_iff_iff, strncmpEqual, decide_eq_true_iff, front, names, List.isPrefixOf_iff_prefix,
    List.prefix_iff_eq_take]
  simp

/-- The string of the cell is not a variable of the name. -/
def Other (key : Str) (cell : CStr) : Prop := names key cell.text = false

instance (key : Str) (cell : CStr) : Decidable (Other key cell) :=
  inferInstanceAs (Decidable (names key cell.text = false))

theorem text_filter_other (cells : List CStr) :
    (cells.filter (Other key ·)).map CStr.text = without key (cells.map CStr.text) := by
  unfold without
  rw [List.filter_map]
  congr 1
  refine List.filter_congr fun cell _ => ?_
  show decide (names key cell.text = false) = !names key cell.text
  cases names key cell.text <;> rfl

/-- The loop from the second string on: the strings that it has passed are not of the name. -/
structure Passed (key : Str) (first : CStr) (more : List CStr) (state : InsertState) : Prop where
  distinct : Distinct state.envs
  envs : ∃ done rest, state.envs = first :: (done ++ rest) ∧ state.it = done.length + 1 ∧
    (∀ cell ∈ done, Other key cell) ∧
    (done ++ rest).filter (Other key ·) = more.filter (Other key ·)

/-- The passes that are left, at most. -/
def passesLeft (bound : Nat) (state : InsertState) : Nat :=
  state.envs.length * (bound + 1) + (bound - state.it)

/-- **A pass of the loop**, behind the first string. -/
theorem insertLoop_pass {first : CStr} {more : List CStr} {state : InsertState} (bound : Nat)
    (passed : Passed key first more state) (small : state.envs.length ≤ bound)
    (notDone : (insertLoop (key ++ '=' :: value) (key.length + 1)).done state = false) :
    ∃ state', (insertLoop (key ++ '=' :: value) (key.length + 1)).body state = .next state' ∧
      Passed key first more state' ∧ state'.envs.length ≤ bound ∧
        passesLeft bound state' < passesLeft bound state := by
  obtain ⟨envs, it⟩ := state
  obtain ⟨distinct, done, rest, rfl, rfl, past, same⟩ := passed
  cases rest with
  | nil => simp [insertLoop] at notDone
  | cons cell rest =>
    have here : (first :: (done ++ cell :: rest))[done.length + 1]? = some cell := by simp
    by_cases other : Other key cell
    · refine ⟨⟨first :: (done ++ cell :: rest), done.length + 1 + 1⟩, ?_, ?_, small, ?_⟩
      · simp only [insertLoop, here, strncmpEqual_eq]
        rw [if_neg (by simpa [Other] using other)]
      · refine ⟨distinct, done ++ [cell], rest, by simp, by simp, ?_, by simpa using same⟩
        intro passed member
        rcases List.mem_append.mp member with before | new
        · exact past passed before
        · exact List.mem_singleton.mp new ▸ other
      · simp only [List.length_cons, List.length_append] at small
        simp only [passesLeft]
        omega
    · have removed := bearStringsRemove_eq (first :: done) distinct rfl
      refine ⟨⟨first :: done ++ rest, 1⟩, ?_, ⟨distinct_remove (first :: done) distinct,
        [], done ++ rest, rfl, rfl, by simp, ?_⟩, ?_, ?_⟩
      · simp only [insertLoop, here, strncmpEqual_eq]
        rw [if_pos (by simpa [Other] using other), removed]
      · rw [List.nil_append, ← same, List.filter_append, List.filter_append,
          List.filter_cons_of_neg (by simpa using other)]
      · simp only [List.length_cons, List.length_append] at small ⊢
        omega
      · simp only [List.length_cons, List.length_append] at small
        simp only [passesLeft, List.cons_append, List.length_cons, List.length_append]
        have product : (done.length + (rest.length + 1) + 1) * (bound + 1) =
            (done.length + rest.length + 1) * (bound + 1) + (bound + 1) := by
          rw [← Nat.succ_mul]
          congr 1
        omega

/-- **The loop behind the first string** takes out every variable of the name. -/
theorem insertLoop_run (key value : Str) {first : CStr} {more : List CStr}
    (distinct : Distinct (first :: more)) (fuel : Nat)
    (enough : (more.length + 1) * (more.length + 1 + 1) + more.length < fuel) :
    ∃ it, (insertLoop (key ++ '=' :: value) (key.length + 1)).run fuel ⟨first :: more, 1⟩ =
      .finished ⟨first :: more.filter (Other key ·), it⟩ := by
  let inv : InsertState → Prop := fun state =>
    Passed key first more state ∧ state.envs.length ≤ more.length + 1
  have entry : inv ⟨first :: more, 1⟩ :=
    ⟨⟨distinct, [], more, rfl, rfl, by simp, rfl⟩, le_refl _⟩
  have invariant : ∀ state,
      (insertLoop (key ++ '=' :: value) (key.length + 1)).Heads ⟨first :: more, 1⟩ state →
        inv state := by
    intro state heads
    refine Loop.heads_invariant entry (fun state state' holds notDone step => ?_) heads
    obtain ⟨next, step', kept, small, -⟩ := insertLoop_pass (more.length + 1) holds.1 holds.2 notDone
    rw [step] at step'
    cases step'
    exact ⟨kept, small⟩
  rcases @Loop.run_of_progress _ _ (insertLoop (key ++ '=' :: value) (key.length + 1))
      (passesLeft (more.length + 1)) fuel ⟨first :: more, 1⟩
      (fun state heads notDone => by
        obtain ⟨next, step, -, -, lower⟩ :=
          insertLoop_pass (more.length + 1) (invariant state heads).1 (invariant state heads).2 notDone
        exact Or.inl ⟨next, step, lower⟩)
      (by simp only [passesLeft, List.length_cons]; omega)
    with ⟨state, heads, done, run⟩ | ⟨state, state', heads, notDone, step, -⟩
  · obtain ⟨⟨-, front, back, parts, position, past, same⟩, -⟩ := invariant state heads
    obtain ⟨envs, it⟩ := state
    cases parts
    cases position
    have noBack : back = [] := by
      have here : front.length + 1 = (first :: (front ++ back)).length := of_decide_eq_true done
      simp only [List.length_cons, List.length_append] at here
      exact List.length_eq_zero_iff.mp (by omega)
    subst noBack
    rw [List.append_nil, List.filter_eq_self.mpr (by simpa using past)] at same
    rw [List.append_nil, same] at run
    exact ⟨_, run⟩
  · obtain ⟨next, step', -⟩ :=
      insertLoop_pass (more.length + 1) (invariant state heads).1 (invariant state heads).2 notDone
    rw [step] at step'
    cases step'

/-- **What the insertion gives**: the strings of the new array, or the loop reads behind the end. -/
theorem bearEnvInsert_eq (key value : Str) {envs : List CStr} (distinct : Distinct envs) :
    (∃ envs', Distinct envs' ∧ bearEnvInsert envs key (some value) = .ok envs' ∧
        inserted key value (envs.map CStr.text) = some (envs'.map CStr.text)) ∨
      (bearEnvInsert envs key (some value) = .error .outOfBounds ∧
        inserted key value (envs.map CStr.text) = none) := by
  have append (cells : List CStr) :
      (bearStringsAppend cells ⟨newAddress cells, key ++ '=' :: value⟩).map CStr.text =
        cells.map CStr.text ++ [binding key value] := by
    simp [bearStringsAppend, binding]
  have subset {first : CStr} {more : List CStr} (distinct : Distinct (first :: more)) :
      Distinct (first :: more.filter (Other key ·)) :=
    List.Nodup.sublist (List.Sublist.map CStr.address (List.filter_sublist.cons_cons first)) distinct
  cases envs with
  | nil => exact Or.inl ⟨_, distinct_append distinct _, rfl, by simp [append, inserted]⟩
  | cons first rest =>
    have fuel : ((first :: rest).length + 1) * ((first :: rest).length + 1) =
        (rest.length + 1) * (rest.length + 1 + 1) + (rest.length + 1) + 1 := by
      simp only [List.length_cons]
      ring
    have notDone : (insertLoop (key ++ '=' :: value) (key.length + 1)).done ⟨first :: rest, 0⟩ =
        false := by simp [insertLoop]
    have here : (first :: rest)[0]? = some first := rfl
    by_cases other : Other key first
    · have step : (insertLoop (key ++ '=' :: value) (key.length + 1)).body ⟨first :: rest, 0⟩ =
          .next ⟨first :: rest, 1⟩ := by
        simp only [insertLoop, here, strncmpEqual_eq]
        rw [if_neg (by simpa [Other] using other)]
      obtain ⟨it, run⟩ := insertLoop_run key value distinct
        ((rest.length + 1) * (rest.length + 1 + 1) + (rest.length + 1)) (by omega)
      refine Or.inl ⟨_, distinct_append (subset distinct) (key ++ '=' :: value), ?_, ?_⟩
      · simp only [bearEnvInsert]
        rw [fuel, Loop.run_next notDone step, run]
      · rw [append, List.map_cons, List.map_cons, text_filter_other, List.cons_append]
        exact inserted_other _ other
    · have removed := bearStringsRemove_eq [] distinct rfl
      have step : (insertLoop (key ++ '=' :: value) (key.length + 1)).body ⟨first :: rest, 0⟩ =
          .next ⟨rest, 1⟩ := by
        simp only [insertLoop, here, strncmpEqual_eq]
        rw [if_pos (by simpa [Other] using other), removed]
        rfl
      have named : names key first.text = true := by simpa [Other] using other
      cases rest with
      | nil =>
        refine Or.inr ⟨?_, by simp [inserted, named]⟩
        simp only [bearEnvInsert]
        rw [fuel, Loop.run_next notDone step]
        rfl
      | cons second rest =>
        have distinct' := distinct_remove [] distinct
        obtain ⟨it, run⟩ := insertLoop_run key value distinct'
          (((second :: rest).length + 1) * ((second :: rest).length + 1 + 1) +
            ((second :: rest).length + 1)) (by simp only [List.length_cons]; nlinarith)
        refine Or.inl ⟨_, distinct_append (subset distinct') (key ++ '=' :: value), ?_, ?_⟩
        · simp only [bearEnvInsert]
          rw [fuel, Loop.run_next notDone step, run]
        · rw [append, List.map_cons, List.map_cons, List.map_cons, text_filter_other,
            List.cons_append]
          exact inserted_named _ _ named

/-! ### When it does right -/

/-- The only string is a variable of the name. -/
def Alone (key : Str) : List Str → Prop
  | [e] => names key e = true
  | _ => False

/-- The first two strings are variables of the name. -/
def Doubled (key : Str) : List Str → Prop
  | e :: f :: _ => names key e = true ∧ names key f = true
  | _ => False

variable {envs envs' : List Str}

/-- Without such a front, the variable is there once and the other strings are as they were. -/
theorem inserted_eq (several : ¬ Alone key envs) (single : ¬ Doubled key envs) :
    inserted key value envs = some (without key envs ++ [binding key value]) := by
  cases envs with
  | nil => rfl
  | cons e rest =>
    by_cases named : names key e = true
    · rw [without_cons_self rest named]
      cases rest with
      | nil => exact absurd named several
      | cons f rest =>
        have other : names key f = false := by
          rw [← Bool.not_eq_true]
          exact fun also => single ⟨named, also⟩
        rw [inserted_named f rest named, without_cons_other rest other, List.cons_append]
    · rw [Bool.not_eq_true] at named
      rw [inserted_other rest named, without_cons_other rest named, List.cons_append]

/-- How many variables of the name there are after it. -/
theorem countP_inserted (insert : inserted key value envs = some envs') :
    (¬ Alone key envs) ∧ (envs'.countP (names key) = 1 → ¬ Doubled key envs) := by
  have absent (l : List Str) : (without key l).countP (names key) = 0 :=
    List.countP_eq_zero.mpr fun e member => by simp [not_names_of_mem_without member]
  cases envs with
  | nil => exact ⟨not_false, fun _ => not_false⟩
  | cons e rest =>
    cases rest with
    | nil =>
      refine ⟨fun named => ?_, fun _ => not_false⟩
      have named : names key e = true := named
      simp [inserted, named] at insert
    | cons f rest =>
      refine ⟨not_false, fun one both => ?_⟩
      rw [inserted_named f rest both.1] at insert
      cases insert
      rw [List.countP_cons_of_pos both.2, List.countP_append, absent] at one
      simp at one

/-- The variables of another name are as many as before. -/
theorem countP_inserted_other {name : Str} (plain : '=' ∉ key) (plain' : '=' ∉ name)
    (different : name ≠ key) (insert : inserted key value envs = some envs') :
    envs'.countP (names name) = envs.countP (names name) := by
  have same (l : List Str) : (without key l).countP (names name) = l.countP (names name) := by
    rw [without, List.countP_filter]
    refine List.countP_congr fun e _ => ?_
    by_cases named : names key e = true
    · simp [named, names_other plain plain' different named]
    · rw [Bool.not_eq_true] at named
      simp [named]
  have new : names name (binding key value) = false := names_binding_other value plain plain' different
  cases envs with
  | nil =>
    cases insert
    simp [new]
  | cons e rest =>
    by_cases named : names key e = true
    · cases rest with
      | nil => simp [inserted, named] at insert
      | cons f rest =>
        rw [inserted_named f rest named] at insert
        cases insert
        simp [List.countP_cons, same, new, names_other plain plain' different named]
    · rw [Bool.not_eq_true] at named
      rw [inserted_other rest named] at insert
      cases insert
      simp [List.countP_cons, same, new]

end Insert

/-! ### The three variables -/

/-- The values of the three variables in the traced processes. -/
structure Settings where
  preload : Str
  libraryPath : Str
  output : Str
  deriving DecidableEq

/-- The environment has the three variables with these values. -/
structure Carries (settings : Settings) (environ : List Str) : Prop where
  preload : getenv environ envPreload = some settings.preload
  libraryPath : getenv environ envLibraryPath = some settings.libraryPath
  output : getenv environ envOutput = some settings.output

/-- The strings of an environment that are none of the three. -/
def others (envp : List Str) : List Str :=
  without envOutput (without envLibraryPath (without envPreload envp))

/-- An environment with the three variables and the other strings of the given one. -/
def withSettings (settings : Settings) (envp : List Str) : List Str :=
  others envp ++ [binding envPreload settings.preload, binding envLibraryPath settings.libraryPath,
    binding envOutput settings.output]

/-- **The condition**: no insertion finds a front that it does wrong on. -/
structure Spared (envp : List Str) : Prop where
  several : ¬ Alone envPreload envp
  preload : ¬ Doubled envPreload envp
  libraryPath : ¬ Doubled envLibraryPath (without envPreload envp)
  output : ¬ Doubled envOutput (without envLibraryPath (without envPreload envp))

section Names

theorem plain_preload : '=' ∉ envPreload := by decide

theorem plain_libraryPath : '=' ∉ envLibraryPath := by decide

theorem plain_output : '=' ∉ envOutput := by decide

theorem libraryPath_ne_preload : envLibraryPath ≠ envPreload := by decide

theorem output_ne_preload : envOutput ≠ envPreload := by decide

theorem output_ne_libraryPath : envOutput ≠ envLibraryPath := by decide

end Names

/-- Another variable at the end makes no difference. -/
theorem not_alone_append {key e : Str} (envs : List Str) (other : names key e = false) :
    ¬ Alone key (envs ++ [e]) := by
  rcases envs with _ | ⟨first, _ | ⟨second, rest⟩⟩
  · show ¬ names key e = true
    rw [other]
    exact Bool.false_ne_true
  · exact not_false
  · exact not_false

theorem doubled_append_iff {key e : Str} (envs : List Str) (other : names key e = false) :
    Doubled key (envs ++ [e]) ↔ Doubled key envs := by
  rcases envs with _ | ⟨first, _ | ⟨second, rest⟩⟩
  · exact Iff.rfl
  · show names key first = true ∧ names key e = true ↔ False
    simp [other]
  · exact Iff.rfl

theorem without_append_other {key e : Str} (envs : List Str) (other : names key e = false) :
    without key (envs ++ [e]) = without key envs ++ [e] := by
  simp [without, other]

section Menvp

variable {settings : Settings} {environ : List Str}

/-- The insertions one after another. -/
theorem menvp_eq (carries : Carries settings environ) (envp : List Str) :
    menvp environ envp =
      match (inserted envPreload settings.preload envp).bind fun envs =>
          (inserted envLibraryPath settings.libraryPath envs).bind fun envs =>
            inserted envOutput settings.output envs with
      | some envs => .ok envs
      | none => .error .outOfBounds := by
  unfold menvp
  rw [carries.preload, carries.libraryPath, carries.output]
  rcases bearEnvInsert_eq envPreload settings.preload (distinct_copy envp) with
    ⟨first, distinct, found, texts⟩ | ⟨found, texts⟩
  · rw [text_copy] at texts
    rw [found, texts]
    show (bearEnvInsert first envLibraryPath _).bind _ = _
    rcases bearEnvInsert_eq envLibraryPath settings.libraryPath distinct with
      ⟨second, distinct, found, texts⟩ | ⟨found, texts⟩
    · rw [found, Option.bind_some, texts]
      show (bearEnvInsert second envOutput _).bind _ = _
      rcases bearEnvInsert_eq envOutput settings.output distinct with
        ⟨third, -, found, texts⟩ | ⟨found, texts⟩
      · rw [found, Option.bind_some, texts]
        rfl
      · rw [found, Option.bind_some, texts]
        rfl
    · rw [found, Option.bind_some, texts]
      rfl
  · rw [text_copy] at texts
    rw [found, texts]
    rfl

theorem withSettings_of_spared {envp : List Str} (spared : Spared envp) :
    ((inserted envPreload settings.preload envp).bind fun envs =>
      (inserted envLibraryPath settings.libraryPath envs).bind fun envs =>
        inserted envOutput settings.output envs) = some (withSettings settings envp) := by
  have preload := names_binding_other settings.preload plain_preload plain_libraryPath
    libraryPath_ne_preload
  have preload' := names_binding_other settings.preload plain_preload plain_output output_ne_preload
  have libraryPath := names_binding_other settings.libraryPath plain_libraryPath plain_output
    output_ne_libraryPath
  rw [inserted_eq spared.several spared.preload, Option.bind_some,
    inserted_eq (not_alone_append _ preload)
      (mt (doubled_append_iff _ preload).mp spared.libraryPath),
    Option.bind_some, without_append_other _ preload,
    inserted_eq (not_alone_append _ libraryPath)
      (mt (doubled_append_iff _ libraryPath).mp
        (mt (doubled_append_iff _ preload').mp spared.output)),
    without_append_other _ libraryPath, without_append_other _ preload']
  simp [withSettings, others]

/-- Each of the three is there once. -/
theorem countP_withSettings {key : Str}
    (member : key ∈ [envPreload, envLibraryPath, envOutput]) (settings : Settings)
    (envp : List Str) : (withSettings settings envp).countP (names key) = 1 := by
  have absent : (others envp).countP (names key) = 0 := by
    refine List.countP_eq_zero.mpr fun e inside => ?_
    have outer := List.mem_filter.mp inside
    have middle := List.mem_filter.mp outer.1
    have inner := List.mem_filter.mp middle.1
    simp only [List.mem_cons, List.not_mem_nil, or_false] at member
    rcases member with rfl | rfl | rfl
    · simpa using inner.2
    · simpa using middle.2
    · simpa using outer.2
  rw [withSettings, List.countP_append, absent, Nat.zero_add]
  have preload := names_binding_other settings.preload plain_preload plain_libraryPath
    libraryPath_ne_preload
  have preload' := names_binding_other settings.preload plain_preload plain_output output_ne_preload
  have libraryPath := names_binding_other settings.libraryPath plain_libraryPath plain_output
    output_ne_libraryPath
  have libraryPath' := names_binding_other settings.libraryPath plain_libraryPath plain_preload
    libraryPath_ne_preload.symm
  have output := names_binding_other settings.output plain_output plain_preload output_ne_preload.symm
  have output' := names_binding_other settings.output plain_output plain_libraryPath
    output_ne_libraryPath.symm
  simp only [List.mem_cons, List.not_mem_nil, or_false] at member
  rcases member with rfl | rfl | rfl
  · simp [libraryPath', output]
  · simp [preload, output']
  · simp [preload', libraryPath]

/-- If the insertions leave each of the three once, none of them was misled. -/
theorem spared_of_inserted {envp first second third : List Str}
    (preload : inserted envPreload settings.preload envp = some first)
    (libraryPath : inserted envLibraryPath settings.libraryPath first = some second)
    (output : inserted envOutput settings.output second = some third)
    (once : ∀ key ∈ [envPreload, envLibraryPath, envOutput], third.countP (names key) = 1) :
    Spared envp := by
  have other := names_binding_other settings.preload plain_preload plain_libraryPath
    libraryPath_ne_preload
  have other' := names_binding_other settings.preload plain_preload plain_output output_ne_preload
  have other'' := names_binding_other settings.libraryPath plain_libraryPath plain_output
    output_ne_libraryPath
  have oncePreload : first.countP (names envPreload) = 1 := by
    rw [← countP_inserted_other plain_libraryPath plain_preload libraryPath_ne_preload.symm libraryPath,
      ← countP_inserted_other plain_output plain_preload output_ne_preload.symm output]
    exact once _ (by simp)
  have onceLibraryPath : second.countP (names envLibraryPath) = 1 := by
    rw [← countP_inserted_other plain_output plain_libraryPath output_ne_libraryPath.symm output]
    exact once _ (by simp)
  obtain ⟨several, single⟩ := countP_inserted preload
  have firstSet := Option.some.inj (preload.symm.trans (inserted_eq several (single oncePreload)))
  obtain ⟨several', single'⟩ := countP_inserted libraryPath
  have secondSet := Option.some.inj
    (libraryPath.symm.trans (inserted_eq several' (single' onceLibraryPath)))
  have single'' := (countP_inserted output).2 (once _ (by simp))
  refine ⟨several, single oncePreload, ?_, ?_⟩
  · have doubled := single' onceLibraryPath
    rwa [firstSet, doubled_append_iff _ other] at doubled
  · rwa [secondSet, doubled_append_iff _ other'', firstSet, without_append_other _ other,
      doubled_append_iff _ other'] at single''

/-- In a spared environment the three variables are as they should be. -/
theorem menvp_of_spared (carries : Carries settings environ) {envp : List Str}
    (spared : Spared envp) : menvp environ envp = .ok (withSettings settings envp) := by
  rw [menvp_eq carries, withSettings_of_spared spared]

/-- **The copy is right exactly when the environment is spared**: in a process that has the three
variables, the new environment has each of them once, with the value of the process, after the other
strings of the given one. -/
theorem menvp_eq_iff (carries : Carries settings environ) (envp : List Str) :
    menvp environ envp = .ok (withSettings settings envp) ↔ Spared envp := by
  constructor
  · intro right
    rw [menvp_eq carries] at right
    split at right
    · next envs found =>
      obtain ⟨first, preload, rest⟩ := Option.bind_eq_some_iff.mp found
      obtain ⟨second, libraryPath, output⟩ := Option.bind_eq_some_iff.mp rest
      refine spared_of_inserted preload libraryPath output fun key member => ?_
      rw [Except.ok.inj right]
      exact countP_withSettings member settings envp
    · cases right
  · exact menvp_of_spared carries

/-- What the started image finds in it. -/
theorem carries_withSettings (settings : Settings) (envp : List Str) :
    Carries settings (withSettings settings envp) := by
  have absent : ∀ key ∈ [envPreload, envLibraryPath, envOutput], getenv (others envp) key = none := by
    intro key member
    have preload : getenv (without envPreload envp) envPreload = none := getenv_without
    simp only [List.mem_cons, List.not_mem_nil, or_false] at member
    unfold others
    rcases member with rfl | rfl | rfl
    · rw [getenv_without_other plain_output plain_preload output_ne_preload.symm,
        getenv_without_other plain_libraryPath plain_preload libraryPath_ne_preload.symm, preload]
    · rw [getenv_without_other plain_output plain_libraryPath output_ne_libraryPath.symm,
        getenv_without]
    · exact getenv_without
  have libraryPath := names_binding_other settings.preload plain_preload plain_libraryPath
    libraryPath_ne_preload
  have output := names_binding_other settings.preload plain_preload plain_output output_ne_preload
  have output' := names_binding_other settings.libraryPath plain_libraryPath plain_output
    output_ne_libraryPath
  constructor
  · rw [withSettings, getenv_append, absent _ (by simp), Option.none_or, getenv_cons_self]
  · rw [withSettings, getenv_append, absent _ (by simp), Option.none_or,
      getenv_cons_other _ libraryPath, getenv_cons_self]
  · rw [withSettings, getenv_append, absent _ (by simp), Option.none_or,
      getenv_cons_other _ output, getenv_cons_other _ output', getenv_cons_self]

end Menvp

/-! ### One environment -/

/-- The library, its path, and the socket. -/
def tracedSettings : Settings where
  preload := "/opt/libear.so".toList
  libraryPath := "/opt/lib".toList
  output := "/tmp/socket".toList

def pathOnly : List Str := ["PATH=/bin".toList]

/-- Another library is preloaded, and the socket is another one. -/
def presetVariables : List Str :=
  ["PATH=/bin".toList, "LD_PRELOAD=/usr/lib/other.so".toList, "HOME=/root".toList,
    "XCAL_TRACER_OUTPUT=/tmp/old".toList]

theorem spared_presetVariables : Spared presetVariables where
  several := id
  preload both := absurd both.1 (by decide)
  libraryPath both := absurd both.1 (by decide)
  output both := absurd both.1 (by decide)

/-- Both are replaced. -/
theorem menvp_eq_iff_preset : menvp (withSettings tracedSettings []) presetVariables =
    .ok ["PATH=/bin".toList, "HOME=/root".toList, "LD_PRELOAD=/opt/libear.so".toList,
      "LD_LIBRARY_PATH=/opt/lib".toList, "XCAL_TRACER_OUTPUT=/tmp/socket".toList] := by
  have replaced : withSettings tracedSettings presetVariables =
      ["PATH=/bin".toList, "HOME=/root".toList, "LD_PRELOAD=/opt/libear.so".toList,
        "LD_LIBRARY_PATH=/opt/lib".toList, "XCAL_TRACER_OUTPUT=/tmp/socket".toList] := by decide
  rw [← replaced]
  exact (menvp_eq_iff (carries_withSettings tracedSettings []) presetVariables).mpr
    spared_presetVariables

end Xcalbuild.Tracer
