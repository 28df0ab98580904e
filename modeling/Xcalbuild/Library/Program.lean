/-
**Programs that share a disk.**

A program changes files, reads files and hands on values; what it does next may depend on what it
read. Several programs run on one disk, one step of one of them at a time (`Runs`).

* `alone`: what a program does when nobody else runs, and `footprint`: the files it works on then;
* `alone_congr`: this depends on the files of the footprint only;
* **`isolation`**: where the footprints of the programs are disjoint, every run is an interleaving of
  what each program does alone, and every read finds what it finds alone.
-/
import Xcalbuild.Library.Disk
import Xcalbuild.Library.Interleaving

namespace Xcalbuild.Library

/-- A program on files with paths in `κ` and contents in `β`, which hands on values in `α`. -/
inductive Program (κ β α : Type) where
  | done
  | change (op : FileOp κ β) (rest : Program κ β α)
  /-- A file that is not there reads as `none`. -/
  | read (path : κ) (rest : Option β → Program κ β α)
  | emit (value : α) (rest : Program κ β α)

/-- What a step of a program can be seen to do. -/
inductive Act (κ β α : Type) where
  | change (op : FileOp κ β)
  | emit (value : α)

namespace Act

variable {κ β α : Type}

def op? : Act κ β α → Option (FileOp κ β)
  | change op => some op
  | emit _ => none

def value? : Act κ β α → Option α
  | change _ => none
  | emit value => some value

/-- The changes in a run. -/
def changes (acts : List (Act κ β α)) : List (FileOp κ β) := acts.filterMap op?

/-- The values that are handed on in a run. -/
def emitted (acts : List (Act κ β α)) : List α := acts.filterMap value?

@[simp] theorem emitted_map_emit (values : List α) :
    emitted (values.map (emit : α → Act κ β α)) = values := by
  rw [emitted, List.filterMap_map]
  exact List.filterMap_some

end Act

namespace Program

open Disk Act

variable {κ β α : Type} [DecidableEq κ]

/-- One step: what can be seen of it, the disk after it, and the rest of the program. -/
def step (disk : κ → Option β) :
    Program κ β α → Option (List (Act κ β α) × (κ → Option β) × Program κ β α)
  | done => none
  | change op rest => some ([.change op], apply disk op, rest)
  | read path rest => some ([], disk, rest (disk path))
  | emit value rest => some ([.emit value], disk, rest)

/-- **A run of several programs to their ends**, on one disk. -/
inductive Runs : (κ → Option β) → List (Program κ β α) → List (Act κ β α) → (κ → Option β) → Prop
  | done {disk : κ → Option β} {programs : List (Program κ β α)} :
      (∀ program ∈ programs, program = done) → Runs disk programs [] disk
  | step {disk disk' last : κ → Option β} {programs : List (Program κ β α)} {n : Nat}
      {program rest : Program κ β α} {seen acts : List (Act κ β α)} :
      programs[n]? = some program → program.step disk = some (seen, disk', rest) →
        Runs disk' (programs.set n rest) acts last → Runs disk programs (seen ++ acts) last

/-- What a program does when nobody else runs. -/
def alone (disk : κ → Option β) : Program κ β α → List (Act κ β α)
  | done => []
  | change op rest => .change op :: alone (apply disk op) rest
  | read path rest => alone disk (rest (disk path))
  | emit value rest => .emit value :: alone disk rest

/-- The files that a program works on when nobody else runs. -/
def footprint (disk : κ → Option β) : Program κ β α → List κ
  | done => []
  | change op rest => op.path :: footprint (apply disk op) rest
  | read path rest => path :: footprint disk (rest (disk path))
  | emit _ rest => footprint disk rest

/-- **What a program does depends on the files of its footprint only.** -/
theorem alone_congr (program : Program κ β α) {disk disk' : κ → Option β}
    (agree : ∀ path ∈ footprint disk program, disk path = disk' path) :
    alone disk' program = alone disk program ∧ footprint disk' program = footprint disk program := by
  induction program generalizing disk disk' with
  | done => exact ⟨rfl, rfl⟩
  | change op rest ih =>
    have later : ∀ path ∈ footprint (apply disk op) rest,
        apply disk op path = apply disk' op path := by
      intro path member
      by_cases here : path = op.path
      · subst here
        rw [apply, apply, Function.update_self, Function.update_self]
      · rw [apply, apply, Function.update_of_ne here, Function.update_of_ne here]
        exact agree path (List.mem_cons_of_mem _ member)
    exact ⟨congrArg (_ :: ·) (ih later).1, congrArg (_ :: ·) (ih later).2⟩
  | read path rest ih =>
    have here : disk path = disk' path := agree path List.mem_cons_self
    have later := ih (disk path) fun other member => agree other (List.mem_cons_of_mem _ member)
    unfold alone footprint
    rw [← here]
    exact ⟨later.1, congrArg (path :: ·) later.2⟩
  | emit value rest ih => exact ⟨congrArg (_ :: ·) (ih agree).1, (ih agree).2⟩

/-- A step is the first one of what the program does alone, and changes its footprint only. -/
theorem step_cases {program rest : Program κ β α} {disk disk' : κ → Option β}
    {seen : List (Act κ β α)} (stepped : program.step disk = some (seen, disk', rest)) :
    alone disk program = seen ++ alone disk' rest ∧ disk' = run disk (changes seen) ∧
      (∀ path ∈ footprint disk' rest, path ∈ footprint disk program) ∧
      ∀ path, path ∉ footprint disk program → disk' path = disk path := by
  cases program with
  | done => cases stepped
  | change op rest =>
    cases stepped
    refine ⟨rfl, rfl, fun path member => List.mem_cons_of_mem _ member, fun path outside => ?_⟩
    have other : path ≠ op.path := fun same => outside (by rw [same]; exact List.mem_cons_self)
    exact Function.update_of_ne other ..
  | read path rest =>
    cases stepped
    exact ⟨rfl, rfl, fun path member => List.mem_cons_of_mem _ member, fun _ _ => rfl⟩
  | emit value rest =>
    cases stepped
    exact ⟨rfl, rfl, fun path member => member, fun _ _ => rfl⟩

/-- No file is in two footprints. -/
def Apart (disk : κ → Option β) (programs : List (Program κ β α)) : Prop :=
  ∀ (n m : Nat) (first second : Program κ β α), n ≠ m → programs[n]? = some first →
    programs[m]? = some second → ∀ path ∈ footprint disk first, path ∉ footprint disk second

/-- After a step of one program, the others do alone what they did before it. -/
theorem others_alone {programs : List (Program κ β α)} {disk disk' : κ → Option β} {n m : Nat}
    {program rest other : Program κ β α} {seen : List (Act κ β α)} (apart : Apart disk programs)
    (listed : programs[n]? = some program) (stepped : program.step disk = some (seen, disk', rest))
    (away : n ≠ m) (atOther : programs[m]? = some other) :
    alone disk' other = alone disk other ∧ footprint disk' other = footprint disk other := by
  apply alone_congr
  intro path member
  have outside := apart m n other program away.symm atOther listed path member
  exact ((step_cases stepped).2.2.2 path outside).symm

theorem apart_step {programs : List (Program κ β α)} {disk disk' : κ → Option β} {n : Nat}
    {program rest : Program κ β α} {seen : List (Act κ β α)} (apart : Apart disk programs)
    (listed : programs[n]? = some program) (stepped : program.step disk = some (seen, disk', rest)) :
    Apart disk' (programs.set n rest) := by
  -- What the programs work on from here on, they worked on before.
  have before : ∀ (m : Nat) (other : Program κ β α), (programs.set n rest)[m]? = some other →
      ∃ was, programs[m]? = some was ∧
        ∀ path ∈ footprint disk' other, path ∈ footprint disk was := by
    intro m other atOther
    by_cases caller : n = m
    · subst caller
      rw [List.getElem?_set_self (List.getElem?_eq_some_iff.mp listed).1] at atOther
      cases atOther
      exact ⟨program, listed, (step_cases stepped).2.2.1⟩
    · rw [List.getElem?_set_ne caller] at atOther
      refine ⟨other, atOther, fun path member => ?_⟩
      rwa [(others_alone apart listed stepped caller atOther).2] at member
  intro i j first second distinct atFirst atSecond path member inSecond
  obtain ⟨was, wasAt, grown⟩ := before i first atFirst
  obtain ⟨was', wasAt', grown'⟩ := before j second atSecond
  exact apart i j was was' distinct wasAt wasAt' path (grown path member) (grown' path inSecond)

/-- **A step of one program** is the first one of what it does alone; the others do what they
did. -/
theorem map_alone_step {programs : List (Program κ β α)} {disk disk' : κ → Option β} {n : Nat}
    {program rest : Program κ β α} {seen : List (Act κ β α)} (apart : Apart disk programs)
    (listed : programs[n]? = some program) (stepped : program.step disk = some (seen, disk', rest)) :
    (programs.set n rest).map (alone disk') =
      (programs.map (alone disk)).set n (alone disk' rest) := by
  apply List.ext_getElem?
  intro m
  by_cases caller : n = m
  · subst caller
    have inside := (List.getElem?_eq_some_iff.mp listed).1
    rw [List.getElem?_map, List.getElem?_set_self inside,
      List.getElem?_set_self (by rwa [List.length_map])]
    rfl
  · rw [List.getElem?_map, List.getElem?_set_ne caller, List.getElem?_set_ne caller,
      List.getElem?_map]
    cases atOther : programs[m]? with
    | none => rfl
    | some other => exact congrArg some (others_alone apart listed stepped caller atOther).1

/-- **Programs with disjoint footprints run as if each of them ran alone.** -/
theorem isolation {programs : List (Program κ β α)} {disk last : κ → Option β}
    {acts : List (Act κ β α)} (runs : Runs disk programs acts last)
    (apart : Apart disk programs) :
    Interleaving (programs.map (alone disk)) acts ∧ last = run disk (changes acts) := by
  induction runs with
  | done finished =>
    refine ⟨.done fun calls member => ?_, rfl⟩
    obtain ⟨program, inside, rfl⟩ := List.mem_map.mp member
    rw [finished program inside]
    rfl
  | @step disk disk' last programs n program rest seen acts listed stepped _ ih =>
    obtain ⟨order, final⟩ := ih (apart_step apart listed stepped)
    rw [map_alone_step apart listed stepped] at order
    obtain ⟨first, changed, -⟩ := step_cases stepped
    have atAlone : (programs.map (alone disk))[n]? = some (seen ++ alone disk' rest) := by
      rw [List.getElem?_map, listed, ← first]
      rfl
    refine ⟨?_, ?_⟩
    · match seen, atAlone with
      | [], atAlone =>
        obtain ⟨inside, same⟩ := List.getElem?_eq_some_iff.mp atAlone
        rw [List.nil_append] at same
        rwa [← same, List.set_getElem_self] at order
      | [act], atAlone => exact .call atAlone order
      | first :: second :: more, _ => cases program <;> cases stepped
    · rw [final, changed, ← run_append, changes, changes, changes, List.filterMap_append]

end Program

end Xcalbuild.Library
