/-
**Files on a disk.**

A disk maps the paths of its files to their contents. A run of operations changes the files it names,
and what it makes of one file depends on the operations on that file only, in their order.

* `run_at`: the operations on other files may be left out;
* `run_frame`: a file that no operation names is as it was.
-/
import Mathlib.Data.List.Basic
import Mathlib.Logic.Function.Basic
import Mathlib.Tactic.SplitIfs

namespace Xcalbuild.Library

/-- A write of a whole file, or its removal. -/
inductive FileOp (κ β : Type) where
  | write (path : κ) (content : β)
  | remove (path : κ)

namespace FileOp

variable {κ β : Type}

def path : FileOp κ β → κ
  | write path _ => path
  | remove path => path

/-- What is at the path afterwards. -/
def left : FileOp κ β → Option β
  | write _ content => some content
  | remove _ => none

end FileOp

namespace Disk

variable {κ β : Type} [DecidableEq κ]

def apply (disk : κ → Option β) (op : FileOp κ β) : κ → Option β :=
  Function.update disk op.path op.left

/-- The disk after a run of operations. -/
def run (disk : κ → Option β) (ops : List (FileOp κ β)) : κ → Option β := ops.foldl apply disk

theorem run_append (disk : κ → Option β) (first second : List (FileOp κ β)) :
    run disk (first ++ second) = run (run disk first) second := List.foldl_append

theorem run_cons (disk : κ → Option β) (op : FileOp κ β) (ops : List (FileOp κ β)) :
    run disk (op :: ops) = run (apply disk op) ops := rfl

/-- The operations on a file. -/
def onFile (path : κ) (ops : List (FileOp κ β)) : List (FileOp κ β) :=
  ops.filter fun op => decide (op.path = path)

theorem onFile_cons_self {op : FileOp κ β} {path : κ} (here : op.path = path)
    (ops : List (FileOp κ β)) : onFile path (op :: ops) = op :: onFile path ops :=
  List.filter_cons_of_pos (decide_eq_true here)

theorem onFile_cons_other {op : FileOp κ β} {path : κ} (other : op.path ≠ path)
    (ops : List (FileOp κ β)) : onFile path (op :: ops) = onFile path ops :=
  List.filter_cons_of_neg (by rwa [decide_eq_true_eq])

/-- A write, and another operation on the file. -/
theorem onFile_pair (name : κ) (content : β) {second : FileOp κ β} (same : second.path = name)
    (path : κ) (ops : List (FileOp κ β)) :
    onFile path (.write name content :: second :: ops) =
      if name = path then .write name content :: second :: onFile path ops
      else onFile path ops := by
  split_ifs with here
  · rw [onFile_cons_self (show (FileOp.write name content).path = path from here),
      onFile_cons_self (same.trans here)]
  · rw [onFile_cons_other (show (FileOp.write name content).path ≠ path from here),
      onFile_cons_other fun named => here (same.symm.trans named)]

/-- **What becomes of a file depends on the operations on it.** -/
theorem run_at (ops : List (FileOp κ β)) {disk disk' : κ → Option β} {path : κ}
    (same : disk path = disk' path) : run disk ops path = run disk' (onFile path ops) path := by
  induction ops generalizing disk disk' with
  | nil => exact same
  | cons op ops ih =>
    by_cases here : op.path = path
    · rw [onFile_cons_self here, run_cons, run_cons]
      apply ih
      subst here
      rw [apply, apply, Function.update_self, Function.update_self]
    · rw [onFile_cons_other here, run_cons]
      apply ih
      rw [apply, Function.update_of_ne fun named => here named.symm]
      exact same

/-- **A file that no operation names** is as it was. -/
theorem run_frame {ops : List (FileOp κ β)} (disk : κ → Option β) {path : κ}
    (unnamed : onFile path ops = []) : run disk ops path = disk path := by
  rw [run_at ops rfl, unnamed]
  rfl

end Disk

end Xcalbuild.Library
