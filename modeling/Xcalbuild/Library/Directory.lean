/-
**Directories at the top of a relative path.**

A file name that `Path.filename` gives is a run of separators, which is empty unless the path is a
root, and then a name without separators (`IsName`). A nonempty such name is a directory (`IsDir`),
and a path below it starts with the directory and a separator (`Under`).

* `under_unique`: a path is below one directory only;
* `append_under`: what is appended to a path in the directory is below the directory;
* `append_parentPath`: a sibling of a path in the directory;
* `replaceExtension_below`: replacing the extension stays below the directory;
* `numbered_name_ne`: a name that ends in a number and an extension differs from one that has a single
  dot and no number, and `afterLast_eq_of_elements`: paths with the same elements have the same name.
-/
import Xcalbuild.Library.Path

namespace Xcalbuild.Library.Path

/-- A file name: separators, if it is the name of a root, and then none. -/
def IsName (f : Path) : Prop :=
  ∃ roots body : Path, f = roots ++ body ∧ (∀ c ∈ roots, c = '/') ∧ '/' ∉ body

/-- A file name that is more than a root. -/
def IsDir (d : Path) : Prop :=
  ∃ roots body : Path, d = roots ++ body ∧ (∀ c ∈ roots, c = '/') ∧ '/' ∉ body ∧ body ≠ []

/-- The path is below the directory. -/
def Under (d p : Path) : Prop := d ++ ['/'] <+: p

instance (d p : Path) : Decidable (Under d p) := inferInstanceAs (Decidable (d ++ ['/'] <+: p))

theorem under_iff {d p : Path} : Under d p ↔ ∃ rest, p = d ++ '/' :: rest := by
  constructor
  · rintro ⟨rest, rfl⟩
    exact ⟨rest, by simp⟩
  · rintro ⟨rest, rfl⟩
    exact ⟨rest, by simp⟩

/-! ### File names -/

theorem isName_of_notMem {f : Path} (single : '/' ∉ f) : IsName f :=
  ⟨[], f, rfl, fun _ member => (nomatch member), single⟩

theorem isName_of_networkName {p : Path} (net : isNetworkName p = true) : IsName p := by
  unfold isNetworkName at net
  split at net
  · rename_i name
    rw [Bool.and_eq_true, Bool.not_eq_true', Bool.not_eq_true'] at net
    refine ⟨['/', '/'], name, rfl, by simp, fun member => ?_⟩
    rw [List.contains_iff_mem.mpr member] at net
    cases net.2
  · cases net

theorem isName_filename (p : Path) : IsName (filename p) := by
  unfold filename
  dsimp only
  split_ifs with trailing root base net
  · rw [root]
    exact ⟨['/', '/'], [], rfl, by simp, List.not_mem_nil⟩
  · exact ⟨['/'], [], rfl, by simp, List.not_mem_nil⟩
  · exact isName_of_notMem (by decide)
  · exact isName_of_networkName net
  · exact isName_of_notMem (not_mem_afterLast '/' p)

/-- A path without separators is its own file name. -/
theorem filename_eq_self {p : Path} (single : '/' ∉ p) : filename p = p := by
  have last : p.getLast? ≠ some '/' := fun last => single (List.mem_of_getLast? last)
  have net : isNetworkName p = false := by
    unfold isNetworkName
    split
    · exact absurd List.mem_cons_self single
    · rfl
  unfold filename
  rw [if_neg last, net, if_neg Bool.false_ne_true, afterLast_eq_self single]

theorem IsName.append {f : Path} (name : IsName f) {s : Str} (single : '/' ∉ s) :
    IsName (f ++ s) := by
  obtain ⟨roots, body, rfl, separators, slashFree⟩ := name
  refine ⟨roots, body ++ s, List.append_assoc _ _ _, separators, ?_⟩
  rw [List.mem_append]
  rintro (member | member)
  · exact slashFree member
  · exact single member

theorem IsName.isDir {f : Path} (name : IsName f) {s : Str} (single : '/' ∉ s) (nonempty : s ≠ []) :
    IsDir (f ++ s) := by
  obtain ⟨roots, body, rfl, separators, slashFree⟩ := name
  refine ⟨roots, body ++ s, List.append_assoc _ _ _, separators, ?_,
    List.append_ne_nil_of_right_ne_nil _ nonempty⟩
  rw [List.mem_append]
  rintro (member | member)
  · exact slashFree member
  · exact single member

/-! ### Below a directory -/

/-- The directory at the top of a path. -/
def topDir (p : Path) : Path :=
  p.takeWhile (· = '/') ++ (p.dropWhile (· = '/')).takeWhile (· ≠ '/')

theorem topDir_append {d : Path} (dir : IsDir d) (rest : Path) : topDir (d ++ '/' :: rest) = d := by
  obtain ⟨roots, body, rfl, separators, slashFree, nonempty⟩ := dir
  obtain ⟨first, body, rfl⟩ := List.exists_cons_of_ne_nil nonempty
  have firstNot : first ≠ '/' := fun same => slashFree (same ▸ List.mem_cons_self)
  have rootsAll : ∀ c ∈ roots, decide (c = '/') = true := fun c member =>
    decide_eq_true (separators c member)
  have bodyAll : ∀ c ∈ first :: body, decide (c ≠ '/') = true := by
    intro c member
    have : c ≠ '/' := fun same => slashFree (same ▸ member)
    simpa using this
  have parts : (roots ++ first :: body) ++ '/' :: rest =
      roots ++ (first :: body ++ '/' :: rest) := by simp
  rw [topDir, parts, List.takeWhile_append_of_pos rootsAll, List.dropWhile_append_of_pos rootsAll]
  have takeNone : (first :: body ++ '/' :: rest).takeWhile (fun c => decide (c = '/')) = [] := by
    simp [firstNot]
  have dropNone : (first :: body ++ '/' :: rest).dropWhile (fun c => decide (c = '/')) =
      first :: body ++ '/' :: rest := by
    simp [firstNot]
  rw [takeNone, dropNone, List.append_nil, List.takeWhile_append_of_pos bodyAll]
  simp

/-- **A path is below one directory only.** -/
theorem under_unique {d d' p : Path} (dir : IsDir d) (dir' : IsDir d') (below : Under d p)
    (below' : Under d' p) : d = d' := by
  obtain ⟨rest, rfl⟩ := under_iff.mp below
  obtain ⟨rest', same⟩ := under_iff.mp below'
  calc d = topDir (d ++ '/' :: rest) := (topDir_append dir rest).symm
    _ = topDir (d' ++ '/' :: rest') := by rw [same]
    _ = d' := topDir_append dir' rest'

/-! ### Appending -/

theorem append_of_name (p : Path) {q : Path} (nonempty : q ≠ []) (relative : q.head? ≠ some '/') :
    append p q = if p = [] ∨ p.getLast? = some '/' then p ++ q else p ++ '/' :: q := by
  obtain ⟨first, rest, rfl⟩ := List.exists_cons_of_ne_nil nonempty
  have notSlash : first ≠ '/' := fun same => relative (by rw [same]; rfl)
  unfold append
  split
  · rename_i empty
    cases empty
  · rename_i same
    cases same
    exact absurd rfl notSlash
  · rfl

theorem IsDir.ne_nil {d : Path} (dir : IsDir d) : d ≠ [] := by
  obtain ⟨roots, body, rfl, -, -, nonempty⟩ := dir
  exact List.append_ne_nil_of_right_ne_nil _ nonempty

theorem getLast?_ne_of_notMem {s : Path} (single : '/' ∉ s) : s.getLast? ≠ some '/' := by
  intro last
  exact single (List.mem_of_getLast? last)

theorem IsDir.getLast?_ne {d : Path} (dir : IsDir d) : d.getLast? ≠ some '/' := by
  obtain ⟨roots, body, rfl, -, slashFree, nonempty⟩ := dir
  rw [List.getLast?_append_of_ne_nil _ nonempty]
  exact getLast?_ne_of_notMem slashFree

theorem head?_ne_of_notMem {s : Path} (single : '/' ∉ s) : s.head? ≠ some '/' := by
  intro first
  exact single (List.mem_of_head? first)

/-- A name in a directory. -/
theorem append_dir {d n : Path} (dir : IsDir d) (nonempty : n ≠ []) (single : '/' ∉ n) :
    append d n = d ++ '/' :: n := by
  rw [append_of_name d nonempty (head?_ne_of_notMem single), if_neg]
  rintro (empty | last)
  · exact dir.ne_nil empty
  · exact dir.getLast?_ne last

/-- **What is appended to a name in a directory is below the directory**: the name, or the name, a
separator and more. -/
theorem append_under {d n : Path} (dir : IsDir d) (nonempty : n ≠ []) (single : '/' ∉ n) (q : Path) :
    ∃ tail, append (append d n) q = d ++ '/' :: (n ++ tail) ∧
      (tail = [] ∨ tail.head? = some '/') := by
  rw [append_dir dir nonempty single]
  by_cases empty : q = []
  · subst empty
    exact ⟨[], by simp [append], Or.inl rfl⟩
  by_cases absolute : q.head? = some '/'
  · obtain ⟨rest, rfl⟩ : ∃ rest, q = '/' :: rest := by
      cases q with
      | nil => cases absolute
      | cons first rest => exact ⟨rest, by rw [Option.some.inj absolute]⟩
    exact ⟨'/' :: rest, by simp [append], Or.inr rfl⟩
  · refine ⟨'/' :: q, ?_, Or.inr rfl⟩
    have last : (d ++ '/' :: n).getLast? ≠ some '/' := by
      have parts : d ++ '/' :: n = (d ++ ['/']) ++ n := by simp
      rw [parts, List.getLast?_append_of_ne_nil _ nonempty]
      exact getLast?_ne_of_notMem single
    rw [append_of_name _ empty absolute, if_neg]
    · simp
    · rintro (empty' | last')
      · simp at empty'
      · exact last last'

/-- A path that is appended adds no character but a separator. -/
theorem mem_append {p q : Path} {c : Char} (notSlash : c ≠ '/') :
    c ∈ append p q ↔ c ∈ p ∨ c ∈ q := by
  unfold append
  split
  · simp
  · exact List.mem_append
  · split_ifs
    · exact List.mem_append
    · simp [notSlash]

/-! ### The parent directory -/

/-- A path with a separator after a directory is no network name. -/
theorem isNetworkName_below {d : Path} (dir : IsDir d) (rest : Path) :
    isNetworkName (d ++ '/' :: rest) = false := by
  cases net : isNetworkName (d ++ '/' :: rest) with
  | false => rfl
  | true =>
    obtain ⟨first, body, rfl⟩ := List.exists_cons_of_ne_nil dir.ne_nil
    unfold isNetworkName at net
    split at net
    · rename_i name same
      rw [Bool.and_eq_true, Bool.not_eq_true', Bool.not_eq_true'] at net
      obtain ⟨rfl, second⟩ := List.cons.inj same
      cases body with
      | nil => exact absurd rfl dir.getLast?_ne
      | cons other body =>
        obtain ⟨-, rfl⟩ := List.cons.inj second
        have contained : (body.append ('/' :: rest)).contains '/' = true :=
          List.contains_iff_mem.mpr (List.mem_append_right _ List.mem_cons_self)
        rw [contained] at net
        cases net.2
    · cases net

theorem filenamePos_below {d n : Path} (dir : IsDir d) (nonempty : n ≠ []) (single : '/' ∉ n) :
    filenamePos (d ++ '/' :: n) = d.length + 1 := by
  have last : (d ++ '/' :: n).getLast? ≠ some '/' := by
    have parts : d ++ '/' :: n = (d ++ ['/']) ++ n := by simp
    rw [parts, List.getLast?_append_of_ne_nil _ nonempty]
    exact getLast?_ne_of_notMem single
  rw [filenamePos, if_neg last, isNetworkName_below dir, if_neg Bool.false_ne_true,
    afterLast_append d single, List.length_append, List.length_cons]
  omega

/-- The parent of a name in a directory is the directory, or it and a separator if the directory is
a root. -/
theorem parentPath_below {d n : Path} (dir : IsDir d) (nonempty : n ≠ []) (single : '/' ∉ n) :
    parentPath (d ++ '/' :: n) = d ∨ parentPath (d ++ '/' :: n) = d ++ ['/'] := by
  obtain ⟨k, length⟩ : ∃ k, d.length = k + 1 :=
    ⟨d.length - 1, by have := List.length_pos_iff.mpr dir.ne_nil; omega⟩
  have size := filenamePos_below dir nonempty single
  have atSeparator : (d ++ '/' :: n)[d.length]? = some '/' := by simp
  have atLast : (d ++ '/' :: n)[k]? ≠ some '/' := by
    rw [List.getElem?_append_left (by omega)]
    have last := dir.getLast?_ne
    rwa [List.getLast?_eq_getElem?, length, Nat.add_sub_cancel] at last
  have atName : (d ++ '/' :: n)[d.length + 1]? ≠ some '/' := by
    have first := head?_ne_of_notMem single
    rw [List.getElem?_append_right (by omega), show d.length + 1 - d.length = 1 by omega,
      List.getElem?_cons_succ]
    rwa [List.head?_eq_getElem?] at first
  unfold parentPath
  rw [size]
  dsimp only
  rw [if_neg fun all => atName all.2.2]
  generalize rootDirectoryStart (d ++ '/' :: n) (d.length + 1) = root
  have skip : skipSeparators (d ++ '/' :: n) root (d.length + 1) = d.length ∨
      skipSeparators (d ++ '/' :: n) root (d.length + 1) = d.length + 1 := by
    rw [skipSeparators]
    split_ifs
    · refine Or.inl ?_
      rw [length, skipSeparators, if_neg fun both => atLast both.2]
    · exact Or.inr rfl
  rcases skip with stop | stop
  · rw [stop]
    exact Or.inl List.take_left
  · rw [stop]
    refine Or.inr ?_
    have parts : d ++ '/' :: n = (d ++ ['/']) ++ n := by simp
    rw [parts, List.take_left' (by simp)]

/-- **A sibling of a name in a directory** is in the directory. -/
theorem append_parentPath {d n q : Path} (dir : IsDir d) (nonempty : n ≠ []) (single : '/' ∉ n)
    (nonempty' : q ≠ []) (single' : '/' ∉ q) :
    append (parentPath (append d n)) q = d ++ '/' :: q := by
  rw [append_dir dir nonempty single]
  rcases parentPath_below dir nonempty single with parent | parent
  · rw [parent, append_dir dir nonempty' single']
  · rw [parent, append_of_name _ nonempty' (head?_ne_of_notMem single'), if_pos (Or.inr (by simp))]
    simp

/-! ### Replacing the extension -/

/-- An extension is empty, or a dot and a word without a dot and a separator. -/
def IsExtension (ext : Path) : Prop :=
  ext = [] ∨ ∃ word, ext = '.' :: word ∧ '.' ∉ word ∧ '/' ∉ word

theorem IsExtension.notMem {ext : Path} (extension : IsExtension ext) : '/' ∉ ext := by
  rcases extension with rfl | ⟨word, rfl, -, single⟩
  · exact List.not_mem_nil
  · rw [List.mem_cons]
    rintro (same | member)
    · cases same
    · exact single member

theorem splitExtension_name {name : Path} (single : '/' ∉ name) :
    ∃ front, name = front ++ (splitExtension name).2 ∧ IsExtension (splitExtension name).2 := by
  unfold splitExtension
  split_ifs with plain
  · exact ⟨name, by simp, Or.inl rfl⟩
  · rw [not_or, not_or, not_not] at plain
    obtain ⟨front, parts⟩ := exists_eq_afterLast plain.2.2
    refine ⟨front, parts, Or.inr ⟨_, rfl, not_mem_afterLast _ _, fun member => single ?_⟩⟩
    rw [parts]
    exact List.mem_append_right _ (List.mem_cons_of_mem _ member)

theorem below_ne_root {d : Path} (dir : IsDir d) (rest : Path) : d ++ '/' :: rest ≠ ['/', '/'] := by
  intro same
  obtain ⟨first, body, rfl⟩ := List.exists_cons_of_ne_nil dir.ne_nil
  have last := dir.getLast?_ne
  cases body with
  | nil =>
    obtain ⟨rfl, -⟩ := List.cons.inj same
    exact last rfl
  | cons other body =>
    have := congrArg List.length same
    simp at this

/-- The file name of a path below a directory. -/
theorem filename_below {d : Path} (dir : IsDir d) (rest : Path) :
    (splitExtension (filename (d ++ '/' :: rest))).2 = [] ∨
      filename (d ++ '/' :: rest) = afterLast '/' rest := by
  unfold filename
  dsimp only
  rw [isNetworkName_below dir, if_neg Bool.false_ne_true, if_neg (below_ne_root dir rest)]
  split_ifs with trailing base
  · exact Or.inl (by decide)
  · exact Or.inl (by decide)
  · exact Or.inr (afterLast_append_sep d rest)

/-- The extension of a path below a directory is at its end. -/
theorem extension_below {d : Path} (dir : IsDir d) (rest : Path) :
    ∃ front, rest = front ++ extension (d ++ '/' :: rest) ∧
      IsExtension (extension (d ++ '/' :: rest)) := by
  unfold extension
  rcases filename_below dir rest with absent | name
  · rw [absent]
    exact ⟨rest, by simp, Or.inl rfl⟩
  · rw [name]
    obtain ⟨front, parts, extension⟩ := splitExtension_name (not_mem_afterLast '/' rest)
    obtain ⟨lead, whole⟩ := afterLast_suffix '/' rest
    exact ⟨lead ++ front, by rw [List.append_assoc, ← parts, whole], extension⟩

theorem replaceExtension_dot (p w : Path) : replaceExtension p ('.' :: w) =
    p.take (p.length - (extension p).length) ++ '.' :: w := rfl

/-- **Putting a number before the extension** of a path below a directory. -/
theorem replaceExtension_number {d : Path} (dir : IsDir d) (rest : Path) :
    ∃ front, rest = front ++ extension (d ++ '/' :: rest) ∧
      IsExtension (extension (d ++ '/' :: rest)) ∧ ∀ k,
        replaceExtension (d ++ '/' :: rest) (numberSuffix k ++ extension (d ++ '/' :: rest)) =
          d ++ '/' :: (front ++ (numberSuffix k ++ extension (d ++ '/' :: rest))) := by
  obtain ⟨front, parts, isExtension⟩ := extension_below dir rest
  refine ⟨front, parts, isExtension, fun k => ?_⟩
  have base : (d ++ '/' :: rest).take
      ((d ++ '/' :: rest).length - (extension (d ++ '/' :: rest)).length) = d ++ '/' :: front := by
    generalize extension (d ++ '/' :: rest) = ext at parts
    subst parts
    have whole : d ++ '/' :: (front ++ ext) = (d ++ '/' :: front) ++ ext := by simp
    rw [whole, List.length_append, Nat.add_sub_cancel, List.take_left]
  have dotted : numberSuffix k ++ extension (d ++ '/' :: rest) =
      '.' :: (decimal k ++ extension (d ++ '/' :: rest)) := rfl
  rw [dotted, replaceExtension_dot, base, List.append_assoc, List.cons_append]

theorem replaceExtension_below {d : Path} (dir : IsDir d) (rest : Path) :
    ∃ front ext, rest = front ++ ext ∧ IsExtension ext ∧ ∀ k,
      replaceExtension (d ++ '/' :: rest) (numberSuffix k ++ extension (d ++ '/' :: rest)) =
        d ++ '/' :: (front ++ (numberSuffix k ++ ext)) := by
  obtain ⟨front, parts, isExtension, renamed⟩ := replaceExtension_number dir rest
  exact ⟨front, _, parts, isExtension, renamed⟩

/-- A name that ends in a number and an extension is not a given name with one dot and no number
after it. -/
theorem numbered_name_ne {front ext w : Path} {k : Nat} (isExtension : IsExtension ext)
    (oneDot : w.count '.' = 1) (notNumber : ∃ c ∈ afterLast '.' w, c.isDigit = false) :
    front ++ (numberSuffix k ++ ext) ≠ w := by
  rintro rfl
  rcases isExtension with rfl | ⟨word, rfl, noDot, -⟩
  · obtain ⟨c, member, notDigit⟩ := notNumber
    rw [List.append_nil, numberSuffix, afterLast_append _ (not_mem_decimal (by decide))] at member
    exact not_mem_decimal notDigit member
  · rw [List.count_append, List.count_append, numberSuffix, List.count_cons_self,
      List.count_cons_self] at oneDot
    omega

/-! ### Elements -/

theorem getLast?_names {p : Path} (nonempty : p ≠ []) (last : p.getLast? ≠ some '/') :
    (names p).getLast? = some (afterLast '/' p) := by
  have tokens := getLast?_split '/' p
  have nonempty' : afterLast '/' p ≠ [] := by
    rw [afterLast, Ne, List.rtakeWhile_eq_nil_iff]
    intro all
    refine last ?_
    have isLast := all nonempty
    rw [decide_eq_true_iff, not_not] at isLast
    rw [List.getLast?_eq_some_getLast nonempty, isLast]
  obtain ⟨front, parts⟩ := List.getLast?_eq_some_iff.mp tokens
  rw [names, if_neg last, List.append_nil, parts, List.filter_append]
  simp [nonempty']

theorem afterLast_append_of_mem {p q : Path} (present : '/' ∈ q) :
    afterLast '/' (p ++ q) = afterLast '/' q := by
  obtain ⟨front, parts⟩ := exists_eq_afterLast present
  have whole : p ++ q = (p ++ front) ++ '/' :: afterLast '/' q := by
    conv_lhs => rw [parts]
    simp
  rw [whole, afterLast_append _ (not_mem_afterLast '/' q)]

/-- The end of a path that does not end in a separator has another character. -/
theorem all_eq_false_of_last {lead q : Path} (last : (lead ++ q).getLast? ≠ some '/')
    (nonempty : q ≠ []) : q.all (· = '/') = false := by
  cases all : q.all (· = '/') with
  | false => rfl
  | true =>
    refine absurd ?_ last
    rw [List.getLast?_append_of_ne_nil _ nonempty, List.getLast?_eq_some_getLast nonempty]
    have same := List.all_eq_true.mp all _ (List.getLast_mem nonempty)
    rw [of_decide_eq_true same]

/-- Names at the end of a path that does not end in a separator end like the path. -/
theorem getLast?_append_names (front : List Path) {lead q : Path}
    (last : (lead ++ q).getLast? ≠ some '/') (nonempty : q ≠ [])
    (same : afterLast '/' (lead ++ q) = afterLast '/' q) :
    ∃ name, (front ++ names q).getLast? = some name ∧
      afterLast '/' name = afterLast '/' (lead ++ q) := by
  have last' : q.getLast? ≠ some '/' := by
    rwa [List.getLast?_append_of_ne_nil _ nonempty] at last
  refine ⟨afterLast '/' (lead ++ q), ?_, afterLast_eq_self (not_mem_afterLast '/' _)⟩
  rw [List.getLast?_append, getLast?_names nonempty last', same]
  rfl

/-- The last element of a path that does not end in a separator ends like the path. -/
theorem getLast?_elements {p : Path} (nonempty : p ≠ []) (last : p.getLast? ≠ some '/') :
    ∃ name, (elements p).getLast? = some name ∧ afterLast '/' name = afterLast '/' p := by
  unfold elements
  split
  · exact absurd rfl nonempty
  · rename_i rest
    dsimp only
    split_ifs with more all absent allTail
    · have nonempty' : rest ≠ [] := by
        rintro rfl
        cases more
      rw [@all_eq_false_of_last ['/', '/'] rest last nonempty'] at all
      cases all
    · have nonempty' : rest ≠ [] := by
        rintro rfl
        cases more
      exact @getLast?_append_names [['/']] ['/', '/'] rest last nonempty'
        (afterLast_append_sep ['/'] rest)
    · have whole : rest.takeWhile (fun c => decide (c ≠ '/')) = rest := by
        conv_rhs => rw [← List.takeWhile_append_dropWhile (p := fun c => decide (c ≠ '/')) (l := rest)]
        rw [absent, List.append_nil]
      exact ⟨'/' :: '/' :: rest, by rw [whole]; rfl, rfl⟩
    · have whole : '/' :: '/' :: rest =
          ('/' :: '/' :: rest.takeWhile (fun c => decide (c ≠ '/'))) ++
            rest.dropWhile (fun c => decide (c ≠ '/')) := by
        simp [List.takeWhile_append_dropWhile]
      rw [whole] at last
      rw [all_eq_false_of_last last absent] at allTail
      cases allTail
    · have whole : '/' :: '/' :: rest =
          ('/' :: '/' :: rest.takeWhile (fun c => decide (c ≠ '/'))) ++
            rest.dropWhile (fun c => decide (c ≠ '/')) := by
        simp [List.takeWhile_append_dropWhile]
      rw [whole] at last ⊢
      refine getLast?_append_names
        ['/' :: '/' :: rest.takeWhile (fun c => decide (c ≠ '/')), ['/']] last absent ?_
      apply afterLast_append_of_mem
      have first := List.head_dropWhile_not (fun c => decide (c ≠ '/')) absent
      rw [decide_eq_false_iff_not, not_not] at first
      have member := List.head_mem absent
      rwa [first] at member
  · rename_i rest _
    split_ifs with absent
    · subst absent
      exact absurd rfl last
    · exact @getLast?_append_names [['/']] ['/'] rest last absent (afterLast_append_sep [] rest)
  · exact @getLast?_append_names [] [] p last nonempty rfl

/-- **Paths with the same elements end alike.** -/
theorem afterLast_eq_of_elements {p q : Path} (nonempty : p ≠ []) (last : p.getLast? ≠ some '/')
    (nonempty' : q ≠ []) (last' : q.getLast? ≠ some '/') (same : elements p = elements q) :
    afterLast '/' p = afterLast '/' q := by
  obtain ⟨name, found, ends⟩ := getLast?_elements nonempty last
  obtain ⟨name', found', ends'⟩ := getLast?_elements nonempty' last'
  rw [same, found'] at found
  cases found
  rw [← ends, ends']

end Xcalbuild.Library.Path
