/-
**Siblings.**

Two paths that differ after their last separator only lie in the same directory, whatever the
directory is called, and a path that ends in a separator lies where its `.` lies.

* `parentPath_name`: the parent of a name in a path below a directory; `parentPath_trailing`: the
  parent of the path itself, with a separator after it;
* `parentPath_numbered`: putting a number before the extension keeps the parent;
* `elements_numbered_ne`: and it makes another path;
* `extension_numbered`: and it keeps an extension, while a path without one gets the number.
-/
import Xcalbuild.Library.Directory

namespace Xcalbuild.Library.Path

/-! ### The root of a path below a directory -/

theorem rootDirectoryStart_relative {first : Char} (notSlash : first ≠ '/') (rest : Path)
    (size : Nat) : rootDirectoryStart (first :: rest) size = none := by
  unfold rootDirectoryStart
  split
  · rename_i same
    exact absurd (List.cons.inj same).1 notSlash
  · rename_i same
    exact absurd (List.cons.inj same).1 notSlash
  · rfl

theorem rootDirectoryStart_absolute {first : Char} (notSlash : first ≠ '/') (rest : Path)
    {size : Nat} (pos : 0 < size) : rootDirectoryStart ('/' :: first :: rest) size = some 0 := by
  unfold rootDirectoryStart
  split
  · rename_i same
    exact absurd (List.cons.inj (List.cons.inj same).2).1 notSlash
  · exact if_pos pos
  · rename_i other
    exact absurd rfl (other _)

theorem rootDirectoryStart_network {body : Path} (slashFree : '/' ∉ body) (nonempty : body ≠ [])
    (rest : Path) {size : Nat} (inside : 2 + body.length < size) :
    rootDirectoryStart ('/' :: '/' :: (body ++ '/' :: rest)) size = some (2 + body.length) := by
  obtain ⟨first, body, rfl⟩ := List.exists_cons_of_ne_nil nonempty
  have notSlash : first ≠ '/' := fun same => slashFree (same ▸ List.mem_cons_self)
  have absent : (first :: body).findIdx (fun c => decide (c = '/')) = (first :: body).length := by
    refine List.findIdx_eq_length.mpr fun c member => decide_eq_false ?_
    exact fun same => slashFree (same ▸ member)
  have found : ((first :: body) ++ '/' :: rest).findIdx (fun c => decide (c = '/')) =
      (first :: body).length := by
    rw [List.findIdx_append, absent, if_neg (Nat.lt_irrefl _)]
    simp [List.findIdx_cons]
  rw [List.length_cons] at inside
  show (if size = 2 then none
    else if 3 < size ∧ ((first :: body) ++ '/' :: rest).head? ≠ some '/' then
      let pos := 2 + ((first :: body) ++ '/' :: rest).findIdx (fun c => decide (c = '/'))
      if pos < size then some pos else none
    else if 0 < size then some 0 else none) = _
  rw [if_neg (by omega), if_pos ⟨by omega, by simpa using notSlash⟩, found, List.length_cons]
  exact if_pos inside

theorem rootDirectoryStart_slashes (rest : Path) {size : Nat} (inside : 2 < size) :
    rootDirectoryStart ('/' :: '/' :: '/' :: rest) size = some 0 := by
  show (if size = 2 then none
    else if 3 < size ∧ some '/' ≠ some '/' then _
    else if 0 < size then some 0 else none) = _
  rw [if_neg (by omega), if_neg fun both => both.2 rfl, if_pos (by omega)]

/-- **The root of a path below a directory lies in the directory**: what comes after the directory
does not matter. -/
theorem rootDirectoryStart_below {d : Path} (dir : IsDir d) :
    ∃ root, (∀ rest size, d.length < size → rootDirectoryStart (d ++ '/' :: rest) size = root) ∧
      (∀ k, root = some k → k ≤ d.length) ∧ (d.length = 1 → root = none) := by
  obtain ⟨roots, body, rfl, separators, slashFree, nonempty⟩ := dir
  have bodyLength := List.length_pos_iff.mpr nonempty
  obtain ⟨first, tail, bodyParts⟩ := List.exists_cons_of_ne_nil nonempty
  have notSlash : first ≠ '/' := by
    intro same
    rw [bodyParts, same] at slashFree
    exact slashFree List.mem_cons_self
  match roots, separators with
  | [], _ =>
    refine ⟨none, fun rest size _ => ?_, fun k same => (nomatch same), fun _ => rfl⟩
    rw [bodyParts]
    exact rootDirectoryStart_relative notSlash _ _
  | [c], separators =>
    have slash : c = '/' := separators c (by simp)
    subst slash
    refine ⟨some 0, fun rest size inside => ?_, fun k same => ?_, fun one => ?_⟩
    · rw [bodyParts]
      exact rootDirectoryStart_absolute notSlash _ (by omega)
    · cases same
      exact Nat.zero_le _
    · rw [List.length_append, List.length_singleton] at one
      omega
  | [c, c'], separators =>
    have slash : c = '/' := separators c (by simp)
    have slash' : c' = '/' := separators c' (by simp)
    subst slash slash'
    have length : (['/', '/'] ++ body).length = 2 + body.length := by
      rw [List.length_append]
      rfl
    rw [length]
    refine ⟨some (2 + body.length), fun rest size inside => ?_, fun k same => ?_, fun one => ?_⟩
    · exact rootDirectoryStart_network slashFree nonempty rest inside
    · cases same
      exact Nat.le_refl _
    · omega
  | c :: c' :: c'' :: roots, separators =>
    have slash : c = '/' := separators c (by simp)
    have slash' : c' = '/' := separators c' (by simp)
    have slash'' : c'' = '/' := separators c'' (by simp)
    subst slash slash' slash''
    have length : 2 < ('/' :: '/' :: '/' :: roots ++ body).length := by
      simp only [List.cons_append, List.length_cons]
      omega
    refine ⟨some 0, fun rest size inside => ?_, fun k same => ?_, fun one => ?_⟩
    · exact rootDirectoryStart_slashes _ (by omega)
    · cases same
      exact Nat.zero_le _
    · omega

/-! ### Skipping separators -/

theorem skipSeparators_congr {p q : Path} (root : Option Nat) {size : Nat}
    (same : ∀ i < size, p[i]? = q[i]?) :
    skipSeparators p root size = skipSeparators q root size := by
  induction size with
  | zero => rfl
  | succ size ih =>
    rw [skipSeparators, skipSeparators, same size (Nat.lt_succ_self _),
      ih fun i below => same i (Nat.lt_succ_of_lt below)]

theorem skipSeparators_le (p : Path) (root : Option Nat) (size : Nat) :
    skipSeparators p root size ≤ size := by
  induction size with
  | zero => exact Nat.le_refl _
  | succ size ih =>
    rw [skipSeparators]
    split_ifs
    · exact Nat.le_succ_of_le ih
    · exact Nat.le_refl _

/-- A character that is no separator stops the skipping. -/
theorem lt_skipSeparators {p : Path} (root : Option Nat) {k size : Nat} (below : k < size)
    (other : p[k]? ≠ some '/') : k < skipSeparators p root size := by
  induction size with
  | zero => omega
  | succ size ih =>
    rw [skipSeparators]
    split_ifs with skipped
    · apply ih
      have : k ≠ size := fun same => other (same ▸ skipped.2)
      omega
    · exact below

/-! ### The parent path -/

/-- The parent of a name after `base` and a separator, in a path with the given root. -/
def parentOf (root : Option Nat) (base : Path) : Path :=
  (base ++ ['/']).take (skipSeparators (base ++ ['/']) root (base.length + 1))

/-- The base, with a separator after it, is below the directory. -/
theorem base_below {d base : Path} (below : Under d (base ++ ['/'])) (u : Path) :
    ∃ rest, base ++ '/' :: u = d ++ '/' :: rest := by
  obtain ⟨rest, form⟩ := under_iff.mp below
  refine ⟨rest ++ u, ?_⟩
  rw [← List.cons_append, ← List.append_assoc, ← form]
  simp

theorem length_le_of_below {d base : Path} (below : Under d (base ++ ['/'])) :
    d.length ≤ base.length := by
  obtain ⟨rest, form⟩ := under_iff.mp below
  have := congrArg List.length form
  simp only [List.length_append, List.length_cons, List.length_nil] at this
  omega

/-- **The parent of a name** does not depend on the name. -/
theorem parentPath_name {d : Path} (dir : IsDir d) {root : Option Nat}
    (rooted : ∀ rest size, d.length < size → rootDirectoryStart (d ++ '/' :: rest) size = root)
    {base u : Path} (below : Under d (base ++ ['/'])) (nonempty : u ≠ []) (single : '/' ∉ u) :
    parentPath (base ++ '/' :: u) = parentOf root base := by
  have length := length_le_of_below below
  obtain ⟨rest, form⟩ := base_below below u
  have parts : base ++ '/' :: u = (base ++ ['/']) ++ u := by simp
  have last : (base ++ '/' :: u).getLast? ≠ some '/' := by
    rw [parts, List.getLast?_append_of_ne_nil _ nonempty]
    exact getLast?_ne_of_notMem single
  have size : filenamePos (base ++ '/' :: u) = base.length + 1 := by
    rw [filenamePos, if_neg last, form, isNetworkName_below dir, if_neg Bool.false_ne_true, ← form,
      afterLast_append base single, List.length_append, List.length_cons]
    omega
  have rootEnd : rootDirectoryStart (base ++ '/' :: u) (base.length + 1) = root := by
    rw [form]
    exact rooted rest _ (by omega)
  have atName : (base ++ '/' :: u)[base.length + 1]? ≠ some '/' := by
    have first := head?_ne_of_notMem single
    rw [List.getElem?_append_right (by omega),
      show base.length + 1 - base.length = 1 by omega, List.getElem?_cons_succ]
    rwa [List.head?_eq_getElem?] at first
  have whole : (base ++ ['/']).length = base.length + 1 := by simp
  have stop : skipSeparators (base ++ '/' :: u) root (base.length + 1) =
      skipSeparators (base ++ ['/']) root (base.length + 1) := by
    apply skipSeparators_congr
    intro i below
    rw [parts, List.getElem?_append_left (by omega)]
  unfold parentPath
  rw [size]
  dsimp only
  rw [rootEnd, if_neg fun all => atName all.2.2, stop, parts, List.take_append_of_le_length, parentOf]
  rw [whole]
  exact skipSeparators_le _ _ _

/-- **The parent of a path that ends in a separator** is the parent of a name after it. -/
theorem parentPath_trailing {d : Path} (dir : IsDir d) {root : Option Nat}
    (rooted : ∀ rest size, d.length < size → rootDirectoryStart (d ++ '/' :: rest) size = root)
    (within : ∀ k, root = some k → k ≤ d.length) (relative : d.length = 1 → root = none)
    {base : Path} (below : Under d (base ++ ['/'])) (longer : d.length < base.length) :
    parentPath (base ++ ['/']) = parentOf root base := by
  obtain ⟨rest, form⟩ := base_below below []
  have size : filenamePos (base ++ ['/']) = base.length := by
    rw [filenamePos, if_pos (by simp), if_neg]
    · simp
    · rw [form]
      exact below_ne_root dir rest
  have rootEnd : rootDirectoryStart (base ++ ['/']) base.length = root := by
    rw [form]
    exact rooted rest _ longer
  have separator : (base ++ ['/'])[base.length]? = some '/' := by simp
  have notRoot : some base.length ≠ root := by
    intro same
    have := within _ same.symm
    omega
  have stop : skipSeparators (base ++ ['/']) root (base.length + 1) =
      skipSeparators (base ++ ['/']) root base.length := by
    rw [skipSeparators, if_pos ⟨notRoot, separator⟩]
  -- The last character of the directory is no separator, so the parent is not empty.
  have kept : d.length - 1 < skipSeparators (base ++ ['/']) root base.length := by
    apply lt_skipSeparators _ (by omega)
    have last := dir.getLast?_ne
    have pos := List.length_pos_iff.mpr dir.ne_nil
    rwa [form, List.getElem?_append_left (by omega), ← List.getLast?_eq_getElem?]
  unfold parentPath
  rw [size]
  dsimp only
  rw [rootEnd, if_neg, parentOf, stop]
  rintro ⟨one, zero, -⟩
  rw [relative (by have := List.length_pos_iff.mpr dir.ne_nil; omega)] at zero
  cases zero

/-! ### Putting a number before the extension -/

/-- The parts of a path below a directory: what is before its last separator, and the name without
its extension. Putting a number before the extension keeps them. -/
structure NameParts (d p base stem : Path) : Prop where
  parts : p = base ++ '/' :: (stem ++ extension p)
  below : Under d (base ++ ['/'])
  single : '/' ∉ stem
  isExtension : IsExtension (extension p)
  numbered : ∀ k, replaceExtension p (numberSuffix k ++ extension p) =
    base ++ '/' :: (stem ++ (numberSuffix k ++ extension p))

theorem exists_nameParts {d : Path} (dir : IsDir d) (rest : Path) :
    ∃ base stem, NameParts d (d ++ '/' :: rest) base stem ∧
      (d.length < base.length ∨ rest = stem ++ extension (d ++ '/' :: rest)) := by
  obtain ⟨front, form, isExtension, numbered⟩ := replaceExtension_number dir rest
  by_cases present : '/' ∈ front
  · obtain ⟨lead, parts⟩ := exists_eq_afterLast present
    refine ⟨d ++ '/' :: lead, afterLast '/' front, ⟨?_, ?_, not_mem_afterLast _ _, isExtension,
      fun k => ?_⟩, Or.inl ?_⟩
    · generalize extension (d ++ '/' :: rest) = ext at form
      rw [form]
      conv_lhs => rw [parts]
      simp
    · exact under_iff.mpr ⟨lead ++ ['/'], by simp⟩
    · rw [numbered]
      conv_lhs => rw [parts]
      simp
    · rw [List.length_append, List.length_cons]
      omega
  · refine ⟨d, front, ⟨?_, List.prefix_refl _, present, isExtension, numbered⟩, Or.inr form⟩
    rw [← form]

section Numbered

variable {d p base stem : Path}

theorem NameParts.single_numbered (named : NameParts d p base stem) (k : Nat) :
    '/' ∉ stem ++ (numberSuffix k ++ extension p) := by
  intro member
  rcases List.mem_append.mp member with member | member
  · exact named.single member
  rcases List.mem_append.mp member with member | member
  · exact not_mem_numberSuffix (by decide) (by decide) member
  · exact named.isExtension.notMem member

theorem stem_numbered_ne (stem ext : Path) (k : Nat) : stem ++ (numberSuffix k ++ ext) ≠ [] :=
  List.append_ne_nil_of_right_ne_nil _ (List.append_ne_nil_of_left_ne_nil (List.cons_ne_nil _ _) _)

/-- The last name of a path below a directory. -/
theorem filename_last (dir : IsDir d) (below : Under d (base ++ ['/'])) {u : Path}
    (nonempty : u ≠ []) (single : '/' ∉ u) : filename (base ++ '/' :: u) = u := by
  obtain ⟨rest, form⟩ := base_below below u
  have parts : base ++ '/' :: u = (base ++ ['/']) ++ u := by simp
  have last : (base ++ '/' :: u).getLast? ≠ some '/' := by
    rw [parts, List.getLast?_append_of_ne_nil _ nonempty]
    exact getLast?_ne_of_notMem single
  have noNetwork : isNetworkName (base ++ '/' :: u) = false := by
    rw [form]
    exact isNetworkName_below dir rest
  rw [filename, if_neg last, noNetwork, if_neg Bool.false_ne_true, afterLast_append base single]

/-- A name with a number in it has an extension: the one after the number, or else the number. -/
theorem splitExtension_numbered (stem : Path) {ext : Path} (isExtension : IsExtension ext) (k : Nat) :
    (splitExtension (stem ++ (numberSuffix k ++ ext))).2 = if ext = [] then numberSuffix k else ext := by
  have dot : '.' ∈ stem ++ (numberSuffix k ++ ext) :=
    List.mem_append_right _ (List.mem_append_left _ List.mem_cons_self)
  obtain ⟨digit, digits, number⟩ : ∃ digit digits, decimal k = digit :: digits :=
    List.exists_cons_of_ne_nil Nat.toDigits_ne_nil
  have digitMember : digit ∈ stem ++ (numberSuffix k ++ ext) := by
    refine List.mem_append_right _ (List.mem_append_left _ (List.mem_cons_of_mem _ ?_))
    rw [number]
    exact List.mem_cons_self
  have notDot : digit ≠ '.' := by
    rintro rfl
    have := not_mem_decimal (n := k) (c := '.') (by decide)
    rw [number] at this
    exact this List.mem_cons_self
  have plain : ¬ (stem ++ (numberSuffix k ++ ext) = ['.'] ∨
      stem ++ (numberSuffix k ++ ext) = ['.', '.'] ∨ '.' ∉ stem ++ (numberSuffix k ++ ext)) := by
    rintro (same | same | absent)
    · rw [same, List.mem_singleton] at digitMember
      exact notDot digitMember
    · rw [same] at digitMember
      simp only [List.mem_cons, List.not_mem_nil, or_false, or_self] at digitMember
      exact notDot digitMember
    · exact absent dot
  rw [splitExtension, if_neg plain]
  rcases isExtension with rfl | ⟨word, rfl, noDot, -⟩
  · rw [if_pos rfl, List.append_nil, numberSuffix, afterLast_append _ (not_mem_decimal (by decide))]
  · have parts : stem ++ (numberSuffix k ++ '.' :: word) =
        (stem ++ numberSuffix k) ++ '.' :: word := by simp
    rw [if_neg (List.cons_ne_nil _ _), parts, afterLast_append _ noDot]

/-- **The extension after a number was put before it** is the old one, if there was one. -/
theorem NameParts.extension_numbered (dir : IsDir d) (named : NameParts d p base stem) (k : Nat) :
    extension (replaceExtension p (numberSuffix k ++ extension p)) =
      if extension p = [] then numberSuffix k else extension p := by
  rw [named.numbered k]
  conv_lhs => rw [extension]
  rw [filename_last dir named.below (stem_numbered_ne _ _ k) (named.single_numbered k)]
  exact splitExtension_numbered stem named.isExtension k

/-- **Putting a number before the extension keeps the parent.** -/
theorem parentPath_numbered (dir : IsDir d) {rest : Path} (nonempty : rest ≠ []) (k : Nat) :
    parentPath (replaceExtension (d ++ '/' :: rest)
      (numberSuffix k ++ extension (d ++ '/' :: rest))) = parentPath (d ++ '/' :: rest) := by
  obtain ⟨root, rooted, within, relative⟩ := rootDirectoryStart_below dir
  obtain ⟨base, stem, named, longer⟩ := exists_nameParts dir rest
  rw [named.numbered k, parentPath_name dir rooted named.below (stem_numbered_ne _ _ k)
    (named.single_numbered k)]
  by_cases absent : stem ++ extension (d ++ '/' :: rest) = []
  · have trailing := named.parts
    rw [absent] at trailing
    rw [trailing]
    refine (parentPath_trailing dir rooted within relative named.below ?_).symm
    refine longer.resolve_right fun same => nonempty ?_
    rw [same, absent]
  · have single : '/' ∉ stem ++ extension (d ++ '/' :: rest) := by
      rw [List.mem_append]
      rintro (member | member)
      · exact named.single member
      · exact named.isExtension.notMem member
    have parts := named.parts
    generalize stem ++ extension (d ++ '/' :: rest) = u at parts absent single
    rw [parts]
    exact (parentPath_name dir rooted named.below absent single).symm

end Numbered

/-! ### Other paths -/

/-- The names of a path that ends in a separator end in `.`. -/
theorem getLast?_names_trailing (front : List Path) (lead : Path) {q : Path} (nonempty : q ≠ [])
    (trailing : (lead ++ q).getLast? = some '/') :
    (front ++ names q).getLast? = some ['.'] := by
  rw [List.getLast?_append_of_ne_nil _ nonempty] at trailing
  rw [names, if_pos trailing, ← List.append_assoc, List.getLast?_concat]

/-- The last element of a path that ends in a separator is `.` or a root. -/
theorem afterLast_of_trailing {p name : Path} (trailing : p.getLast? = some '/')
    (found : (elements p).getLast? = some name) :
    afterLast '/' name = [] ∨ afterLast '/' name = ['.'] := by
  unfold elements at found
  split at found
  · cases trailing
  · rename_i rest
    dsimp only at found
    split_ifs at found with more all absent allTail
    · cases found
      exact Or.inl rfl
    · have nonempty : rest ≠ [] := by
        rintro rfl
        cases more
      rw [← List.singleton_append,
        @getLast?_names_trailing [['/']] ['/', '/'] rest nonempty trailing] at found
      cases found
      exact Or.inr rfl
    · have single : '/' ∉ rest := by
        intro member
        have kept := List.dropWhile_eq_nil_iff.mp absent '/' member
        exact of_decide_eq_true kept rfl
      have empty : rest = [] := by
        by_contra nonempty
        have last := List.getLast?_append_of_ne_nil ['/', '/'] nonempty
        exact getLast?_ne_of_notMem single (last.symm.trans trailing)
      rw [empty] at found
      cases found
      exact Or.inl rfl
    · cases found
      exact Or.inl rfl
    · have whole : '/' :: '/' :: rest =
          ('/' :: '/' :: rest.takeWhile (fun c => decide (c ≠ '/'))) ++
            rest.dropWhile (fun c => decide (c ≠ '/')) := by
        simp [List.takeWhile_append_dropWhile]
      rw [whole] at trailing
      have last := getLast?_names_trailing
        ['/' :: '/' :: rest.takeWhile (fun c => decide (c ≠ '/')), ['/']] _ absent trailing
      rw [show ∀ a b : Path, a :: b :: names (rest.dropWhile fun c => decide (c ≠ '/')) =
        [a, b] ++ names (rest.dropWhile fun c => decide (c ≠ '/')) from fun _ _ => rfl, last] at found
      cases found
      exact Or.inr rfl
  · rename_i rest _
    split_ifs at found with absent
    · cases found
      exact Or.inl rfl
    · rw [← List.singleton_append,
        @getLast?_names_trailing [['/']] ['/'] rest absent trailing] at found
      cases found
      exact Or.inr rfl
  · rename_i nonempty _ _
    rw [← List.nil_append (names p), @getLast?_names_trailing [] [] p nonempty trailing] at found
    cases found
    exact Or.inr rfl

/-- **Putting a number before the extension makes another path.** -/
theorem elements_numbered_ne {d : Path} (dir : IsDir d) (rest : Path) (k : Nat) :
    elements (replaceExtension (d ++ '/' :: rest)
      (numberSuffix k ++ extension (d ++ '/' :: rest))) ≠ elements (d ++ '/' :: rest) := by
  obtain ⟨base, stem, named, -⟩ := exists_nameParts dir rest
  generalize d ++ '/' :: rest = p at named
  rw [named.numbered k]
  intro same
  have single := named.single_numbered k
  have nonempty := stem_numbered_ne stem (extension p) k
  have parts : ∀ u, base ++ '/' :: u = (base ++ ['/']) ++ u := fun u => by simp
  have notEmpty : ∀ u, base ++ '/' :: u ≠ [] := fun u =>
    List.append_ne_nil_of_right_ne_nil _ (List.cons_ne_nil _ _)
  have last : (base ++ '/' :: (stem ++ (numberSuffix k ++ extension p))).getLast? ≠ some '/' := by
    rw [parts, List.getLast?_append_of_ne_nil _ nonempty]
    exact getLast?_ne_of_notMem single
  by_cases trailing : p.getLast? = some '/'
  · obtain ⟨name, found, ends⟩ := getLast?_elements (notEmpty _) last
    rw [same] at found
    rw [afterLast_append base single] at ends
    have digits : 0 < (decimal k).length := Nat.length_toDigits_pos
    have short : 2 ≤ (afterLast '/' name).length := by
      rw [ends, List.length_append, List.length_append, numberSuffix, List.length_cons]
      omega
    rcases afterLast_of_trailing trailing found with absent | dot
    · rw [absent] at short
      exact absurd short (by decide)
    · rw [dot] at short
      exact absurd short (by decide)
  · have whole := named.parts
    have single' : '/' ∉ stem ++ extension p := fun member =>
      (List.mem_append.mp member).elim named.single named.isExtension.notMem
    have ends := afterLast_eq_of_elements (notEmpty _) last
      (fun empty => notEmpty _ (whole.symm.trans empty)) trailing same
    generalize extension p = ext at whole ends single single'
    rw [afterLast_append base single, whole, afterLast_append base single'] at ends
    have lengths := congrArg List.length ends
    simp only [List.length_append, numberSuffix, List.length_cons] at lengths
    omega

end Xcalbuild.Library.Path
