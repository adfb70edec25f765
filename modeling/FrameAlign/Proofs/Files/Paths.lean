import FrameAlign.Files.Path
import Mathlib.Data.List.Infix

/-!
# Parts of paths

A path is told by its parts. The statements here give the parts of a path that was joined from two
and of one that lost its last part.
-/

namespace FrameAlign.FilePath

/-- The parts of a path are what its slashes split it into. With this the library's facts on
splitting apply to paths. -/
theorem parts_eq_splitOn (path : List Char) : parts path = path.splitOn '/' := by
  induction path with
  | nil => rfl
  | cons c rest ih =>
    rw [parts, List.splitOn_cons_eq_if_modifyHead, ← ih]
    by_cases hc : c = '/'
    · simp [hc]
    · obtain ⟨first, others, hparts⟩ := List.exists_cons_of_ne_nil (parts_ne_nil rest)
      simp [hc, hparts]

/-- A slash sets the parts before it off from those behind it, which is how a joined path is taken
apart. -/
theorem parts_append_slash (front rest : List Char) :
    parts (front ++ '/' :: rest) = parts front ++ parts rest := by
  simp only [parts_eq_splitOn, List.splitOn_append_cons_self]

/-- A path without slashes is its only part. The names in an archive are such paths. -/
theorem parts_eq_singleton {path : List Char} (h : '/' ∉ path) : parts path = [path] := by
  rw [parts_eq_splitOn, List.splitOn_eq_singleton h]

/-- Only an absolute path has nothing before its first slash, so a path without empty parts is
relative. -/
theorem isAbsolute_eq_false {path : List Char} (h : [] ∉ parts path) : isAbsolute path = false := by
  rw [isAbsolute, decide_eq_false_iff_not]
  intro hhead
  obtain ⟨rest, rfl⟩ := List.head?_eq_some_iff.mp hhead
  exact h (by simp [parts])

/-- A path that is made from parts has these parts. A part with a slash in it would come back as
two, and no parts at all would come back as an empty one. -/
theorem parts_ofParts {ps : List (List Char)} (hne : ps ≠ []) (h : ∀ part ∈ ps, '/' ∉ part) :
    parts (ofParts ps) = ps := by
  rw [parts_eq_splitOn, ofParts, List.splitOn_intercalate _ h hne]

/-- A joined path has the parts of the second behind those of the first, of which an empty one at
the end is left out. It is there when the first is empty or ends in a slash. -/
theorem exists_parts_join (dir : List Char) {path : List Char} (h : isAbsolute path = false) :
    ∃ above, (parts dir = above ∨ parts dir = above ++ [[]]) ∧
      parts (join dir path) = above ++ parts path := by
  by_cases hempty : dir = []
  · exact ⟨[], Or.inr (by rw [hempty]; rfl), by simp [join, h, hempty]⟩
  by_cases hslash : dir.getLast? = some '/'
  · obtain ⟨front, rfl⟩ := List.getLast?_eq_some_iff.mp hslash
    refine ⟨parts front, Or.inr ?_, ?_⟩
    · rw [parts_append_slash]
      rfl
    · rw [join, h, if_neg (by simp), if_pos hslash, List.append_assoc, List.singleton_append,
        parts_append_slash]
  · refine ⟨parts dir, Or.inl rfl, ?_⟩
    rw [join, h, if_neg (by simpa using hempty), if_neg hslash, parts_append_slash]

/-- What is trimmed stood at the end of the path, so the parts that are left are the first ones. -/
theorem trimEnd_suffix (ps : List (List Char)) : trimEnd ps <:+ ps := by
  fun_induction trimEnd ps with
  | case1 last before rest h ih => exact ih.trans (List.suffix_cons _ _)
  | case2 => exact List.suffix_rfl
  | case3 => exact List.suffix_rfl

/-- Above a path whose last part leads somewhere there is nothing, the root, or a path of the first
parts. A last part that leads nowhere would be trimmed, and then the parent would lie one step
higher. -/
theorem parts_prefix_of_parent {path parent last : List Char} {above : List (List Char)}
    (hparts : parts path = above ++ [last]) (hlast : last ≠ [] ∧ last ≠ ['.'])
    (h : parent? path = some parent) :
    parent = [] ∨ isAbsolute parent = true ∨ parts parent <+: above := by
  have htrim : trimEnd (last :: above.reverse) = last :: above.reverse := by
    cases above.reverse with
    | nil => rfl
    | cons before rest => simp [trimEnd, hlast]
  rw [parent?, hparts, List.reverse_append, List.reverse_singleton, List.singleton_append,
    htrim] at h
  have hbegins : (trimEnd above.reverse).reverse <+: above := by
    simpa using List.reverse_prefix.mpr (trimEnd_suffix above.reverse)
  split at h
  · cases h
  · cases h
  · next first rest _ heq =>
    obtain ⟨-, rfl⟩ := List.cons.inj heq
    split at h
    · cases h
      exact Or.inr (Or.inl rfl)
    · cases h
      by_cases hnil : trimEnd above.reverse = []
      · exact Or.inl (by rw [hnil]; rfl)
      · refine Or.inr (Or.inr ?_)
        rw [parts_ofParts (by simpa using hnil)]
        · exact hbegins
        · intro part hpart
          have hmem : part ∈ parts path := by
            rw [hparts]
            exact List.mem_append_left _ (hbegins.subset hpart)
          exact slash_not_mem_of_mem_parts hmem

end FrameAlign.FilePath
