import FrameAlign.Files.Tree
import FrameAlign.Proofs.Files.Paths

/-!
# Changes to trees of files

A change to a tree puts nodes at places and leaves all other places alone. Directories are made
where nothing stands, along the way of their path, and a file is written where its path leads.
-/

namespace FrameAlign.FileTree

/-- Looking up another key passes over what is left out for a key. A node is put at a place in this
way, with the old one left out. -/
theorem lookup_filter_ne {nodes : List (Place × FileNode)} {place q : Place} (h : q ≠ place) :
    (nodes.filter (·.1 ≠ place)).lookup q = nodes.lookup q := by
  induction nodes with
  | nil => rfl
  | cons node rest ih =>
    by_cases hnode : node.1 = place
    · have hq : (q == node.1) = false := by simpa [hnode] using h
      rw [List.filter_cons_of_neg (by simpa using hnode), ih, List.lookup_cons, hq]
    · rw [List.filter_cons_of_pos (by simpa using hnode), List.lookup_cons, List.lookup_cons, ih]

/-- A node that is put at a place changes no other place. All that a change leaves alone is known by
this. -/
theorem at?_put_of_ne (t : FileTree) {place q : Place} (node : FileNode) (h : q ≠ place) :
    (t.put place node).at? q = t.at? q := by
  have hq : (q == place) = false := by simpa using h
  rw [at?, at?, put, List.lookup_cons, hq]
  simp only [lookup_filter_ne h]

/-- What is put at a place where nothing stands is found there. The condition keeps the top out,
where there is always a directory. -/
theorem at?_put_self {t : FileTree} {place : Place} (node : FileNode) (h : t.at? place = none) :
    (t.put place node).at? place = some node := by
  rw [at?] at h
  split at h
  · cases h
  · next hplace => rw [at?, if_neg hplace, put, List.lookup_cons_self]

/-- Where a path leads through nothing but directories. It depends on the path alone, so it can be
said before the tree is known. -/
def target (path : List Char) : Place := (FilePath.parts path).foldl step []

/-- A path that can be followed leads to its target: the tree decides only whether the next step can
be taken. -/
theorem foldlM_step_eq {t : FileTree} {ps : List (List Char)} {start place : Place}
    (h : ps.foldlM (fun place part => if t.isDirectory place then some (step place part) else none)
      start = some place) : place = ps.foldl step start := by
  induction ps generalizing start with
  | nil => simpa using h.symm
  | cons part ps ih =>
    rw [List.foldlM_cons] at h
    obtain ⟨next, hnext, hrest⟩ := Option.bind_eq_some_iff.mp h
    split at hnext
    · cases hnext
      exact ih hrest
    · cases hnext

/-- The place that a path leads to in a tree, if it leads anywhere, is the target of the path. -/
theorem place?_eq_target {t : FileTree} {path : String} {place : Place}
    (h : t.place? path = some place) : place = target path.toList := by
  obtain ⟨ps, hps, hplace⟩ := Option.bind_eq_some_iff.mp h
  rw [partsOf?] at hps
  split at hps
  · cases hps
  · cases hps
    exact foldlM_step_eq hplace

/-- A file is written where its path leads, and nowhere else. What stands at its place afterwards
does not matter for confinement. -/
theorem at?_write {t t' : FileTree} {path : String} {data : ByteArray}
    (h : t.write? path data = some t') (q : Place) :
    t'.at? q = t.at? q ∨ q = target path.toList := by
  obtain ⟨ps, -, h⟩ := Option.bind_eq_some_iff.mp h
  obtain ⟨last, -, h⟩ := Option.bind_eq_some_iff.mp h
  obtain ⟨place, hplace, h⟩ := Option.bind_eq_some_iff.mp h
  split at h
  · cases h
  · cases h
    by_cases hq : q = place
    · exact Or.inr (hq.trans (place?_eq_target hplace))
    · exact Or.inl (at?_put_of_ne _ _ hq)

/-- Directories are made along their way, where nothing stands. What stood on the way already is
passed through, so nothing is overwritten. -/
theorem at?_makeDirectoriesFrom {t t' : FileTree} {start : Place} {ps : List (List Char)}
    (h : t.makeDirectoriesFrom? start ps = some t') (q : Place) :
    t'.at? q = t.at? q ∨ (t.at? q = none ∧ t'.at? q = some .directory ∧
      ∃ way, way <+: ps ∧ q = way.foldl step start) := by
  induction ps generalizing t start with
  | nil =>
    cases h
    exact Or.inl rfl
  | cons part ps ih =>
    -- Behind the first part the way goes on from where this part leads.
    have hlonger {way : List (List Char)} (hway : way <+: ps) :
        ∃ longer, longer <+: part :: ps ∧
          way.foldl step (step start part) = longer.foldl step start :=
      ⟨part :: way, List.cons_prefix_cons.mpr ⟨rfl, hway⟩, rfl⟩
    rw [makeDirectoriesFrom?] at h
    cases hnext : t.at? (step start part) with
    | none =>
      simp only [hnext, Option.ite_none_right_eq_some] at h
      by_cases hq : q = step start part
      · subst hq
        have hput := at?_put_self .directory hnext
        have hfirst : [part] <+: part :: ps := List.cons_prefix_cons.mpr ⟨rfl, List.nil_prefix⟩
        rcases ih h.2 with hsame | ⟨hnone, -⟩
        · exact Or.inr ⟨hnext, hsame.trans hput, [part], hfirst, rfl⟩
        · rw [hput] at hnone
          cases hnone
      · have hput := at?_put_of_ne t .directory hq
        rcases ih h.2 with hsame | ⟨hnone, hmade, way, hway, rfl⟩
        · exact Or.inl (hsame.trans hput)
        · exact Or.inr ⟨hput.symm.trans hnone, hmade, hlonger hway⟩
    | some node =>
      cases node with
      | directory =>
        simp only [hnext] at h
        rcases ih h with hsame | ⟨hnone, hmade, way, hway, rfl⟩
        · exact Or.inl hsame
        · exact Or.inr ⟨hnone, hmade, hlonger hway⟩
      | file data =>
        simp only [hnext] at h
        cases h

end FrameAlign.FileTree
