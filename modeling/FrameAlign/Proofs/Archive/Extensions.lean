import FrameAlign.Proofs.Archive.Layout
import Mathlib

/-!
# Extensions in an archive

Every file that has a base name has a recognized extension in the archive, with or without a number
in its path. A file without a base name has one as long as its path needs no number.
-/

namespace FrameAlign

open FileName (HasExtension)

/-- The path ends in one of the extensions, whatever the case of its letters is. Extensions are
recognized in this way, so a file keeps the spelling it came with. -/
def EndsIn (recognized : List String) (path : String) : Prop :=
  ∃ ext ∈ recognized, ext.toList <:+ path.toList.map Char.toLower

/-- The extensions are finitely many, so a counterexample can be computed. -/
instance (recognized : List String) (path : String) : Decidable (EndsIn recognized path) :=
  inferInstanceAs (Decidable (∃ ext ∈ recognized, _))

/-- A path ends in the extension of its last part, no matter what goes before it. -/
theorem endsIn_append {recognized : List String} {ext : List Char} (front : List Char)
    (h : String.ofList (ext.map Char.toLower) ∈ recognized) :
    EndsIn recognized (String.ofList (front ++ ext)) := by
  refine ⟨_, h, ?_⟩
  rw [String.toList_ofList, String.toList_ofList, List.map_append]
  exact List.suffix_append _ _

namespace Shelf

variable {s : Shelf} {f : TraceFile} {name stem ext : List Char}

/-- A path that ends in a parenthesis ends in no extension, since an extension holds none. The
number of a path ends in one. -/
theorem Sound.not_endsIn (hs : s.Sound) (front : List Char) :
    ¬EndsIn s.recognized (String.ofList (front ++ [')'])) := by
  rintro ⟨ext, hmem, hsuffix⟩
  obtain ⟨rest, heq, hne, -, -, hparen⟩ := (hs.extension _ hmem).exists_eq
  obtain hnil | ⟨init, c, rfl⟩ := List.eq_nil_or_concat rest
  · exact hne hnil
  · obtain ⟨before, hbefore⟩ := hsuffix
    have hlast : c = ')' := by simpa [heq] using congrArg (·.reverse.head?) hbefore
    simp [hlast] at hparen

/-- The name of a file ends in a recognized extension. Without a number this is all that the path
needs. -/
theorem Names.endsIn (h : s.Names f name) (hs : s.Sound) (front : List Char) :
    EndsIn s.recognized (String.ofList (front ++ name)) := by
  by_cases hbase : f.baseName = []
  · have hfallback := hs.extension _ hs.fallback_mem
    rw [h.eq_fallback hbase]
    apply endsIn_append
    rw [hfallback.lower, String.ofList_toList]
    exact hs.fallback_mem
  · obtain ⟨stem, rest, -, -, rfl, hmem⟩ := h.hasExtension hs hbase
    rw [← List.append_assoc]
    exact endsIn_append _ hmem

/-- Where a number goes before an extension, that is the recognized one, so the path keeps it behind
the number. -/
theorem Cuts.lower_mem (hcuts : Cuts f name stem ext) (h : s.Names f name) (hs : s.Sound)
    (hbase : f.baseName ≠ []) : String.ofList (ext.map Char.toLower) ∈ s.recognized := by
  obtain ⟨hstem, rest, rfl, hrest⟩ := hcuts.of_base hbase
  obtain ⟨stem', rest', hstem', hrest', heq, hmem⟩ := h.hasExtension hs hbase
  -- A name is cut at its last dot in one way only.
  have hsplit := FileName.split_append_dot hstem hrest
  rw [← hcuts.append_eq, heq, FileName.split_append_dot hstem' hrest', Prod.mk.injEq] at hsplit
  rwa [← hsplit.2]

/-- A placed file has a recognized extension unless it has no base name and its path a number. In
that case the fallback is all of the name, and the number goes behind it. -/
theorem Places.endsIn_iff {earlier : List String} {e : ArchiveEntry} (h : s.Places f earlier e)
    (hs : s.Sound) :
    EndsIn s.recognized e.path ↔ f.baseName ≠ [] ∨ e.path = String.ofList (s.path f) := by
  obtain ⟨name, stem, ext, hname, hcuts, hpath⟩ := h.path_cases
  constructor
  · intro hends
    by_contra hno
    rw [not_or, not_not] at hno
    obtain ⟨hbare, hnumber⟩ := hno
    rcases hpath with hpath | ⟨-, n, -, -, hpath, -⟩
    · rw [hname.eq_name] at hpath
      exact hnumber hpath
    · rw [hpath, numbered, hcuts.of_bare hbare] at hends
      exact hs.not_endsIn _ hends
  · rintro (hbase | hwanted)
    · rcases hpath with hpath | ⟨-, n, -, -, hpath, -⟩
      · rw [hpath]
        exact hname.endsIn hs _
      · rw [hpath, numbered, ← List.singleton_append, ← List.append_assoc]
        exact endsIn_append _ (hcuts.lower_mem hname hs hbase)
    · rw [hwanted]
      exact (names_name s f).endsIn hs _

end Shelf

namespace Registry

/-- **Extensions after every history.** Every file in the archive of a registry has an extension
that is recognized on its shelf, unless it has no base name and its path a number. The condition is
exact, for every file of every archive. -/
theorem run_archive_endsIn (policy : MergePolicy) (calls : List Call) :
    List.Forall₂
      (fun file e => EndsIn file.1.recognized e.path ↔
        file.2.baseName ≠ [] ∨ e.path = String.ofList (file.1.path file.2))
      ((withPolicy policy).run calls).shelved ((withPolicy policy).run calls).archive.entries := by
  have hplaced := (laidOut_archive ((withPolicy policy).run calls)).forall₂
  refine ((List.forall₂_and_left _ _).mpr ⟨fun _ => sound_of_mem_shelved, hplaced⟩).imp ?_
  rintro file e ⟨hs, before, hplace⟩
  exact hplace.endsIn_iff hs

/-- The number in the path of a file without a base name stands in place of an extension. Two such
files in one directory are enough. -/
theorem not_forall_endsIn :
    ¬∀ (policy : MergePolicy) (calls : List Call),
      List.Forall₂ (fun file e => EndsIn file.1.recognized e.path)
        ((withPolicy policy).run calls).shelved
        ((withPolicy policy).run calls).archive.entries := by
  intro h
  have hrecognized : nameless.shelved.map (·.1.recognized) =
      [[".winscope", ".pb", ".json"], [".winscope", ".pb", ".json"]] := by cbv
  have hpaths : nameless.archive.entries.map (·.path) = ["wm/.winscope", "wm/.winscope (1)"] := by
    cbv
  have hends : List.Forall₂ EndsIn (nameless.shelved.map (·.1.recognized))
      (nameless.archive.entries.map (·.path)) := by
    rw [List.forall₂_map_left_iff, List.forall₂_map_right_iff]
    exact h _ _
  rw [hrecognized, hpaths] at hends
  cases hends with
  | cons _ hrest =>
    cases hrest with
    | cons hsecond _ => exact absurd hsecond (by decide)

end Registry

end FrameAlign
