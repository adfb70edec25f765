import FrameAlign.Proofs.Archive.Shelves
import FrameAlign.Proofs.Registry.Consistency
import Mathlib

/-!
# The layout of an archive

The archive of a registry holds the session file, if there is one, and then the files of single
categories in order. Each file is placed behind those before it, so no file is lost and no two have
one path.
-/

namespace FrameAlign

open Archive (push ofFiles)

/-- Entries that stand for files in order, each placed on its shelf behind the paths `earlier` and
those of the entries before it. -/
inductive LaidOut : List String → List (Shelf × TraceFile) → List ArchiveEntry → Prop
  /-- No files make no entries. -/
  | nil (earlier : List String) : LaidOut earlier [] []
  /-- The path of the first entry counts as taken for the others. -/
  | cons {earlier : List String} {s : Shelf} {f : TraceFile} {e : ArchiveEntry}
      {files : List (Shelf × TraceFile)} {entries : List ArchiveEntry}
      (place : s.Places f earlier e) (rest : LaidOut (earlier ++ [e.path]) files entries) :
      LaidOut earlier ((s, f) :: files) (e :: entries)

namespace LaidOut

variable {earlier : List String} {files : List (Shelf × TraceFile)} {entries : List ArchiveEntry}

/-- Every file has one entry, in order. No file is lost and none comes twice. -/
theorem forall₂ (h : LaidOut earlier files entries) :
    List.Forall₂ (fun file e => ∃ before, file.1.Places file.2 before e) files entries := by
  induction h with
  | nil => exact .nil
  | cons place _ ih => exact .cons ⟨_, place⟩ ih

/-- Every entry stands for one of the files, so what holds of every placed file holds of every
entry. -/
theorem exists_places (h : LaidOut earlier files entries) {e : ArchiveEntry} (he : e ∈ entries) :
    ∃ file ∈ files, ∃ before, file.1.Places file.2 before e := by
  induction h with
  | nil => cases he
  | cons place _ ih =>
    rcases List.mem_cons.mp he with rfl | he
    · exact ⟨_, List.mem_cons_self, _, place⟩
    · obtain ⟨file, hfile, hplaces⟩ := ih he
      exact ⟨file, List.mem_cons_of_mem _ hfile, hplaces⟩

/-- No path is used twice. The paths that were taken before are part of the statement, since an
entry is placed against them and against those of the entries before it. -/
theorem nodup (h : LaidOut earlier files entries) (hearlier : earlier.Nodup) :
    (earlier ++ entries.map (·.path)).Nodup := by
  induction h with
  | nil => simpa using hearlier
  | cons place _ ih =>
    have hnext := List.nodup_append.mpr ⟨hearlier, List.nodup_singleton _, by
      rintro p hp q hq rfl
      rw [List.mem_singleton.mp hq] at hp
      exact place.path_not_mem hp⟩
    simpa using ih hnext

end LaidOut

namespace Archive

/-- The archive with a file more on its shelf. One step of building an archive, for session files
and single files alike. -/
def shelve (a : Archive) (file : Shelf × TraceFile) : Archive :=
  a.push (file.1.path file.2) file.2.data

/-- Files that come to sound shelves one after the other are laid out behind those before. By
induction on the files: the step is `Shelf.Sound.places`. -/
theorem exists_laidOut_foldl_shelve {files : List (Shelf × TraceFile)}
    (hsound : ∀ file ∈ files, file.1.Sound) (a : Archive) :
    ∃ entries, (files.foldl shelve a).entries = a.entries ++ entries ∧
      LaidOut a.paths files entries := by
  induction files generalizing a with
  | nil => exact ⟨[], by simp, .nil _⟩
  | cons file files ih =>
    obtain ⟨hfile, hfiles⟩ := List.forall_mem_cons.mp hsound
    obtain ⟨entries, heq, hlaid⟩ := ih hfiles (a.shelve file)
    refine ⟨⟨freePath a.paths (file.1.path file.2), file.2.data⟩ :: entries, ?_, ?_⟩
    · rw [List.foldl_cons, heq]
      simp [shelve, push]
    · refine .cons (hfile.places file.2 a.paths) ?_
      simpa [shelve, push, paths] using hlaid

end Archive

namespace Registry

/-- The files behind the traces in use, each with its shelf: the session file and then the files of
single categories. An archive is built from these alone. -/
def shelved (r : Registry) : List (Shelf × TraceFile) :=
  (r.modern.values.head?.map fun l => (Shelf.session, l.file)).toList ++
    r.legacy.values.map fun l => (Shelf.ofCategory l.category, l.file)

/-- All shelves in use are sound, the one of sessions and those of all categories. -/
theorem sound_of_mem_shelved {r : Registry} {file : Shelf × TraceFile} (h : file ∈ r.shelved) :
    file.1.Sound := by
  rcases List.mem_append.mp h with h | h
  · obtain ⟨l, -, rfl⟩ := Option.map_eq_some_iff.mp (Option.mem_toList.mp h)
    exact Shelf.sound_session
  · obtain ⟨l, -, rfl⟩ := List.mem_map.mp h
    exact Shelf.sound_ofCategory _

/-- A single file should have the path of its shelf. The archive has functions of its own for single
files and for session files; the shelves bring the two together. -/
theorem legacyPath_eq (c : Category) (f : TraceFile) :
    Archive.legacyPath c f = (Shelf.ofCategory c).path f := by
  rw [Archive.legacyPath, Shelf.path, Shelf.front, Shelf.ofCategory]
  cases c.archiveDir? <;> simp [Shelf.name]

/-- The archive of a registry holds the files behind its traces, put on their shelves one after the
other. -/
theorem archive_eq (r : Registry) : r.archive = r.shelved.foldl Archive.shelve {} := by
  rw [archive, ofFiles, shelved, List.foldl_append, List.foldl_map]
  congr 1
  · funext a l
    rw [Archive.shelve, legacyPath_eq]
  · cases r.modern.values <;> rfl

/-- The archive of a registry is laid out. Nothing is asked of the registry, since the shelves are
sound for every category. -/
theorem laidOut_archive (r : Registry) : LaidOut [] r.shelved r.archive.entries := by
  obtain ⟨entries, heq, hlaid⟩ :=
    Archive.exists_laidOut_foldl_shelve (fun _ => sound_of_mem_shelved (r := r)) {}
  rw [archive_eq, heq]
  exact hlaid

/-- Single files are listed in the order of their categories, as the map that holds them is. -/
theorem Consistent.legacy_ordered {r : Registry} {file : TraceFile} (h : r.Consistent file) :
    (r.legacy.values.map (·.category)).Pairwise (·.index < ·.index) := by
  have hkeys : r.legacy.values.map (·.category) = Category.all.filter r.legacy.contains := by
    rw [CategoryMap.values, List.map_filterMap, ← List.filterMap_eq_filter]
    refine List.filterMap_congr fun c _ => ?_
    rw [Option.guard, CategoryMap.contains]
    cases hget : r.legacy.get? c with
    | none => simp
    | some l => simp [h.legacy_category hget]
  rw [hkeys]
  exact Category.all_pairwise.filter _

/-- In a consistent registry the session file is that of every trace of the session. So it is enough
to archive the file of the first. -/
theorem Consistent.shelved_eq {r : Registry} {file : TraceFile} (h : r.Consistent file) :
    r.shelved = (if r.modern.values = [] then [] else [(Shelf.session, file)]) ++
      r.legacy.values.map fun l => (Shelf.ofCategory l.category, l.file) := by
  rw [shelved]
  congr 1
  cases hvalues : r.modern.values with
  | nil => rfl
  | cons l rest =>
    obtain ⟨c, hc⟩ := CategoryMap.mem_values.mp (hvalues ▸ List.mem_cons_self : l ∈ r.modern.values)
    simp [h.session_file hc]

/-- An exact account of the archive of a registry. -/
structure Archived (r : Registry) : Prop where
  /-- The file of the session has an entry if the session has a trace in use, and then every single
  file in use has one. Each entry holds the bytes of its file, at the path that the file should have
  or at the first free one with a number. -/
  laidOut : ∃ file, (∀ l ∈ r.modern.values, l.file = file) ∧
    LaidOut [] ((if r.modern.values = [] then [] else [(Shelf.session, file)]) ++
      r.legacy.values.map fun l => (Shelf.ofCategory l.category, l.file)) r.archive.entries
  /-- The single files are in the order of their categories. -/
  ordered : (r.legacy.values.map (·.category)).Pairwise fun a b => a.index < b.index
  /-- No path is used twice. -/
  nodup : r.archive.paths.Nodup

/-- **The archive after every history.** Every file behind a trace in use is in the archive once,
with its own bytes, in a fixed order and at a path of its own, whatever was merged and removed
before. -/
theorem run_archived (policy : MergePolicy) (calls : List Call) :
    ((withPolicy policy).run calls).Archived := by
  obtain ⟨file, h⟩ := run_consistent policy calls
  have hlaid := laidOut_archive ((withPolicy policy).run calls)
  refine ⟨⟨file, ?_, ?_⟩, h.legacy_ordered, ?_⟩
  · intro l hl
    obtain ⟨c, hc⟩ := CategoryMap.mem_values.mp hl
    exact h.session_file hc
  · rwa [← h.shelved_eq]
  · simpa [Archive.paths] using hlaid.nodup List.nodup_nil

/-- A registry with two single files of one directory that have no base names. Their names consist
of the fallback extension alone, so the second needs a number. -/
def nameless : Registry :=
  (withPolicy {}).run [.merge
    [{ file := { name := "state/" }, trace := { id := ⟨.windowManager, 0⟩, size := 0 } },
      { file := { name := "log/" }, trace := { id := ⟨.protoLog, 0⟩, size := 0 } }] none]

/-- The number of a path may stand behind the extension that the file got. It does for a file
without a base name, as the extension starts the name there and so is not taken for one. -/
theorem not_forall_number_before_extension :
    ¬∀ (policy : MergePolicy) (calls : List Call),
      ∀ p ∈ ((withPolicy policy).run calls).archive.paths,
      ∃ file ∈ ((withPolicy policy).run calls).shelved,
        p = String.ofList (file.1.path file.2) ∨
          ∃ stem ext n, 1 ≤ n ∧ file.1.path file.2 = stem ++ ext ∧
            String.ofList (ext.map Char.toLower) ∈ file.1.recognized ∧
            p = String.ofList (stem ++ " (".toList ++ Nat.toDigits 10 n ++ ')' :: ext) := by
  intro h
  have hpaths : nameless.archive.paths = ["wm/.winscope", "wm/.winscope (1)"] := by cbv
  have hwanted : nameless.shelved.map (fun file => String.ofList (file.1.path file.2)) =
      ["wm/.winscope", "wm/.winscope"] := by cbv
  obtain ⟨file, hfile, hcases⟩ := h _ _ "wm/.winscope (1)" (by rw [← nameless, hpaths]; simp)
  have hpath : String.ofList (file.1.path file.2) = "wm/.winscope" := by
    have hmem := List.mem_map_of_mem (f := fun file => String.ofList (file.1.path file.2)) hfile
    rw [← nameless, hwanted] at hmem
    simpa using hmem
  rcases hcases with heq | ⟨stem, ext, n, -, hcut, hmem, hnumbered⟩
  · rw [hpath] at heq
    exact absurd heq (by decide)
  · obtain rfl | ⟨front, c, rfl⟩ := List.eq_nil_or_concat ext
    · have hext := (sound_of_mem_shelved hfile).extension _ hmem
      exact absurd hext (by decide)
    · -- The path and the numbered path would end in the same character.
      rw [hcut] at hpath
      have hlast : c = 'e' := by simpa using congrArg (·.toList.reverse.head?) hpath
      have hlast' : ')' = c := by simpa using congrArg (·.toList.reverse.head?) hnumbered
      exact absurd (hlast'.trans hlast) (by decide)

end Registry

end FrameAlign
