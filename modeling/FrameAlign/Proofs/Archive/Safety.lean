import FrameAlign.Proofs.Archive.Layout
import FrameAlign.Proofs.Files.Confinement
import Mathlib

/-!
# Safety of an archive's paths

Whatever the names of the loaded files are, the paths of an archive lead down through one directory
at most. So an archive can be written below any directory without touching what lies outside.
-/

namespace FrameAlign

namespace Shelf

variable {s : Shelf} {f : TraceFile} {name stem ext : List Char}

/-- A name has a character besides dots, that of its extension. So it is none of the parts that stay
or step up. -/
theorem Names.exists_ne_dot (h : s.Names f name) (hs : s.Sound) : ∃ c ∈ name, c ≠ '.' := by
  have hrest {rest : List Char} (hne : rest ≠ []) (hdot : '.' ∉ rest) : ∃ c ∈ rest, c ≠ '.' := by
    obtain ⟨c, hc⟩ := List.exists_mem_of_ne_nil rest hne
    exact ⟨c, hc, fun heq => hdot (heq ▸ hc)⟩
  by_cases hbase : f.baseName = []
  · obtain ⟨rest, heq, hne, hdot, -⟩ := (hs.extension _ hs.fallback_mem).exists_eq
    obtain ⟨c, hc, hcdot⟩ := hrest hne hdot
    exact ⟨c, by rw [h.eq_fallback hbase, heq]; exact List.mem_cons_of_mem _ hc, hcdot⟩
  · obtain ⟨stem, rest, -, hdot, rfl, hmem⟩ := h.hasExtension hs hbase
    have hne : rest ≠ [] := by
      rintro rfl
      exact (hs.extension _ hmem).tail_ne_nil (by simp)
    obtain ⟨c, hc, hcdot⟩ := hrest hne hdot
    exact ⟨c, List.mem_append_right _ (List.mem_cons_of_mem _ hc), hcdot⟩

/-- A number brings no slash into a name, so a numbered file stays in the directory of its shelf. -/
theorem Cuts.slash_not_mem (hcuts : Cuts f name stem ext) (hname : '/' ∉ name) (n : Nat) :
    '/' ∉ stem ++ " (".toList ++ Nat.toDigits 10 n ++ ')' :: ext := by
  have hdigits : '/' ∉ Nat.toDigits 10 n := by
    intro hmem
    exact absurd (Nat.isDigit_of_mem_toDigits (by decide) (by decide) hmem) (by decide)
  rw [hcuts.append_eq, List.mem_append, not_or] at hname
  simp [hname, hdigits]

/-- A path on a sound shelf is shallow when something besides dots and slashes follows. The
directory of the shelf is one part, and what follows is the other. -/
theorem Sound.isShallow (hs : s.Sound) {last : List Char} (hslash : '/' ∉ last)
    (hdot : ∃ c ∈ last, c ≠ '.') : IsShallow (s.front ++ last) := by
  have hlast : last ∉ [[], ['.'], ['.', '.']] := by
    obtain ⟨c, hc, hne⟩ := hdot
    intro hmem
    simp only [List.mem_cons, List.not_mem_nil, or_false] at hmem
    rcases hmem with rfl | rfl | rfl <;> simp [hne] at hc
  have hparts : FilePath.parts (s.front ++ last) = (s.dir?.map String.toList).toList ++ [last] := by
    rw [front]
    cases hdir : s.dir? with
    | none => exact FilePath.parts_eq_singleton hslash
    | some dir =>
      rw [List.append_assoc, List.singleton_append, FilePath.parts_append_slash,
        FilePath.parts_eq_singleton hslash, FilePath.parts_eq_singleton (hs.dir dir hdir).1]
      rfl
  have hproper : ∀ part ∈ FilePath.parts (s.front ++ last), part ∉ [[], ['.'], ['.', '.']] := by
    intro part hpart
    rw [hparts, List.mem_append, List.mem_singleton] at hpart
    rcases hpart with hpart | rfl
    · obtain ⟨dir, hdir, rfl⟩ := Option.map_eq_some_iff.mp (Option.mem_toList.mp hpart)
      exact (hs.dir dir hdir).2
    · exact hlast
  refine ⟨FilePath.isAbsolute_eq_false fun hnil => hproper _ hnil (by simp), ?_, hproper⟩
  rw [hparts]
  cases s.dir? <;> simp

/-- The path of a placed file is shallow, with or without a number. Nothing is asked of the name
that the file was loaded with. -/
theorem Places.isShallow {earlier : List String} {e : ArchiveEntry} (h : s.Places f earlier e)
    (hs : s.Sound) : IsShallow e.path.toList := by
  obtain ⟨name, stem, ext, hname, hcuts, hpath⟩ := h.path_cases
  have hslash := hname.slash_not_mem hs
  rcases hpath with hpath | ⟨-, n, -, -, hpath, -⟩
  · rw [hpath, String.toList_ofList]
    exact hs.isShallow hslash (hname.exists_ne_dot hs)
  · rw [hpath, numbered, String.toList_ofList]
    simp only [List.append_assoc]
    refine hs.isShallow ?_ ⟨')', by simp, by decide⟩
    simpa only [List.append_assoc] using hcuts.slash_not_mem hslash n

end Shelf

namespace Registry

/-- **Safety after every history.** The paths in the archive of a registry lead down through one
directory at most and pass the check of a path. Written anywhere, the archive changes nothing
outside of its directory. -/
theorem run_archive_safe (policy : MergePolicy) (calls : List Call) :
    (∀ p ∈ ((withPolicy policy).run calls).archive.paths,
      IsShallow p.toList ∧ FilePath.isDownward p.toList = true) ∧
    ∀ root : String, Output.Confines root.toList
      (((withPolicy policy).run calls).archive.write root :
        ExceptT OutputError (StateM Desk) (List String)) := by
  have hshallow : ∀ e ∈ ((withPolicy policy).run calls).archive.entries,
      IsShallow e.path.toList := by
    intro e he
    obtain ⟨file, hfile, _, hplace⟩ := (laidOut_archive _).exists_places he
    exact hplace.isShallow (sound_of_mem_shelved hfile)
  refine ⟨?_, Output.confines_write hshallow⟩
  intro p hp
  obtain ⟨e, he, rfl⟩ := List.mem_map.mp hp
  exact ⟨hshallow e he, (hshallow e he).isDownward⟩

end Registry

end FrameAlign
