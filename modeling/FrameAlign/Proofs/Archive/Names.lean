import FrameAlign.Archive.Basic
import Mathlib.Data.List.TakeWhile

/-!
# Names of archived files

A base name has an extension when a dot stands behind its start. The statements here say which base
names an archive keeps as they are, and which names get another extension behind them. The number
that tells a path from one that is taken goes before the extension of the last part.
-/

namespace FrameAlign

namespace FileName

/-- A base name holds no slash of either kind: it is what is left behind the last one. -/
theorem isSlash_of_mem_base {name : List Char} {c : Char} (h : c ∈ base name) :
    isSlash c = false := by
  rw [base, List.mem_reverse] at h
  simpa using List.mem_takeWhile_imp h

/-- Slashes set directories off, so a base name holds none. Only this kind of slash leads anywhere
in the path of an archive. -/
theorem slash_not_mem_base (name : List Char) : '/' ∉ base name := by
  intro h
  exact absurd (isSlash_of_mem_base h) (by decide)

/-- From the end of a text that lacks a character all of it is passed over on the way to one. The
last dot and the last slash are searched from the end in this way. -/
theorem ne_of_mem_reverse {stop : Char} {text : List Char} (h : stop ∉ text) :
    ∀ c ∈ text.reverse, decide (c ≠ stop) = true := by
  intro c hc
  rw [List.mem_reverse] at hc
  exact decide_eq_true fun heq => h (heq ▸ hc)

/-- The last dot starts the extension, unless it starts the name. A name that starts with its only
dot is a hidden name without an extension. -/
theorem split_append_dot {stem rest : List Char} (hstem : stem ≠ []) (hrest : '.' ∉ rest) :
    split (stem ++ '.' :: rest) = (stem, '.' :: rest) := by
  have hnodot := ne_of_mem_reverse hrest
  obtain h | ⟨front, c, rfl⟩ := List.eq_nil_or_concat stem
  · exact absurd h hstem
  · have hreverse : (front.concat c ++ '.' :: rest).reverse =
        rest.reverse ++ '.' :: c :: front.reverse := by simp
    rw [split, hreverse, List.dropWhile_append_of_pos hnodot, List.takeWhile_append_of_pos hnodot]
    simp

/-- A name without a dot behind its start has no extension, so it is a stem as a whole. -/
theorem split_eq_self {base : List Char} (h : '.' ∉ base.tail) : split base = (base, []) := by
  cases base with
  | nil => rfl
  | cons first rest =>
    have hnodot : ∀ c ∈ rest.reverse, decide (c ≠ '.') = true := ne_of_mem_reverse h
    rw [split, List.reverse_cons, List.dropWhile_append_of_pos hnodot]
    by_cases hfirst : first = '.'
    · subst hfirst
      rfl
    · simp [hfirst]

/-- A name has an extension, or no dot behind its start. The two cases are those of
`split_append_dot` and `split_eq_self`. -/
theorem exists_extension_or (base : List Char) :
    (∃ stem rest, stem ≠ [] ∧ '.' ∉ rest ∧ base = stem ++ '.' :: rest) ∨ '.' ∉ base.tail := by
  cases base with
  | nil => exact Or.inr List.not_mem_nil
  | cons first tail =>
    by_cases hdot : '.' ∈ tail
    · -- The last dot is the first one of the reversed name.
      obtain ⟨rest, front, hreverse, hrest⟩ :=
        List.eq_append_cons_of_mem (List.mem_reverse.mpr hdot)
      refine Or.inl ⟨first :: front.reverse, rest.reverse, by simp, by simpa using hrest, ?_⟩
      have htail := congrArg List.reverse hreverse
      rw [List.reverse_reverse] at htail
      simp [htail]
    · exact Or.inr hdot

/-- The name has one of the extensions in any case of its letters. It is said by the parts of the
name, with no mention of how they are found. -/
def HasExtension (recognized : List String) (base : List Char) : Prop :=
  ∃ stem rest, stem ≠ [] ∧ '.' ∉ rest ∧ base = stem ++ '.' :: rest ∧
    String.ofList (('.' :: rest).map Char.toLower) ∈ recognized

/-- The extension of a name decides whether it has one of the extensions. This ties the condition on
the parts of the name to the function that cuts it. -/
theorem hasExtension_iff {recognized : List String} {base : List Char} :
    HasExtension recognized base ↔ ∃ ext ∈ recognized, extension? base = some ext := by
  constructor
  · rintro ⟨stem, rest, hstem, hrest, rfl, hmem⟩
    exact ⟨_, hmem, by simp [extension?, split_append_dot hstem hrest]⟩
  · rintro ⟨ext, hmem, hext⟩
    obtain ⟨stem, rest, hstem, hrest, rfl⟩ | hnone := exists_extension_or base
    · rw [extension?, split_append_dot hstem hrest] at hext
      cases hext
      exact ⟨stem, rest, hstem, hrest, rfl, hmem⟩
    · simp [extension?, split_eq_self hnone] at hext

end FileName

namespace Archive

open FileName

/-- A base name with a recognized extension stays, in its own spelling. -/
theorem fileName_of_hasExtension {recognized : List String} (fallback : String) {f : TraceFile}
    (h : HasExtension recognized f.baseName) : fileName recognized fallback f = f.baseName := by
  obtain ⟨ext, hmem, hext⟩ := hasExtension_iff.mp h
  rw [fileName, TraceFile.extension?, hext]
  exact if_pos hmem

/-- Any other base name gets the fallback behind it; an extension that is not recognized is kept in
front of that. -/
theorem fileName_of_not_hasExtension {recognized : List String} (fallback : String) {f : TraceFile}
    (h : ¬HasExtension recognized f.baseName) :
    fileName recognized fallback f = f.baseName ++ fallback.toList := by
  rw [fileName, TraceFile.extension?]
  cases hext : extension? f.baseName with
  | none => rfl
  | some ext => exact if_neg fun hmem => h (hasExtension_iff.mpr ⟨ext, hmem, hext⟩)

/-- The number of a path goes into the name behind its last slash. Dots in the directory before it
are never taken for the start of an extension. -/
theorem numbered_append {front name : List Char} (hfront : front = [] ∨ front.getLast? = some '/')
    (hname : '/' ∉ name) (n : Nat) :
    numbered (front ++ name) n =
      front ++ (FileName.split name).1 ++ " (".toList ++ Nat.toDigits 10 n ++
        ')' :: (FileName.split name).2 := by
  have hnoslash := ne_of_mem_reverse hname
  have hstop : front.reverse.takeWhile (· ≠ '/') = [] ∧
      front.reverse.dropWhile (· ≠ '/') = front.reverse := by
    rcases hfront with rfl | hlast
    · simp
    · rw [List.getLast?_eq_some_iff] at hlast
      obtain ⟨before, rfl⟩ := hlast
      simp
  rw [numbered, List.reverse_append, List.takeWhile_append_of_pos hnoslash,
    List.dropWhile_append_of_pos hnoslash, hstop.1, hstop.2]
  simp

end Archive

end FrameAlign
