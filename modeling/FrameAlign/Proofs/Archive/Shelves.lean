import FrameAlign.Proofs.Archive.Names
import Mathlib.Data.List.Nodup
import Mathlib.Data.List.Perm.Subperm

/-!
# Shelves of an archive

A shelf is the place of one kind of files in an archive: the top for session files, the directory
of the category for all others. It says which extensions its files may keep and which one the
others get. A file comes to its shelf with the path it should have or, if that is taken, with the
smallest number that makes a free one.
-/

namespace FrameAlign

namespace Archive

/-- A number makes a path longer, so no number leads back to the path itself. -/
theorem length_lt_length_numbered (path : List Char) (n : Nat) :
    path.length < (numbered path n).length := by
  have hcut : (path.reverse.takeWhile (· ≠ '/') ++ path.reverse.dropWhile (· ≠ '/')).length =
      path.length := by rw [List.takeWhile_append_dropWhile, List.length_reverse]
  have hsplit := congrArg List.length
    (FileName.split_append (path.reverse.takeWhile (· ≠ '/')).reverse)
  simp only [List.length_append, List.length_reverse] at hcut hsplit
  simp only [numbered, List.length_append, List.length_cons, List.length_reverse]
  omega

/-- The search ends at the first number whose path is free. The induction is that of the search,
which uses up one taken path in each round. -/
theorem firstFree_spec (taken : List String) (path : List Char) (start : Nat) :
    ∃ n, start ≤ n ∧ firstFree taken path start = String.ofList (numbered path n) ∧
      String.ofList (numbered path n) ∉ taken ∧
      ∀ m, start ≤ m → m < n → String.ofList (numbered path m) ∈ taken := by
  fun_induction firstFree taken path start with
  | case1 start candidate htaken ih =>
    obtain ⟨n, hstart, heq, hfree, hbelow⟩ := ih
    refine ⟨n, by omega, heq, hfree, fun m hm hmn => ?_⟩
    obtain rfl | hlater : start = m ∨ start + 1 ≤ m := by omega
    · exact htaken
    · exact hbelow m hlater hmn
  | case2 start candidate hfree =>
    exact ⟨start, le_rfl, rfl, hfree, fun m hm hmn => by omega⟩

/-- A path and its numbers below `n` are `n` different paths, so they are not taken by fewer. So the
number of a free path is never above the number of those that are taken. -/
theorem le_length_of_numbered_mem {taken : List String} {path : List Char} {n : Nat}
    (hpath : String.ofList path ∈ taken)
    (hbelow : ∀ m, 1 ≤ m → m < n → String.ofList (numbered path m) ∈ taken) (hn : 1 ≤ n) :
    n ≤ taken.length := by
  let others := (List.range' 1 (n - 1)).map fun m => String.ofList (numbered path m)
  have hothers : others.Nodup :=
    List.Nodup.map (fun _ _ h => numbered_inj (String.ofList_injective h)) List.nodup_range'
  have hnew : String.ofList path ∉ others := by
    intro hmem
    obtain ⟨m, -, heq⟩ := List.mem_map.mp hmem
    have hlength := length_lt_length_numbered path m
    rw [String.ofList_injective heq] at hlength
    omega
  have hsubset : String.ofList path :: others ⊆ taken := by
    intro p hp
    obtain rfl | hp := List.mem_cons.mp hp
    · exact hpath
    · obtain ⟨m, hm, rfl⟩ := List.mem_map.mp hp
      rw [List.mem_range'_1] at hm
      exact hbelow m hm.1 (by omega)
  have hlength := ((List.nodup_cons.mpr ⟨hnew, hothers⟩).subperm hsubset).length_le
  rw [List.length_cons, List.length_map, List.length_range'] at hlength
  omega

/-- A path stays if it is free. Otherwise it gets the smallest number from one on that makes a free
path, which is not above the number of taken paths. -/
theorem freePath_cases (taken : List String) (path : List Char) :
    (freePath taken path = String.ofList path ∧ String.ofList path ∉ taken) ∨
      (String.ofList path ∈ taken ∧ ∃ n, 1 ≤ n ∧ n ≤ taken.length ∧
        freePath taken path = String.ofList (numbered path n) ∧
        String.ofList (numbered path n) ∉ taken ∧
        ∀ m, 1 ≤ m → m < n → String.ofList (numbered path m) ∈ taken) := by
  by_cases htaken : String.ofList path ∈ taken
  · obtain ⟨n, hn, heq, hfree, hbelow⟩ := firstFree_spec taken path 1
    have hbound : n ≤ taken.length := le_length_of_numbered_mem htaken hbelow hn
    rw [freePath, if_pos htaken]
    exact Or.inr ⟨htaken, n, hn, hbound, heq, hfree, hbelow⟩
  · rw [freePath, if_neg htaken]
    exact Or.inl ⟨rfl, htaken⟩

end Archive

/-- The place of one kind of files in an archive. -/
structure Shelf where
  /-- The directory of the files; none for the top. -/
  dir? : Option String
  /-- The extensions that a file may keep. -/
  recognized : List String
  /-- The extension that any other file gets. -/
  fallback : String

open FileName (HasExtension)

namespace Shelf

/-- The shelf of session files: they go to the top, as they belong to no single category. -/
def session : Shelf := ⟨none, Archive.sessionExtensions, Archive.sessionExtension⟩

/-- The shelf of single files of a category, as its entry in the table of categories says. -/
def ofCategory (c : Category) : Shelf := ⟨c.archiveDir?, c.recognizedExtensions, c.defaultExtension⟩

/-- What goes before the names of the files in their paths: the directory with its slash, or
nothing. -/
def front (s : Shelf) : List Char :=
  match s.dir? with
  | some dir => dir.toList ++ ['/']
  | none => []

/-- The name that a file should have, whether it is free or not. -/
def name (s : Shelf) (f : TraceFile) : List Char := Archive.fileName s.recognized s.fallback f

/-- The path that a file should have. It is the one that the file gets unless an earlier file has
it. -/
def path (s : Shelf) (f : TraceFile) : List Char := s.front ++ s.name f

/-- A dot before letters, digits and hyphens, none of them in upper case. -/
structure IsExtension (ext : String) : Prop where
  /-- It starts with a dot. -/
  head : ext.toList.head? = some '.'
  /-- Something follows the dot. -/
  tail_ne_nil : ext.toList.tail ≠ []
  /-- What follows has no dots, slashes or parentheses among others. -/
  tail : ext.toList.tail.all fun c => c.isAlphanum || c = '-'
  /-- It is written in lower case, as it is compared with lower-cased names. -/
  lower : ext.toList.map Char.toLower = ext.toList

/-- The condition is about one text, so `decide` settles it for every extension of the table. -/
instance (ext : String) : Decidable (IsExtension ext) :=
  decidable_of_iff (_ ∧ _ ∧ _ ∧ _)
    ⟨fun h => ⟨h.1, h.2.1, h.2.2.1, h.2.2.2⟩, fun h => ⟨h.head, h.tail_ne_nil, h.tail, h.lower⟩⟩

/-- An extension is a dot and a rest without further dots. What the rest does not hold is what the
proofs on paths need of it. -/
theorem IsExtension.exists_eq {ext : String} (h : IsExtension ext) :
    ∃ rest, ext.toList = '.' :: rest ∧ rest ≠ [] ∧ '.' ∉ rest ∧ '/' ∉ rest ∧ ')' ∉ rest := by
  obtain ⟨rest, hext⟩ := List.head?_eq_some_iff.mp h.head
  have htail := h.tail
  have hne := h.tail_ne_nil
  rw [hext, List.tail_cons] at htail hne
  rw [List.all_eq_true] at htail
  exact ⟨rest, hext, hne, fun hc => absurd (htail _ hc) (by decide),
    fun hc => absurd (htail _ hc) (by decide), fun hc => absurd (htail _ hc) (by decide)⟩

/-- A shelf with a proper directory and proper extensions. Everything about paths is proved of sound
shelves, so a category with other values would only have to be checked for this. -/
structure Sound (s : Shelf) : Prop where
  /-- The directory is one part of a path that does not lead up. -/
  dir : ∀ dir ∈ s.dir?, '/' ∉ dir.toList ∧ dir.toList ∉ [[], ['.'], ['.', '.']]
  /-- Files may keep the extension that others get. -/
  fallback_mem : s.fallback ∈ s.recognized
  /-- Every extension that a file may keep has the form of one. -/
  extension : ∀ ext ∈ s.recognized, IsExtension ext

/-- The shelf of session files is sound. -/
theorem sound_session : session.Sound where
  dir := by decide
  fallback_mem := by decide
  extension := by decide

/-- The shelf of every category is sound. The values of the categories are looked at here, and the
proofs on paths use nothing but the soundness. -/
theorem sound_ofCategory (c : Category) : (ofCategory c).Sound where
  dir := by cases c <;> decide
  fallback_mem := c.defaultExtension_mem
  extension := by cases c <;> decide

/-- The name of a file on a shelf: the base name if its extension is recognized, and otherwise the
base name with the fallback behind it. A relation, so that it can be read without the code. -/
structure Names (s : Shelf) (f : TraceFile) (name : List Char) : Prop where
  /-- A recognized extension is kept, in the case it came in. -/
  kept : HasExtension s.recognized f.baseName → name = f.baseName
  /-- Any other name is made longer and never cut. -/
  extended : ¬HasExtension s.recognized f.baseName → name = f.baseName ++ s.fallback.toList

/-- Where a number goes in the name of a file: before the last dot. A file without a base name has
nothing but the fallback for a name, and there the number goes to the end. -/
structure Cuts (f : TraceFile) (name stem ext : List Char) : Prop where
  /-- The cut loses nothing of the name. -/
  append_eq : name = stem ++ ext
  /-- Behind a base name the cut is before the last dot, and something stands before it. -/
  of_base : f.baseName ≠ [] → stem ≠ [] ∧ ∃ rest, ext = '.' :: rest ∧ '.' ∉ rest
  /-- Without a base name nothing stands behind the cut. -/
  of_bare : f.baseName = [] → ext = []

/-- The path of a file with a number in its name, between the two parts that the cut makes. -/
def numbered (s : Shelf) (stem ext : List Char) (n : Nat) : String :=
  String.ofList (s.front ++ stem ++ " (".toList ++ Nat.toDigits 10 n ++ ')' :: ext)

/-- How a file comes to stand on a shelf behind files with the paths `earlier`. It says all that
placing one file does, so an archive is a chain of such steps. -/
structure Places (s : Shelf) (f : TraceFile) (earlier : List String) (e : ArchiveEntry) :
    Prop where
  /-- The bytes of the file are kept. -/
  data_eq : e.data = f.data
  /-- No earlier file is overwritten. -/
  path_not_mem : e.path ∉ earlier
  /-- The path is that of the name or, if this is taken, the first numbered one that is free. -/
  path_cases : ∃ name stem ext, s.Names f name ∧ Cuts f name stem ext ∧
    (e.path = String.ofList (s.front ++ name) ∨
      String.ofList (s.front ++ name) ∈ earlier ∧ ∃ n, 1 ≤ n ∧ n ≤ earlier.length ∧
        e.path = s.numbered stem ext n ∧
        ∀ m, 1 ≤ m → m < n → s.numbered stem ext m ∈ earlier)

variable {s : Shelf} {f : TraceFile} {name : List Char}

/-- The name that a file should have is its name on the shelf. -/
theorem names_name (s : Shelf) (f : TraceFile) : s.Names f (s.name f) where
  kept := Archive.fileName_of_hasExtension s.fallback
  extended := Archive.fileName_of_not_hasExtension s.fallback

/-- A file has one name on a shelf, so the relation determines the path. -/
theorem Names.eq_name (h : s.Names f name) : name = s.name f := by
  by_cases hext : HasExtension s.recognized f.baseName
  · rw [h.kept hext, (names_name s f).kept hext]
  · rw [h.extended hext, (names_name s f).extended hext]

/-- A file without a base name is named by the fallback, since an empty name has no extension. -/
theorem Names.eq_fallback (h : s.Names f name) (hbase : f.baseName = []) :
    name = s.fallback.toList := by
  have hnone : ¬HasExtension s.recognized f.baseName := by
    rintro ⟨stem, rest, -, -, heq, -⟩
    simp [hbase] at heq
  simpa [hbase] using h.extended hnone

/-- A file with a base name has a recognized extension on its shelf: its own, or the fallback as a
proper extension behind the base name. -/
theorem Names.hasExtension (h : s.Names f name) (hs : s.Sound) (hbase : f.baseName ≠ []) :
    HasExtension s.recognized name := by
  by_cases hext : HasExtension s.recognized f.baseName
  · rw [h.kept hext]
    exact hext
  · have hfallback := hs.extension _ hs.fallback_mem
    obtain ⟨rest, heq, -, hrest, -⟩ := hfallback.exists_eq
    refine ⟨f.baseName, rest, hbase, hrest, ?_, ?_⟩
    · rw [h.extended hext, heq]
    · rw [← heq, hfallback.lower, String.ofList_toList]
      exact hs.fallback_mem

/-- A name leads into no directory, whatever slashes the file was loaded with. -/
theorem Names.slash_not_mem (h : s.Names f name) (hs : s.Sound) : '/' ∉ name := by
  have hbase : '/' ∉ f.baseName := FileName.slash_not_mem_base _
  by_cases hext : HasExtension s.recognized f.baseName
  · rw [h.kept hext]
    exact hbase
  · obtain ⟨rest, heq, -, -, hslash, -⟩ := (hs.extension _ hs.fallback_mem).exists_eq
    simp [h.extended hext, heq, hbase, hslash]

/-- The cut before the extension of a name is where a number goes. A name that is only a fallback
starts with its dot, so it is not cut at all. -/
theorem Names.cuts (h : s.Names f name) (hs : s.Sound) :
    Cuts f name (FileName.split name).1 (FileName.split name).2 where
  append_eq := (FileName.split_append name).symm
  of_base := by
    intro hbase
    obtain ⟨stem, rest, hstem, hrest, rfl, -⟩ := h.hasExtension hs hbase
    rw [FileName.split_append_dot hstem hrest]
    exact ⟨hstem, rest, rfl, hrest⟩
  of_bare := by
    intro hbase
    obtain ⟨rest, heq, -, hrest, -⟩ := (hs.extension _ hs.fallback_mem).exists_eq
    have htail : '.' ∉ ('.' :: rest).tail := hrest
    rw [h.eq_fallback hbase, heq, FileName.split_eq_self htail]

/-- What goes before a name ends in a slash, if it is there. So the name is what stands behind the
last slash. -/
theorem front_eq_nil_or (s : Shelf) : s.front = [] ∨ s.front.getLast? = some '/' := by
  rw [front]
  split
  · exact Or.inr List.getLast?_concat
  · exact Or.inl rfl

/-- **Placing a file.** A free path for a file on its shelf is the one it should have or the first
free one among those with a number in the name. -/
theorem Sound.places (hs : s.Sound) (f : TraceFile) (earlier : List String) :
    s.Places f earlier ⟨Archive.freePath earlier (s.path f), f.data⟩ := by
  have hname := names_name s f
  have hnumbered (n : Nat) : String.ofList (Archive.numbered (s.path f) n) =
      s.numbered (FileName.split (s.name f)).1 (FileName.split (s.name f)).2 n := by
    rw [path, Archive.numbered_append s.front_eq_nil_or (hname.slash_not_mem hs), numbered]
  obtain ⟨hpath, hfree⟩ | ⟨htaken, n, hn, hbound, hpath, hfree, hbelow⟩ :=
    Archive.freePath_cases earlier (s.path f)
  · exact ⟨rfl, hpath ▸ hfree, s.name f, _, _, hname, hname.cuts hs, Or.inl hpath⟩
  · simp only [hnumbered] at hpath hfree hbelow
    exact ⟨rfl, hpath ▸ hfree, s.name f, _, _, hname, hname.cuts hs,
      Or.inr ⟨htaken, n, hn, hbound, hpath, hbelow⟩⟩

end Shelf

end FrameAlign
