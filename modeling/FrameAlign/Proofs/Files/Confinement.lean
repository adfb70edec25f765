import FrameAlign.Files.Output
import FrameAlign.Proofs.Files.Trees
import Mathlib.Data.List.Infix

/-!
# Confinement of an archive to its directory

An archive is written below a directory. When each of its paths has one or two parts that lead
downward, none of them is refused, and nothing outside of the directory changes, but that
directories are made on the way to it where nothing stands.
-/

namespace FrameAlign

/-- A path of one or two parts, each of which leads down into what it names. All paths of an archive
have this form, since its directories do not nest. -/
structure IsShallow (path : List Char) : Prop where
  /-- It does not start with a slash, so it goes on from the directory it is joined to. -/
  relative : FilePath.isAbsolute path = false
  /-- It leads through one directory at most. -/
  length : (FilePath.parts path).length = 1 ∨ (FilePath.parts path).length = 2
  /-- No part is empty or stays or steps up. -/
  proper : ∀ part ∈ FilePath.parts path, part ∉ [[], ['.'], ['.', '.']]

/-- A shallow path passes the check of an archive's paths, so the check never stops the writing of
an archive half way. -/
theorem IsShallow.isDownward {path : List Char} (h : IsShallow path) :
    FilePath.isDownward path = true := by
  have hup : ['.', '.'] ∉ FilePath.parts path := fun hmem => h.proper _ hmem (by simp)
  have hhere : (FilePath.parts path).head? ≠ some ['.'] :=
    fun hhead => h.proper _ (List.mem_of_head? hhead) (by simp)
  simp [FilePath.isDownward, h.relative, hup, hhere]

namespace FileTree

/-- A proper part leads into what it names. The other parts either stay where they are
or step up. -/
theorem step_of_proper {part : List Char} (h : part ∉ [[], ['.'], ['.', '.']]) (place : Place) :
    step place part = place ++ [String.ofList part] := by
  simp only [List.mem_cons, List.not_mem_nil, or_false, not_or] at h
  simp [step, h]

/-- Proper parts lead down by their names, from wherever they start. This is how a place below the
directory of an archive is computed. -/
theorem foldl_step_of_proper {ps : List (List Char)}
    (h : ∀ part ∈ ps, part ∉ [[], ['.'], ['.', '.']]) (place : Place) :
    ps.foldl step place = place ++ ps.map String.ofList := by
  induction ps generalizing place with
  | nil => simp
  | cons part ps ih =>
    obtain ⟨hpart, hps⟩ := List.forall_mem_cons.mp h
    rw [List.foldl_cons, step_of_proper hpart, ih hps]
    simp

/-- Proper parts bring no step up into a place, so what they lead to lies below where they start.
`Below` asks for this. -/
theorem up_not_mem_map_ofList {ps : List (List Char)}
    (h : ∀ part ∈ ps, part ∉ [[], ['.'], ['.', '.']]) : ".." ∉ ps.map String.ofList := by
  intro hmem
  obtain ⟨part, hpart, heq⟩ := List.mem_map.mp hmem
  have hup : part = ['.', '.'] := String.ofList_injective heq
  exact h part hpart (by simp [hup])

/-- The place lies below the target of a path. None of the names behind the target is a step up:
a place outside of a tree is written with steps up in front, and when the target is at the top or
above it, such a place would otherwise go on behind it as well. -/
def Below (root : List Char) (q : Place) : Prop :=
  ∃ names, names ≠ [] ∧ ".." ∉ names ∧ q = target root ++ names

/-- Below a directory anything may have changed. Everywhere else all is as before, but for
directories where nothing was, on the way to the directory: the directory of an archive is made when
it is missing. -/
def Confined (root : List Char) (t t' : FileTree) : Prop :=
  ∀ q, t'.at? q = t.at? q ∨ Below root q ∨
    (t.at? q = none ∧ t'.at? q = some .directory ∧
      ∃ way, way <+: FilePath.parts root ∧ q = way.foldl step [])

variable {root path : List Char} {t t' t'' : FileTree}

/-- A program that leaves the files alone is confined to every directory. -/
theorem Confined.refl (root : List Char) (t : FileTree) : Confined root t t := fun _ => Or.inl rfl

/-- Confined changes may follow each other. A directory that the first of them makes on the way is
there for the second, so the second does not make it again. -/
theorem Confined.trans (h : Confined root t t') (h' : Confined root t' t'') :
    Confined root t t'' := by
  intro q
  rcases h q with hsame | hbelow | ⟨hnone, hmade, hway⟩
  · rw [← hsame]
    exact h' q
  · exact Or.inr (Or.inl hbelow)
  · rcases h' q with hsame' | hbelow' | ⟨hnone', -⟩
    · exact Or.inr (Or.inr ⟨hnone, hsame'.trans hmade, hway⟩)
    · exact Or.inr (Or.inl hbelow')
    · rw [hmade] at hnone'
      cases hnone'

/-- A way that has gone above the top stays above it: going down from there leads into directories
of which nothing is known, never back into the tree. -/
theorem head?_step_of_above {place : Place} (h : place.head? = some "..") (part : List Char) :
    (step place part).head? = some ".." := by
  obtain ⟨rest, rfl⟩ := List.head?_eq_some_iff.mp h
  rw [step]
  split
  · rfl
  · split
    · split
      · rfl
      · next hall =>
        obtain ⟨name, names, rfl⟩ : ∃ name names, rest = name :: names :=
          List.exists_cons_of_ne_nil fun hnil => hall (by simp [hnil])
        rfl
    · rfl

/-- The same for all of a way, which is how a directory of the tree is known to be reached without
leaving the tree. -/
theorem head?_foldl_step_of_above {place : Place} (h : place.head? = some "..")
    (way : List (List Char)) : (way.foldl step place).head? = some ".." := by
  induction way generalizing place with
  | nil => exact h
  | cons part way ih => exact ih (head?_step_of_above h part)

/-- What is confined to a directory of the tree changes nothing above the top. This is what the
condition on the names in `Below` is for. -/
theorem Confined.at?_above (h : Confined root t t') (hroot : (target root).head? ≠ some "..")
    {q : Place} (hq : q.head? = some "..") : t'.at? q = t.at? q := by
  rcases h q with hsame | ⟨names, -, hup, rfl⟩ | ⟨-, -, way, ⟨rest, hway⟩, rfl⟩
  · exact hsame
  · rw [List.head?_append, Option.or_eq_some_iff] at hq
    rcases hq with hq | ⟨-, hq⟩
    · exact absurd hq hroot
    · exact absurd (List.mem_of_head? hq) hup
  · refine absurd ?_ hroot
    rw [target, ← hway, List.foldl_append]
    exact head?_foldl_step_of_above hq rest

/-- A path below a directory has its own parts behind parts that lead to the directory. The
parts of the directory are not all of these when it is written with a slash at the end, which
leads nowhere. -/
theorem exists_way (root : List Char) (h : IsShallow path) :
    ∃ above, above <+: FilePath.parts root ∧ above.foldl step [] = target root ∧
      FilePath.parts (FilePath.join root path) = above ++ FilePath.parts path := by
  obtain ⟨above, habove, hjoin⟩ := FilePath.exists_parts_join root h.relative
  rcases habove with heq | heq
  · exact ⟨above, heq ▸ List.prefix_rfl, by rw [target, heq], hjoin⟩
  · refine ⟨above, heq ▸ List.prefix_append _ _, ?_, hjoin⟩
    rw [target, heq, List.foldl_append]
    rfl

/-- A file that is written at a shallow path lies below the directory. Its parts are proper, so they
lead down from where the directory is. -/
theorem confined_write {data : ByteArray} (h : IsShallow path)
    (hwrite : t.write? (String.ofList (FilePath.join root path)) data = some t') :
    Confined root t t' := by
  intro q
  rcases at?_write hwrite q with hsame | htarget
  · exact Or.inl hsame
  · obtain ⟨above, -, hroot, hjoin⟩ := exists_way root h
    refine Or.inr (Or.inl ⟨(FilePath.parts path).map String.ofList, ?_, ?_, ?_⟩)
    · simpa using FilePath.parts_ne_nil path
    · exact up_not_mem_map_ofList h.proper
    · rw [htarget, String.toList_ofList, target, hjoin, List.foldl_append, hroot,
        foldl_step_of_proper h.proper]

/-- A way through the directory and on through proper parts ends on the way to the directory or
below it. These are the two places where a missing directory may be made. -/
theorem way_cases {above init way : List (List Char)} (habove : above <+: FilePath.parts root)
    (hroot : above.foldl step [] = target root)
    (hinit : ∀ part ∈ init, part ∉ [[], ['.'], ['.', '.']]) (hway : way <+: above ++ init) :
    way <+: FilePath.parts root ∨ Below root (way.foldl step []) := by
  rcases List.prefix_or_prefix_of_prefix hway (List.prefix_append above init)
    with hon | ⟨below, rfl⟩
  · exact Or.inl (hon.trans habove)
  · by_cases hnil : below = []
    · rw [hnil, List.append_nil]
      exact Or.inl habove
    · have hbelow : below <+: init := (List.prefix_append_right_inj above).mp hway
      have hproper : ∀ part ∈ below, part ∉ [[], ['.'], ['.', '.']] :=
        fun part hpart => hinit part (hbelow.subset hpart)
      refine Or.inr ⟨below.map String.ofList, by simpa using hnil,
        up_not_mem_map_ofList hproper, ?_⟩
      rw [List.foldl_append, hroot, foldl_step_of_proper hproper]

/-- The directories above a shallow path lie below the directory or on the way to it, so making
those that are missing is confined. -/
theorem confined_makeDirectories {parent : List Char} (h : IsShallow path)
    (hparent : FilePath.parent? (FilePath.join root path) = some parent)
    (hmake : t.makeDirectories? (String.ofList parent) = some t') : Confined root t t' := by
  obtain ⟨above, habove, hroot, hjoin⟩ := exists_way root h
  obtain ⟨init, last, hparts⟩ : ∃ init last, FilePath.parts path = init ++ [last] := by
    have hsplit := List.dropLast_append_getLast (FilePath.parts_ne_nil path)
    exact ⟨_, _, hsplit.symm⟩
  obtain ⟨hinit, hlast⟩ : (∀ part ∈ init, part ∉ [[], ['.'], ['.', '.']]) ∧
      last ≠ [] ∧ last ≠ ['.'] := by
    have hproper := h.proper
    rw [hparts, List.forall_mem_append] at hproper
    have hmem := hproper.2 last (List.mem_singleton_self last)
    simp only [List.mem_cons, not_or] at hmem
    exact ⟨hproper.1, hmem.1, hmem.2.1⟩
  rw [hparts, ← List.append_assoc] at hjoin
  obtain ⟨ps, hps, hmake⟩ := Option.bind_eq_some_iff.mp hmake
  rw [partsOf?, String.toList_ofList] at hps
  split at hps
  · cases hps
  · next hfollowed =>
    cases hps
    simp only [Bool.or_eq_true, not_or] at hfollowed
    have hbegins : FilePath.parts parent <+: above ++ init := by
      rcases FilePath.parts_prefix_of_parent hjoin hlast hparent with hnil | hroot | hbegins
      · exact absurd (by simp [hnil]) hfollowed.1.1
      · exact absurd hroot hfollowed.1.2
      · exact hbegins
    intro q
    rcases at?_makeDirectoriesFrom hmake q with hsame | ⟨hnone, hmade, way, hway, rfl⟩
    · exact Or.inl hsame
    · rcases way_cases habove hroot hinit (hway.trans hbegins) with hon | hbelow
      · exact Or.inr (Or.inr ⟨hnone, hmade, way, hon, rfl⟩)
      · exact Or.inr (Or.inl hbelow)

end FileTree

namespace Output

open FileTree

/-- The program refuses no path for leading out of the archive and stays below a directory, whatever
tree of files it starts from. Both are kept when programs are put together. -/
structure Confines (root : List Char) {α : Type} (x : ExceptT OutputError (StateM Desk) α) :
    Prop where
  /-- It does not end with a path that is refused for leading out of the archive. -/
  not_leadsOut : ∀ desk path, (x.run.run desk).1 ≠ .error (.invalidPath (.leadsOut path))
  /-- It changes no more than the directory allows, also when it fails. -/
  confined : ∀ desk, Confined root desk.files (x.run.run desk).2.files

variable {root path : List Char} {α β : Type}

/-- A program that only gives a value touches nothing. -/
theorem confines_pure (root : List Char) (a : α) :
    Confines root (pure a : ExceptT OutputError (StateM Desk) α) where
  not_leadsOut := by
    rintro desk path ⟨⟩
  confined := fun desk => Confined.refl root desk.files

/-- A failure touches nothing. It may be any but the refusal of a path for leading out of the
archive. -/
theorem confines_throw (root : List Char) {e : OutputError}
    (h : ∀ path, e ≠ .invalidPath (.leadsOut path)) :
    Confines root (throw e : ExceptT OutputError (StateM Desk) α) where
  not_leadsOut := by
    intro desk path heq
    cases heq
    exact h _ rfl
  confined := fun desk => Confined.refl root desk.files

/-- One program after the other. The second does not run when the first fails, and then the changes
are those of the first alone. -/
theorem confines_bind {x : ExceptT OutputError (StateM Desk) α}
    {f : α → ExceptT OutputError (StateM Desk) β} (hx : Confines root x)
    (hf : ∀ a, Confines root (f a)) : Confines root (x >>= f) := by
  have hrun (desk : Desk) : (x >>= f).run.run desk =
      match x.run.run desk with
      | (.ok a, after) => (f a).run.run after
      | (.error e, after) => (.error e, after) := by
    rw [ExceptT.run_bind, StateT.run_bind]
    rcases hx : x.run.run desk with ⟨result, after⟩
    cases result <;> rfl
  constructor
  · intro desk path
    have hfirst := hx.not_leadsOut desk path
    rw [hrun]
    rcases hx : x.run.run desk with ⟨result, after⟩
    cases result with
    | ok a => exact (hf a).not_leadsOut after path
    | error e => simpa [hx] using hfirst
  · intro desk
    have hfirst := hx.confined desk
    rw [hrun]
    rcases hx : x.run.run desk with ⟨result, after⟩
    rw [hx] at hfirst
    cases result with
    | ok a => exact hfirst.trans ((hf a).confined after)
    | error e => exact hfirst

/-- A program for each item of a list, one after the other. An archive is written in this way, entry
by entry. -/
theorem confines_mapM {f : α → ExceptT OutputError (StateM Desk) β} {items : List α}
    (h : ∀ a ∈ items, Confines root (f a)) : Confines root (items.mapM f) := by
  induction items with
  | nil => exact confines_pure root _
  | cons a items ih =>
    obtain ⟨hfirst, hrest⟩ := List.forall_mem_cons.mp h
    rw [List.mapM_cons]
    exact confines_bind hfirst fun _ => confines_bind (ih hrest) fun _ => confines_pure root _

/-- To ask what a path leads to touches nothing. -/
theorem confines_kindOf? (root : List Char) (path : String) :
    Confines root (kindOf? path : ExceptT OutputError (StateM Desk) (Option PathKind)) where
  not_leadsOut := by
    rintro desk path ⟨⟩
  confined := fun desk => Confined.refl root desk.files

/-- An operation that changes the tree or fails. Only the tree that it makes has to be confined,
since a failure keeps the one before. -/
theorem confines_adopt {change : FileTree → Option FileTree}
    (h : ∀ t t', change t = some t' → Confined root t t') :
    Confines root (ExceptT.lift (Desk.adopt change) : ExceptT OutputError (StateM Desk) Bool) := by
  have hrun (desk : Desk) : ((ExceptT.lift (Desk.adopt change) :
      ExceptT OutputError (StateM Desk) Bool).run.run desk) =
        (.ok (Desk.adopt change desk).1, (Desk.adopt change desk).2) := rfl
  constructor
  · intro desk path heq
    rw [hrun] at heq
    cases heq
  · intro desk
    rw [hrun, Desk.adopt]
    cases hchange : change desk.files with
    | none => exact Confined.refl root desk.files
    | some t' => exact h _ _ hchange

/-- The directory of a file at a shallow path is made on the way to it. When it cannot be made, the
failure names the directory and not the path. -/
theorem confines_makeParent (h : IsShallow path) :
    Confines root (makeParent (String.ofList (FilePath.join root path)) :
      ExceptT OutputError (StateM Desk) Unit) := by
  rw [makeParent, String.toList_ofList]
  split
  · exact confines_pure root _
  · exact confines_pure root _
  · next parent hparent =>
    refine confines_bind (confines_kindOf? root _) fun kind => ?_
    split
    · refine confines_bind (confines_adopt fun t t' => confined_makeDirectories h hparent) ?_
      intro made
      split
      · exact confines_pure root _
      · exact confines_throw root nofun
    · exact confines_pure root _

/-- A file at a shallow path is written without refusal, and below the directory: the check passes,
so what is left is to make the directory and to write the file. -/
theorem confines_writeEntry {root : String} {e : ArchiveEntry} (h : IsShallow e.path.toList) :
    Confines root.toList (writeEntry root e : ExceptT OutputError (StateM Desk) String) := by
  rw [writeEntry, if_pos h.isDownward]
  refine confines_bind ?_ fun _ => confines_pure _ _
  refine confines_bind (confines_makeParent h) fun _ => ?_
  refine confines_bind (confines_adopt fun t t' => confined_write h) fun written => ?_
  split
  · exact confines_pure _ _
  · exact confines_throw _ nofun

/-- **Confinement.** An archive of shallow paths is written without refusal of a path, and below its
directory. Nothing is assumed of the directory: it may be empty, absolute or lead above the top. -/
theorem confines_write {a : Archive} (h : ∀ e ∈ a.entries, IsShallow e.path.toList)
    (root : String) :
    Confines root.toList (a.write root : ExceptT OutputError (StateM Desk) (List String)) := by
  refine confines_bind (confines_kindOf? _ _) fun kind => ?_
  split
  · exact confines_throw _ nofun
  · exact confines_mapM fun e he => confines_writeEntry (h e he)

end Output

end FrameAlign
