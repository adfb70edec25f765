import FrameAlign.Capture.Sorting
import Mathlib

/-!
# The selection of a session

A container has one session at most. Of several session files the first of the largest is selected,
before any of them is decoded, and the others are reported from the largest to the smallest. The
sort that finds them keeps files of one size in their order, `filter_size_mergeSort`, and that alone
decides between equals.
-/

namespace FrameAlign

/-- Of some files the first of the largest is selected, if there is any, and the others are passed
over, the larger ones first and files of one size in their order. The list is split at the selected
file, so that what stands before it is strictly smaller. -/
inductive Selection : List TraceFile → Option TraceFile → List TraceFile → Prop
  /-- Of no files none is selected. -/
  | none : Selection [] none []
  /-- A file is selected that is larger than those before it and no smaller than those behind it. -/
  | some {before after losers : List TraceFile} {f : TraceFile}
      (hbefore : ∀ g ∈ before, g.size < f.size) (hafter : ∀ g ∈ after, g.size ≤ f.size)
      (hdescends : losers.Pairwise fun a b => b.size ≤ a.size)
      (hties : ∀ n, losers.filter (·.size = n) = (before ++ after).filter (·.size = n)) :
      Selection (before ++ f :: after) (some f) losers

namespace Selection

variable {files losers : List TraceFile} {f g : TraceFile}

/-- No file is selected only if there is none, so a container with session files always has a
selected one. -/
theorem eq_nil_of_none (h : Selection files .none losers) : files = [] := by
  cases h
  rfl

/-- One of the files is selected; it keeps its name and its bytes. -/
theorem mem_of_some (h : Selection files (.some f) losers) : f ∈ files := by
  cases h with
  | some => simp

/-- No file is larger than the one that is selected. Files before and behind it are told apart only
by equality. -/
theorem size_le (h : Selection files (.some f) losers) (hg : g ∈ files) : g.size ≤ f.size := by
  cases h with
  | some hbefore hafter hdescends hties =>
    rcases List.mem_append.mp hg with hg | hg
    · exact Nat.le_of_lt (hbefore g hg)
    · rcases List.mem_cons.mp hg with rfl | hg
      · exact Nat.le_refl _
      · exact hafter g hg

/-- A file that is larger than all others is selected, wherever it stands. -/
theorem eq_of_size_lt (h : Selection files (.some f) losers) (hg : g ∈ files)
    (hlarger : ∀ k ∈ files, k ≠ g → k.size < g.size) : f = g := by
  by_contra hne
  have hlt := hlarger f h.mem_of_some hne
  have hle := h.size_le hg
  omega

/-- Every file but the selected one is passed over. The list of losers holds files of each size as
often as there are, so none is missing. -/
theorem mem_losers (h : Selection files (.some f) losers) (hg : g ∈ files) (hne : g ≠ f) :
    g ∈ losers := by
  cases h with
  | @some before after _ _ hbefore hafter hdescends hties =>
    have hothers : g ∈ before ++ after := by simpa [hne] using hg
    have hmem : g ∈ (before ++ after).filter (·.size = g.size) :=
      List.mem_filter.mpr ⟨hothers, decide_eq_true rfl⟩
    rw [← hties] at hmem
    exact List.mem_of_mem_filter hmem

end Selection

/-! ## Sorting by size -/

section Sorting

variable (files : List TraceFile)

/-- Sorted by size, the files descend. The comparison is total and transitive, which is all that the
sort asks of it. -/
theorem pairwise_mergeSort_size :
    (files.mergeSort fun a b => b.size ≤ a.size).Pairwise fun a b => b.size ≤ a.size := by
  have hsorted : (files.mergeSort fun a b => b.size ≤ a.size).Pairwise fun a b =>
      decide (b.size ≤ a.size) = true :=
    List.pairwise_mergeSort (by simp only [decide_eq_true_eq]; omega)
      (by simp only [Bool.or_eq_true, decide_eq_true_eq]; omega) files
  simpa only [decide_eq_true_eq] using hsorted

/-- Sorting by size leaves the files of one size in their order. They already descend among
themselves, so they are a sorted sublist, and the sort is stable. -/
theorem filter_size_mergeSort (n : Nat) :
    (files.mergeSort fun a b => b.size ≤ a.size).filter (·.size = n) =
      files.filter (·.size = n) := by
  have hequals : (files.filter (·.size = n)).Pairwise fun a b => decide (b.size ≤ a.size) := by
    refine List.pairwise_of_forall_mem_list fun a ha b hb => ?_
    have hsize : a.size = n := of_decide_eq_true (List.mem_filter.mp ha).2
    have hsize' : b.size = n := of_decide_eq_true (List.mem_filter.mp hb).2
    exact decide_eq_true (by omega)
  have hsublist : (files.filter (·.size = n)).Sublist
      (files.mergeSort fun a b => b.size ≤ a.size) :=
    List.sublist_mergeSort (by simp only [decide_eq_true_eq]; omega)
      (by simp only [Bool.or_eq_true, decide_eq_true_eq]; omega) hequals List.filter_sublist
  -- The files of one size are as many before the sort as after it.
  have hlength := ((List.mergeSort_perm files fun a b => b.size ≤ a.size).filter
    (·.size = n)).length_eq
  have hfiltered := hsublist.filter (·.size = n)
  simp only [List.filter_filter, Bool.and_self] at hfiltered
  exact (hfiltered.eq_of_length hlength.symm).symm

/-- The head of the files sorted by size is selected and the rest passed over. That the head is the
first of the largest follows from the order of the files of its size. -/
theorem selection_mergeSort :
    Selection files (files.mergeSort fun a b => b.size ≤ a.size).head?
      (files.mergeSort fun a b => b.size ≤ a.size).tail := by
  have hperm := List.mergeSort_perm files fun a b => b.size ≤ a.size
  have hdescends := pairwise_mergeSort_size files
  have hties := filter_size_mergeSort files
  generalize files.mergeSort (fun a b => b.size ≤ a.size) = sorted at hperm hdescends hties ⊢
  cases sorted with
  | nil =>
    rw [List.nil_perm.mp hperm]
    exact .none
  | cons f losers =>
    obtain ⟨hlargest, hdescends⟩ := List.pairwise_cons.mp hdescends
    have hle : ∀ g ∈ files, g.size ≤ f.size := by
      intro g hg
      rcases List.mem_cons.mp (hperm.mem_iff.mpr hg) with rfl | hg
      · exact Nat.le_refl _
      · exact hlargest g hg
    -- Among the files of its size the head of the sorted files comes first, as it does there.
    have hfirst := hties f.size
    rw [List.filter_cons_of_pos (by simp)] at hfirst
    obtain ⟨before, after, rfl, hbefore, -, -⟩ := List.filter_eq_cons_iff.mp hfirst.symm
    have hsmaller : ∀ g ∈ before, g.size < f.size := by
      intro g hg
      have hne : g.size ≠ f.size := fun h => hbefore g hg (decide_eq_true h)
      have hgf := hle g (by simp [hg])
      omega
    refine .some hsmaller (fun g hg => hle g (by simp [hg])) hdescends fun n => ?_
    have hn := hties n
    rw [List.filter_append] at hn ⊢
    by_cases hsize : f.size = n
    · have hnone : before.filter (·.size = n) = [] := by
        rw [List.filter_eq_nil_iff]
        intro g hg hgn
        have hlt := hsmaller g hg
        have heq : g.size = n := of_decide_eq_true hgn
        omega
      rw [hnone, List.filter_cons_of_pos (by simpa using hsize),
        List.filter_cons_of_pos (by simpa using hsize)] at hn
      rw [hnone]
      exact (List.cons.inj hn).2
    · rwa [List.filter_cons_of_neg (by simpa using hsize),
        List.filter_cons_of_neg (by simpa using hsize)] at hn

end Sorting

/-! ## Sorting by decoder -/

namespace SortedFiles

variable (kind : TraceFile → FileKind) (files : List TraceFile)

/-- The files of the given kind, in their order. The sorting takes the container apart into these
three lists. -/
def ofKind (k : FileKind) : List TraceFile := files.filter fun f => kind f = k

/-- Every file is of one of the three kinds, so the lists of the kinds are as long together as that
of all files. -/
theorem length_ofKind_add :
    (ofKind kind files .trace).length + (ofKind kind files .session).length +
      (ofKind kind files .unsupported).length = files.length := by
  simp only [ofKind]
  induction files with
  | nil => rfl
  | cons f files ih => cases hkind : kind f <;> simp [hkind] <;> omega

/-- Every file is kept, selected or reported. The count is by kinds, and within the session files by
the sort, which loses none. -/
theorem length_ofKinds :
    (ofKinds kind files).traces.length + (ofKinds kind files).session.toList.length +
      (ofKinds kind files).diagnostics.length = files.length := by
  have hkinds := length_ofKind_add kind files
  have hsessions := (List.mergeSort_perm (ofKind kind files .session)
    fun a b => b.size ≤ a.size).length_eq
  simp only [ofKinds, List.length_append, List.length_map]
  simp only [ofKind] at hkinds hsessions
  generalize (files.filter fun f => kind f = .session).mergeSort
    (fun a b => b.size ≤ a.size) = sorted at hsessions ⊢
  cases sorted with
  | nil =>
    simp only [List.head?_nil, Option.toList_none, List.tail_nil, List.length_nil] at hsessions ⊢
    omega
  | cons f losers =>
    simp only [List.head?_cons, Option.toList_some, List.tail_cons, List.length_cons,
      List.length_nil] at hsessions ⊢
    omega

end SortedFiles

/-- **Every file is accounted for once.** Whatever the files of a container are, those that hold one
trace are kept in their order. Of the session files the first of the largest is selected, unless
there is none. Each unsupported file is reported, in the order of the files, and behind them each
session file that was not selected, the larger ones first and those of one size in their order. So
there are as many files kept, selected and reported as there are files. -/
theorem Capture.sortFiles_accounts (files : List TraceFile) :
    let sorted := sortFiles files
    sorted.traces = SortedFiles.ofKind fileKind files .trace ∧
      ∃ losers, Selection (SortedFiles.ofKind fileKind files .session) sorted.session losers ∧
        sorted.diagnostics =
          (SortedFiles.ofKind fileKind files .unsupported).map (.unsupportedFile ·.descriptor) ++
            losers.map (.overridden ·.descriptor none) ∧
        sorted.traces.length + sorted.session.toList.length + sorted.diagnostics.length =
          files.length := by
  intro sorted
  refine ⟨rfl, _, selection_mergeSort _, rfl, ?_⟩
  exact SortedFiles.length_ofKinds fileKind files

end FrameAlign
