import FrameAlign.Proofs.Registry.Steps

/-!
# Competition for places

Traces compete for the place of their category and for no other. So what holds a place after a
competition can be told from the traces of its category alone, in the order in which they came:
`get?_enterCandidates` for single files and `get?_modern_replaceSession` for a session.
-/

namespace FrameAlign.Merging

/-- Of two traces that ask for one place the richer one is preferred, of equals the earlier one. All
competitions come down to this step. -/
def prefer (best : Option LoadedTrace) (l : LoadedTrace) : Option LoadedTrace :=
  match best with
  | none => some l
  | some current => if current.trace.rank < l.trace.rank then some l else some current

/-- The trace that is preferred to all others that ask for its place, and none if nobody asks. -/
def richest (loaded : List LoadedTrace) : Option LoadedTrace := loaded.foldl prefer none

/-- The traces of a category, in the order in which they come. No others have a say in its place. -/
def ofCategory (c : Category) (loaded : List LoadedTrace) : List LoadedTrace :=
  loaded.filter fun l => l.category = c

/-- Of no traces none are of a category. -/
@[simp] theorem ofCategory_nil (c : Category) : ofCategory c [] = [] := rfl

/-- The traces of a category are those that record it. -/
theorem mem_ofCategory {c : Category} {loaded : List LoadedTrace} {l : LoadedTrace} :
    l ∈ ofCategory c loaded ↔ l ∈ loaded ∧ l.category = c := by
  rw [ofCategory, List.mem_filter, decide_eq_true_eq]

/-- A trace comes first among those of its category if it comes first among all. With the next lemma
an induction on all traces is one on those of a category. -/
theorem ofCategory_cons_of_eq {c : Category} {l : LoadedTrace} (h : l.category = c)
    (loaded : List LoadedTrace) : ofCategory c (l :: loaded) = l :: ofCategory c loaded :=
  List.filter_cons_of_pos (decide_eq_true h)

/-- A trace does not come among those of another category, so it leaves their competition alone. -/
theorem ofCategory_cons_of_ne {c : Category} {l : LoadedTrace} (h : l.category ≠ c)
    (loaded : List LoadedTrace) : ofCategory c (l :: loaded) = ofCategory c loaded :=
  List.filter_cons_of_neg (by rw [decide_eq_false h]; exact Bool.false_ne_true)

/-- Whoever asks for a place, it is held afterwards, by that trace or by the one before. -/
theorem prefer_eq_some (best : Option LoadedTrace) (l : LoadedTrace) :
    prefer best l = some l ∨ ∃ current, best = some current ∧ prefer best l = some current := by
  cases best with
  | none => exact Or.inl rfl
  | some current =>
    by_cases hrank : current.trace.rank < l.trace.rank
    · exact Or.inl (if_pos hrank)
    · exact Or.inr ⟨current, rfl, if_neg hrank⟩

/-- A place is held after a competition by one of those that asked, or by the one before. Nobody
holds a place without having asked for it. -/
theorem foldl_prefer_eq_some {loaded : List LoadedTrace} {best : Option LoadedTrace}
    {l : LoadedTrace} (h : loaded.foldl prefer best = some l) : l ∈ loaded ∨ best = some l := by
  induction loaded generalizing best with
  | nil => exact Or.inr h
  | cons k loaded ih =>
    rcases ih h with hmem | hbest
    · exact Or.inl (List.mem_cons_of_mem k hmem)
    · rcases prefer_eq_some best k with hk | ⟨current, hcurrent, hkept⟩
      · rw [hk] at hbest
        cases hbest
        exact Or.inl List.mem_cons_self
      · exact Or.inr (hcurrent.trans (hkept.symm.trans hbest))

/-- The richest of some traces is one of them. -/
theorem mem_of_richest {loaded : List LoadedTrace} {l : LoadedTrace}
    (h : richest loaded = some l) : l ∈ loaded := by
  rcases foldl_prefer_eq_some h with hmem | hnone
  · exact hmem
  · cases hnone

/-- Whoever asks for a place, it is held afterwards. -/
theorem isSome_prefer (best : Option LoadedTrace) (l : LoadedTrace) :
    (prefer best l).isSome = true := by
  rcases prefer_eq_some best l with hl | ⟨current, -, hkept⟩
  · rw [hl, Option.isSome_some]
  · rw [hkept, Option.isSome_some]

/-- A place that is held stays held, though maybe by another trace. -/
theorem isSome_foldl_prefer {loaded : List LoadedTrace} {best : Option LoadedTrace}
    (h : best.isSome = true) : (loaded.foldl prefer best).isSome = true := by
  induction loaded generalizing best with
  | nil => exact h
  | cons l loaded ih => exact ih (isSome_prefer best l)

/-- A place stays free only if nobody asks for it. -/
theorem richest_eq_none_iff {loaded : List LoadedTrace} : richest loaded = none ↔ loaded = [] := by
  cases loaded with
  | nil => simp [richest]
  | cons l loaded =>
    have hheld : (loaded.foldl prefer (prefer none l)).isSome = true :=
      isSome_foldl_prefer (isSome_prefer none l)
    simp [richest, ← Option.not_isSome_iff_eq_none, hheld]

/-- The place of a category is taken if one of the traces records it. Which places are taken is
known without any ranks. -/
theorem isSome_richest_ofCategory {c : Category} {loaded : List LoadedTrace} :
    (richest (ofCategory c loaded)).isSome = true ↔ c ∈ loaded.map (·.category) := by
  rw [← Option.ne_none_iff_isSome, ne_eq, richest_eq_none_iff, ofCategory, List.filter_eq_nil_iff]
  simp

/-! ## Single files -/

/-- A trace that supersedes the one before holds the place of its category, whatever their
ranks are. -/
theorem get?_supersede (held : CategoryMap LoadedTrace) (l : LoadedTrace) (c : Category) :
    (supersede held l).1.get? c = if l.category = c then some l else held.get? c := by
  rw [supersede, CategoryMap.get?_insert]

/-- After a competition the preferred trace holds the place, and all other places are as before. -/
theorem get?_contend (held : CategoryMap LoadedTrace) (l : LoadedTrace) (c : Category) :
    (contend held l).1.get? c = if l.category = c then prefer (held.get? c) l else held.get? c := by
  by_cases hc : l.category = c
  · subst hc
    cases hheld : held.get? l.category with
    | none => simp only [contend, hheld, get?_supersede, if_true, prefer]
    | some current =>
      by_cases hrank : current.trace.rank < l.trace.rank
      · simp only [contend, hheld, if_pos hrank, get?_supersede, if_true, prefer]
      · simp only [contend, hheld, if_neg hrank, if_true, prefer]
  · rw [if_neg hc, (admission_contend held l).get?_of_ne hc]

/-- A candidate competes with those that have entered, and takes the place of any other file. The
list of categories tells the two cases apart. -/
theorem get?_enterLegacy (m : Merging) (entered : List Category) (l : LoadedTrace) (c : Category) :
    (enterLegacy (m, entered) l).1.registry.legacy.get? c =
      if l.category = c then
        prefer (if c ∈ entered then m.registry.legacy.get? c else none) l
      else m.registry.legacy.get? c := by
  by_cases hentered : l.category ∈ entered
  · simp only [enterLegacy, if_pos hentered, get?_contend]
    by_cases hc : l.category = c
    · rw [if_pos hc, if_pos hc, if_pos (hc ▸ hentered)]
    · rw [if_neg hc, if_neg hc]
  · simp only [enterLegacy, if_neg hentered, get?_supersede]
    by_cases hc : l.category = c
    · rw [if_pos hc, if_pos hc, if_neg (hc ▸ hentered), prefer]
    · rw [if_neg hc, if_neg hc]

/-- Candidates compete with those that have entered. A file in use before stays in its place only if
no candidate asks for it. By induction on the candidates, with those that have entered left open. -/
theorem get?_foldl_enterLegacy (loaded : List LoadedTrace) (m : Merging) (entered : List Category)
    (c : Category) :
    (loaded.foldl enterLegacy (m, entered)).1.registry.legacy.get? c =
      ((ofCategory c loaded).foldl prefer
        (if c ∈ entered then m.registry.legacy.get? c else none)).or
          (m.registry.legacy.get? c) := by
  induction loaded generalizing m entered with
  | nil => by_cases hentered : c ∈ entered <;> simp [hentered]
  | cons l loaded ih =>
    obtain ⟨outcome, -, hstep⟩ := enterLegacy_admission m entered l
    have hplace := get?_enterLegacy m entered l c
    rw [List.foldl_cons]
    rw [hstep] at hplace ⊢
    rw [ih, hplace]
    by_cases hc : l.category = c
    · have hheld : ((ofCategory c loaded).foldl prefer
          (prefer (if c ∈ entered then m.registry.legacy.get? c else none) l)).isSome = true :=
        isSome_foldl_prefer (isSome_prefer _ l)
      rw [if_pos hc, if_pos (by simp [hc]), ofCategory_cons_of_eq hc, List.foldl_cons,
        Option.or_of_isSome hheld, Option.or_of_isSome hheld]
    · have hentered : c ∈ l.category :: entered ↔ c ∈ entered := by simp [Ne.symm hc]
      simp only [if_neg hc, hentered, ofCategory_cons_of_ne hc]

/-- When the candidates have entered, each place is held by the richest candidate that asked for it,
or else by the file that held it before. The file before does not compete by rank. -/
theorem get?_enterCandidates (m : Merging) (c : Category) :
    m.enterCandidates.registry.legacy.get? c =
      (richest (ofCategory c m.candidates)).or (m.registry.legacy.get? c) := by
  rw [enterCandidates, get?_foldl_enterLegacy]
  simp only [List.not_mem_nil, if_false, richest]

/-- When the candidates have entered, the places that they asked for are held next to those that
were held before. -/
theorem contains_legacy_enterCandidates (m : Merging) (c : Category) :
    m.enterCandidates.registry.legacy.contains c = true ↔
      c ∈ m.candidates.map (·.category) ∨ m.registry.legacy.contains c = true := by
  rw [CategoryMap.contains, get?_enterCandidates, Option.isSome_or, Bool.or_eq_true,
    isSome_richest_ofCategory, ← CategoryMap.contains]

/-! ## Sessions -/

/-- A session trace competes for its place in the session and evicts the single file, even if it
loses there. -/
theorem get?_foldl_enterSession (loaded : List LoadedTrace) (m : Merging) (c : Category) :
    (loaded.foldl enterSession m).registry.modern.get? c =
        (ofCategory c loaded).foldl prefer (m.registry.modern.get? c) ∧
      (loaded.foldl enterSession m).registry.legacy.get? c =
        if c ∈ loaded.map (·.category) then none else m.registry.legacy.get? c := by
  induction loaded generalizing m with
  | nil => simp
  | cons l loaded ih =>
    obtain ⟨hmodern, hlegacy⟩ := ih (enterSession m l)
    have hmodern' : (enterSession m l).registry.modern = (contend m.registry.modern l).1 := rfl
    have hlegacy' : (enterSession m l).registry.legacy = m.registry.legacy.erase l.category := rfl
    rw [List.foldl_cons, hmodern, hlegacy, hmodern', hlegacy', get?_contend, CategoryMap.get?_erase]
    by_cases hc : l.category = c
    · simp [ofCategory_cons_of_eq hc, hc]
    · simp [ofCategory_cons_of_ne hc, hc, Ne.symm hc]

/-- In a new session each place is held by the richest trace that asks for it. The old session
takes no part. -/
theorem get?_modern_replaceSession (s : Session) (m : Merging) (c : Category) :
    (m.replaceSession (some s)).registry.modern.get? c = richest (ofCategory c s.loaded) := by
  rw [replaceSession, (get?_foldl_enterSession _ _ c).1, CategoryMap.get?_empty, richest]

/-- A new session holds the places of the categories that it records, and no others. -/
theorem contains_modern_replaceSession (s : Session) (m : Merging) (c : Category) :
    (m.replaceSession (some s)).registry.modern.contains c = true ↔
      c ∈ s.loaded.map (·.category) := by
  rw [CategoryMap.contains, get?_modern_replaceSession, isSome_richest_ofCategory]

/-- A new session leaves the single files of other categories in their places, and without
one all stay. -/
theorem get?_legacy_replaceSession (session : Option Session) (m : Merging) (c : Category) :
    (m.replaceSession session).registry.legacy.get? c =
      if c ∈ (session.elim [] Session.loaded).map (·.category) then none
      else m.registry.legacy.get? c := by
  cases session with
  | none => simp [replaceSession]
  | some s => exact (get?_foldl_enterSession _ _ c).2

end FrameAlign.Merging
