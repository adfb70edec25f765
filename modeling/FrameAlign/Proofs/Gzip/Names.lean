import FrameAlign.Gzip.Container
import FrameAlign.Proofs.Archive.Names
import Mathlib

/-!
# Names of decompressed files

A file is decompressed for its first bytes or for the ending `.gz` in any case of its letters
(`isGzip_iff`). Its content takes the base name without that ending only if the ending is written in
small letters. The statements here say what the name is for every container, and when it is the one
that the ending promises (`promises_contentName_iff`).
-/

namespace FrameAlign

open FileName (HasExtension)

namespace Gzip

/-! ## Recognition -/

/-- The text is `.gz` in some case of its letters. It is these endings that are recognized. -/
def IsEnding (ending : List Char) : Prop := ending.map Char.toLower = ".gz".toList

/-- Such an ending has three characters, so it is cut off in one way. -/
theorem IsEnding.length_eq {ending : List Char} (h : IsEnding ending) : ending.length = 3 := by
  rw [← List.length_map Char.toLower, h]
  rfl

/-- No letter has a dot as its small letter, so a dot in a name in small letters was
there before. -/
theorem eq_dot_of_toLower {c : Char} (h : c.toLower = '.') : c = '.' := by
  have halpha : c.isAlpha = false := by
    rw [← Char.isAlpha_toLower_eq_isAlpha, h]
    rfl
  have hupper : ¬c.isUpper := by
    rw [Char.isAlpha, Bool.or_eq_false_iff] at halpha
    simp [halpha.1]
  rw [← Char.toLower_eq_of_not_isUpper hupper, h]

/-- A base name has the extension exactly if something stands before such an ending. A name that is
nothing but the ending is a hidden name without an extension. -/
theorem hasExtension_iff_exists_ending {base : List Char} :
    HasExtension [".gz"] base ↔
      ∃ stem ending, stem ≠ [] ∧ base = stem ++ ending ∧ IsEnding ending := by
  constructor
  · rintro ⟨stem, rest, hstem, -, hbase, hmem⟩
    rw [List.mem_singleton] at hmem
    refine ⟨stem, '.' :: rest, hstem, hbase, ?_⟩
    rw [IsEnding, ← hmem, String.toList_ofList]
  · rintro ⟨stem, ending, hstem, hbase, hending⟩
    obtain ⟨dot, g, z, rfl⟩ := List.length_eq_three.mp hending.length_eq
    have hlower : [dot.toLower, g.toLower, z.toLower] = ['.', 'g', 'z'] := hending
    simp only [List.cons.injEq, and_true] at hlower
    obtain ⟨hdot, hg, hz⟩ := hlower
    obtain rfl : dot = '.' := eq_dot_of_toLower hdot
    refine ⟨stem, [g, z], hstem, ?_, hbase, ?_⟩
    · intro hmem
      rcases List.mem_pair.mp hmem with rfl | rfl
      · exact absurd hg (by decide)
      · exact absurd hz (by decide)
    · rw [List.mem_singleton, ← String.ofList_toList (s := ".gz"), ← hending]

/-- The loop that lists bytes puts those from a place on behind those before it. Bytes are listed by
a loop of the library, which is taken apart here once. -/
theorem toList_loop (data : ByteArray) (i : Nat) (before : List UInt8) :
    ByteArray.toList.loop data i before = before.reverse ++ data.data.toList.drop i := by
  fun_induction ByteArray.toList.loop data i before with
  | case1 i before hi ih =>
    have hi' : i < data.data.toList.length := hi
    rw [ih, List.drop_eq_getElem_cons hi']
    simp [ByteArray.get!, hi]
  | case2 i before hi =>
    have hi' : data.data.toList.length ≤ i := Nat.le_of_not_lt hi
    rw [List.drop_eq_nil_of_le hi']
    simp

/-- The listed bytes are those of the array. -/
theorem toList_eq (data : ByteArray) : data.toList = data.data.toList :=
  toList_loop data 0 []

/-- Files are decompressed for their first two bytes or for an ending behind the start of their base
name, and no others. The directory plays no part. -/
theorem isGzip_iff {f : TraceFile} :
    f.isGzip = true ↔ magic <+: f.data.toList ∨
      ∃ stem ending, stem ≠ [] ∧ f.baseName = stem ++ ending ∧ IsEnding ending := by
  have hbytes : (f.data.extract 0 2).toList = f.data.toList.take 2 := by
    simp [toList_eq]
  have hmagic : magic.isPrefixOf (f.data.toList.take 2) = true ↔ magic <+: f.data.toList := by
    rw [List.isPrefixOf_iff_prefix, List.prefix_take_iff]
    exact and_iff_left (le_refl 2)
  rw [TraceFile.isGzip, Bool.or_eq_true, hbytes, hmagic, decide_eq_true_iff,
    ← hasExtension_iff_exists_ending, FileName.hasExtension_iff]
  simp [TraceFile.extension?]

/-- A member starts with its two bytes, or it has no stream. -/
theorem magic_prefix_of_body? {bytes stream : List UInt8} (h : body? bytes = some stream) :
    magic <+: bytes := by
  obtain ⟨fixed, -, hrest⟩ := Option.bind_eq_some_iff.mp h
  cases hmagic : magic.isPrefixOf bytes with
  | true => exact List.isPrefixOf_iff_prefix.mp hmagic
  | false =>
    -- The check of the first bytes fails before anything behind them is read.
    rw [hmagic] at hrest
    have hnone : none = some stream := hrest
    cases hnone

/-- Whatever can be decompressed is recognized, whatever its name is. So nothing is asked of the
name below. -/
theorem isGzip_of_decompress? {f : TraceFile} {data : ByteArray}
    (h : decompress? f.data = some data) : f.isGzip = true := by
  obtain ⟨stream, hbody, -⟩ := Option.bind_eq_some_iff.mp h
  exact isGzip_iff.mpr (Or.inl (magic_prefix_of_body? hbody))

/-! ## Naming -/

/-- The name that a container promises for its content: its base name without one ending `.gz` in
whatever case, or the whole base name if it has none. The ending is the one that made it a
container. -/
structure Promises (base name : List Char) : Prop where
  /-- One ending is taken off, and no more than that. -/
  without_ending : ∀ stem ending, base = stem ++ ending → IsEnding ending → name = stem
  /-- A name without an ending stays. -/
  whole : (∀ stem ending, base = stem ++ ending → ¬IsEnding ending) → name = base

/-- An ending in small letters is taken off. -/
theorem contentName_append (stem : List Char) : contentName (stem ++ ".gz".toList) = stem := by
  have hsuffix : ".gz".toList.isSuffixOf (stem ++ ".gz".toList) = true :=
    List.isSuffixOf_iff_suffix.mpr (List.suffix_append _ _)
  have hlength : (stem ++ ".gz".toList).length - 3 = stem.length := by simp
  rw [contentName, if_pos hsuffix, hlength, List.take_left']
  rfl

/-- A name without such an ending stays, whatever else it ends in. -/
theorem contentName_eq_self {base : List Char} (h : ∀ stem, base ≠ stem ++ ".gz".toList) :
    contentName base = base := by
  rw [contentName, if_neg]
  rw [List.isSuffixOf_iff_suffix]
  rintro ⟨stem, hstem⟩
  exact h stem hstem.symm

variable {base stem ending : List Char}

/-- A base name is cut before an ending in one way only, since all endings are of one length. -/
theorem eq_of_append_ending (hbase : base = stem ++ ending) (h : IsEnding ending)
    {stem' : List Char} (hlower : base = stem' ++ ".gz".toList) : ending = ".gz".toList :=
  (List.append_inj' (hbase.symm.trans hlower) h.length_eq).2

/-- An ending with a capital letter stays, though it was recognized. -/
theorem contentName_of_capital (hbase : base = stem ++ ending) (h : IsEnding ending)
    (hcapital : ending ≠ ".gz".toList) : contentName base = base :=
  contentName_eq_self fun _ hlower => hcapital (eq_of_append_ending hbase h hlower)

/-- The content has the promised name unless there is an ending with a capital letter. The condition
is exact, so no other name goes wrong. -/
theorem promises_contentName_iff :
    Promises base (contentName base) ↔
      ∀ stem ending, base = stem ++ ending → IsEnding ending → ending = ".gz".toList := by
  constructor
  · intro h stem ending hbase hending
    by_contra hcapital
    have hname := h.without_ending stem ending hbase hending
    rw [contentName_of_capital hbase hending hcapital] at hname
    -- The whole base name is longer than the part before its ending.
    have hlength := congrArg List.length (hname.symm.trans hbase)
    rw [List.length_append, hending.length_eq] at hlength
    omega
  · intro h
    constructor
    · intro stem ending hbase hending
      rw [hbase, h stem ending hbase hending, contentName_append]
    · exact fun hnone => contentName_eq_self fun stem hlower => hnone stem _ hlower rfl

/-- A container that can be decompressed holds one file, whose parent is named by the base name of
the container. -/
theorem unpack?_eq {f : TraceFile} {data : ByteArray} (h : decompress? f.data = some data) :
    unpack? f = some [{
      name := String.ofList (contentName f.baseName)
      parent := some (String.ofList f.baseName)
      data }] := by
  rw [unpack?, if_pos (isGzip_of_decompress? h), h]
  rfl

/-- **Content of a container.** A container that can be decompressed is recognized and holds one
file, which has the container's base name as its parent. The name is the promised one unless the
base name ends in `.gz` with a capital letter, which stays in the name. -/
theorem unpack?_named {f : TraceFile} {data : ByteArray} (h : decompress? f.data = some data) :
    f.isGzip = true ∧ ∃ name,
      unpack? f =
        some [{ name := String.ofList name, parent := some (String.ofList f.baseName), data }] ∧
      (Promises f.baseName name ↔
        ∀ stem ending, f.baseName = stem ++ ending → IsEnding ending → ending = ".gz".toList) ∧
      ∀ stem ending, f.baseName = stem ++ ending → IsEnding ending → ending ≠ ".gz".toList →
        name = f.baseName := by
  exact ⟨isGzip_of_decompress? h, contentName f.baseName, unpack?_eq h, promises_contentName_iff,
    fun _ _ => contentName_of_capital⟩

/-- A compressed file whose content is an empty object. -/
def emptyObject : ByteArray :=
  [0x1f, 0x8b, 0x08, 0, 0, 0, 0, 0, 0x02, 0xff, 0xab, 0xae, 0x05, 0, 0x43, 0xbf, 0xa6, 0xa3, 0x02,
    0, 0, 0].toByteArray

set_option maxRecDepth 4000 in
/-- The two characters of an empty object are found, and their checksum is right. -/
theorem decompress?_emptyObject : decompress? emptyObject = some "{}".toUTF8 := by
  cbv

/-- The ending goes where it is in small letters. -/
theorem unpack?_named_lower_case :
    let f : TraceFile := { name := "dir/wm.json.gz", data := emptyObject }
    decompress? f.data = some "{}".toUTF8 ∧
      unpack? f =
        some [{ name := "wm.json", parent := some "wm.json.gz", data := "{}".toUTF8 }] := by
  intro f
  have hbase : f.baseName = "wm.json".toList ++ ".gz".toList := by decide
  obtain ⟨-, name, hunpack, hpromises, -⟩ := unpack?_named (f := f) decompress?_emptyObject
  have hlower : ∀ stem ending, f.baseName = stem ++ ending → IsEnding ending →
      ending = ".gz".toList := fun stem ending h hending => eq_of_append_ending h hending hbase
  have hname : name = "wm.json".toList := (hpromises.mpr hlower).without_ending _ _ hbase rfl
  rw [hname, hbase] at hunpack
  exact ⟨decompress?_emptyObject, hunpack⟩

/-- An ending with a capital letter is promised to go and stays. -/
theorem not_forall_promises :
    ¬∀ (f : TraceFile) (data : ByteArray), f.isGzip = true → decompress? f.data = some data →
      ∃ name,
        unpack? f =
          some [{ name := String.ofList name, parent := some (String.ofList f.baseName), data }] ∧
        Promises f.baseName name := by
  intro h
  let f : TraceFile := { name := "WM.JSON.GZ", data := emptyObject }
  have hbase : f.baseName = "WM.JSON".toList ++ ".GZ".toList := by decide
  have hending : IsEnding ".GZ".toList := by
    rw [IsEnding]
    decide
  obtain ⟨name, hunpack, hpromises⟩ :=
    h f _ (isGzip_of_decompress? decompress?_emptyObject) decompress?_emptyObject
  have hpromised : name = "WM.JSON".toList := hpromises.without_ending _ _ hbase hending
  have hkept : contentName f.baseName = "WM.JSON.GZ".toList := by decide
  rw [unpack?_eq (f := f) decompress?_emptyObject, hkept, hpromised] at hunpack
  have hnames := congrArg (Option.map (List.map TraceFile.name)) hunpack
  exact absurd hnames (by decide)

end Gzip

end FrameAlign
