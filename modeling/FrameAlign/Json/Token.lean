import FrameAlign.Json.Number

/-!
# The tokens of a JSON document

The bytes of a document are cut into tokens from left to right. Where the bytes form no token the
list ends with `invalid`. A string is cut by its grammar alone and holds its text only if that is
well-formed, and a number holds its value only if that is in range, so that the parts of a
document that nobody asks for may hold either.
-/

namespace FrameAlign.Json

/-- A token of a document. -/
inductive Token where
  | openArray
  | closeArray
  | openObject
  | closeObject
  | colon
  | comma
  | null
  | bool (b : Bool)
  | number (value : Option Number)
  | string (text : Option String)
  | invalid
deriving Inhabited, BEq

namespace Token

/-- Whether the byte is a decimal digit. -/
def isDigit (c : UInt8) : Bool := 0x30 ≤ c && c ≤ 0x39

/-- The value of a hexadecimal digit. -/
def hexValue? (c : UInt8) : Option Nat :=
  if 0x30 ≤ c && c ≤ 0x39 then some (c.toNat - 0x30)
  else if 0x41 ≤ c && c ≤ 0x46 then some (c.toNat - 0x37)
  else if 0x61 ≤ c && c ≤ 0x66 then some (c.toNat - 0x57)
  else none

/-- The value of four hexadecimal digits. -/
def hexUnit? (a b c d : UInt8) : Option Nat := do
  return (((← hexValue? a) * 16 + (← hexValue? b)) * 16 + (← hexValue? c)) * 16 + (← hexValue? d)

/-- The byte that the letter of a short escape stands for. -/
def shortEscape? (c : UInt8) : Option UInt8 :=
  if c = 0x22 || c = 0x5c || c = 0x2f then some c
  else if c = 0x62 then some 0x08
  else if c = 0x66 then some 0x0c
  else if c = 0x6e then some 0x0a
  else if c = 0x72 then some 0x0d
  else if c = 0x74 then some 0x09
  else none

/--
The bytes of a string up to its closing quote, which come reversed and with their escapes, and the
bytes after the quote. Nothing for a string that does not end or breaks the grammar.
-/
def scanString (taken : List UInt8) : List UInt8 → Option (List UInt8 × List UInt8)
  | [] => none
  | c :: rest =>
    if c = 0x22 then some (taken, rest)
    else if c < 0x20 then none
    else if c = 0x5c then
      match rest with
      | [] => none
      | e :: more =>
        if e = 0x75 then
          match more with
          | h₁ :: h₂ :: h₃ :: h₄ :: after =>
            if (hexUnit? h₁ h₂ h₃ h₄).isSome then
              scanString (h₄ :: h₃ :: h₂ :: h₁ :: e :: c :: taken) after
            else none
          | _ => none
        else if (shortEscape? e).isSome then scanString (e :: c :: taken) more
        else none
    else scanString (c :: taken) rest

/-- A text that is read to its closing quote uses up at least that quote, escapes included. -/
theorem length_lt_of_scanString {taken s text rest : List UInt8}
    (h : scanString taken s = some (text, rest)) : rest.length < s.length := by
  induction hn : s.length using Nat.strongRecOn generalizing taken s with
  | ind n ih =>
    subst hn
    have hshorter : ∀ taken' s', s'.length < s.length →
        scanString taken' s' = some (text, rest) → rest.length < s.length :=
      fun taken' s' hlt h' => Nat.lt_trans (ih _ hlt h' rfl) hlt
    -- Either the closing quote comes first or the scan goes on with fewer bytes.
    unfold scanString at h
    repeat' split at h
    all_goals first
      | contradiction
      | exact hshorter _ _ (by simp only [List.length_cons]; omega) h
      | (cases h; exact Nat.lt_succ_self _)

/-- The bytes of the character with the given code point, which is no surrogate. -/
def utf8Bytes (n : Nat) : List UInt8 := (String.singleton (Char.ofNat n)).toUTF8.toList

/--
The bytes that the grammatical content of a string stands for, added in reverse to those in front.
Nothing where half of a surrogate pair stands alone.
-/
def unescape (done : List UInt8) : List UInt8 → Option (List UInt8)
  | [] => some done
  | c :: rest =>
    if c ≠ 0x5c then unescape (c :: done) rest
    else
      match rest with
      | [] => none
      | e :: more =>
        if e ≠ 0x75 then
          match shortEscape? e with
          | some b => unescape (b :: done) more
          | none => none
        else
          match more with
          | h₁ :: h₂ :: h₃ :: h₄ :: after =>
            match hexUnit? h₁ h₂ h₃ h₄ with
            | none => none
            | some unit =>
              if unit < 0xd800 || 0xdfff < unit then
                unescape ((utf8Bytes unit).reverse ++ done) after
              else if 0xdbff < unit then none
              else
                match after with
                | 0x5c :: 0x75 :: l₁ :: l₂ :: l₃ :: l₄ :: last =>
                  match hexUnit? l₁ l₂ l₃ l₄ with
                  | none => none
                  | some low =>
                    if low < 0xdc00 || 0xdfff < low then none
                    else
                      let n := (unit - 0xd800) * 1024 + (low - 0xdc00) + 0x10000
                      unescape ((utf8Bytes n).reverse ++ done) last
                | _ => none
          | _ => none

/-- The text of a string with the given grammatical content. -/
def decodeString (content : List UInt8) : Option String := do
  String.fromUTF8? (ByteArray.mk (← unescape [] content).reverse.toArray)

/-- The digits in front of some bytes, and the bytes after them. -/
def spanDigits (s : List UInt8) : List UInt8 × List UInt8 :=
  (s.takeWhile isDigit, s.dropWhile isDigit)

/-- A run of digits may be empty, so what is behind it is no longer than the whole. -/
theorem length_spanDigits_le (s : List UInt8) : (spanDigits s).2.length ≤ s.length := by
  have h := congrArg List.length (List.takeWhile_append_dropWhile (p := isDigit) (l := s))
  simp only [List.length_append] at h
  simp only [spanDigits]
  omega

/-- The fraction of a number if there is one: a point and at least one digit. -/
def scanFraction : List UInt8 → Option (List UInt8 × List UInt8)
  | 0x2e :: rest =>
    let (digits, after) := spanDigits rest
    if digits.isEmpty then none else some (digits, after)
  | rest => some ([], rest)

/-- Whether some bytes start with a minus sign, and the bytes after a sign of either kind. -/
def scanSign : List UInt8 → Bool × List UInt8
  | [] => (false, [])
  | c :: rest => if c = 0x2d then (true, rest) else (false, if c = 0x2b then rest else c :: rest)

/-- A sign is one byte or none, so what is behind it is no longer than the whole. -/
theorem length_scanSign_le (s : List UInt8) : (scanSign s).2.length ≤ s.length := by
  cases s with
  | nil => simp [scanSign]
  | cons c rest =>
    simp only [scanSign]
    split
    · simp
    · dsimp only
      split <;> simp

/-- The exponent of a number if there is one: a mark, a sign or none, and at least one digit. -/
def scanExponent : List UInt8 → Option (Option Int × List UInt8)
  | [] => some (none, [])
  | c :: rest =>
    if c = 0x65 || c = 0x45 then
      let signed := scanSign rest
      let (digits, after) := spanDigits signed.2
      if digits.isEmpty then none
      else
        let n : Int := digits.foldl (fun acc d => acc * 10 + Number.digitValue d) 0
        some (some (if signed.1 then -n else n), after)
    else some (none, c :: rest)

/-- The parts of the number in front of some bytes, without its sign, and the bytes after it. -/
def scanUnsigned (negative : Bool) (s : List UInt8) : Option (Number.Parts × List UInt8) :=
  let (whole, rest) := spanDigits s
  if whole.isEmpty || (whole.head? = some 0x30 && 1 < whole.length) then none
  else do
    let (fraction, rest) ← scanFraction rest
    let (exponent, rest) ← scanExponent rest
    return ({ negative, whole, fraction, exponent }, rest)

/-- The fraction of a number may be left out, so what is behind it is no longer than the whole. -/
theorem length_le_of_scanFraction {s d rest : List UInt8} (h : scanFraction s = some (d, rest)) :
    rest.length ≤ s.length := by
  unfold scanFraction at h
  split at h
  · next r =>
    have := length_spanDigits_le r
    simp only [Option.ite_none_left_eq_some, Option.some.injEq, Prod.mk.injEq] at h
    simp only [List.length_cons, ← h.2.2]
    omega
  · simp_all

/-- The exponent of a number may be left out, so what is behind it is no longer than the whole. -/
theorem length_le_of_scanExponent {s rest : List UInt8} {e : Option Int}
    (h : scanExponent s = some (e, rest)) : rest.length ≤ s.length := by
  cases s with
  | nil => simp_all [scanExponent]
  | cons c r =>
    simp only [scanExponent] at h
    split at h
    · simp only [Option.ite_none_left_eq_some, Option.some.injEq, Prod.mk.injEq] at h
      rw [← h.2.2, List.length_cons]
      have := length_spanDigits_le (scanSign r).2
      have := length_scanSign_le r
      omega
    · simp_all

/-- A number has at least one digit, so the scan of a document goes on with fewer bytes. -/
theorem length_lt_of_scanUnsigned {negative : Bool} {s rest : List UInt8} {p : Number.Parts}
    (h : scanUnsigned negative s = some (p, rest)) : rest.length < s.length := by
  unfold scanUnsigned at h
  dsimp only at h
  split at h
  · simp at h
  · next hw =>
    simp only [Option.bind_eq_bind, Option.bind_eq_some_iff, Option.pure_def, Option.some.injEq,
      Prod.mk.injEq, Prod.exists] at h
    obtain ⟨f, r₁, h₁, e, r₂, h₂, -, rfl⟩ := h
    have l₁ := length_le_of_scanFraction h₁
    have l₂ := length_le_of_scanExponent h₂
    have hs := congrArg List.length (List.takeWhile_append_dropWhile (p := isDigit) (l := s))
    simp only [spanDigits, Bool.or_eq_true, not_or] at hw l₁
    have hpos : 0 < (s.takeWhile isDigit).length := by
      rw [List.length_pos_iff]
      intro e
      simp [e] at hw
    simp only [List.length_append] at hs
    omega

/-- The bytes after a word, if the bytes start with it. -/
def dropWord? (word s : List UInt8) : Option (List UInt8) :=
  if word.isPrefixOf s then some (s.drop word.length) else none

/-- What is behind a word is no longer than the text that starts with it. -/
theorem length_le_of_dropWord? {word s rest : List UInt8} (h : dropWord? word s = some rest) :
    rest.length ≤ s.length := by
  simp only [dropWord?, Option.ite_none_right_eq_some, Option.some.injEq] at h
  rw [← h.2, List.length_drop]
  omega

/-- The bytes after the first one are fewer, and scanners leave at most those. -/
private theorem lt_of_le {n m : Nat} (h : n ≤ m) : n < m + 1 := Nat.lt_succ_of_le h

/-- The tokens of a document, added in reverse to those in front. -/
def scan (done : List Token) : List UInt8 → List Token
  | [] => done
  | c :: rest =>
    if c = 0x20 || c = 0x0a || c = 0x0d || c = 0x09 then scan done rest
    else if c = 0x5b then scan (.openArray :: done) rest
    else if c = 0x5d then scan (.closeArray :: done) rest
    else if c = 0x7b then scan (.openObject :: done) rest
    else if c = 0x7d then scan (.closeObject :: done) rest
    else if c = 0x3a then scan (.colon :: done) rest
    else if c = 0x2c then scan (.comma :: done) rest
    else if c = 0x22 then
      match _h : scanString [] rest with
      | some (content, after) => scan (.string (decodeString content.reverse) :: done) after
      | none => .invalid :: done
    else if c = 0x6e then
      match _h : dropWord? [0x75, 0x6c, 0x6c] rest with
      | some after => scan (.null :: done) after
      | none => .invalid :: done
    else if c = 0x74 then
      match _h : dropWord? [0x72, 0x75, 0x65] rest with
      | some after => scan (.bool true :: done) after
      | none => .invalid :: done
    else if c = 0x66 then
      match _h : dropWord? [0x61, 0x6c, 0x73, 0x65] rest with
      | some after => scan (.bool false :: done) after
      | none => .invalid :: done
    else if c = 0x2d then
      match _h : scanUnsigned true rest with
      | some (parts, after) => scan (.number (Number.ofParts? parts) :: done) after
      | none => .invalid :: done
    else
      match _h : scanUnsigned false (c :: rest) with
      | some (parts, after) => scan (.number (Number.ofParts? parts) :: done) after
      | none => .invalid :: done
termination_by s => s.length
decreasing_by
  all_goals first
    | exact Nat.lt_succ_self _
    | exact Nat.lt_succ_of_lt (length_lt_of_scanString _h)
    | exact lt_of_le (length_le_of_dropWord? _h)
    | exact Nat.lt_succ_of_lt (length_lt_of_scanUnsigned _h)
    | exact length_lt_of_scanUnsigned _h

/-- The tokens of a document. -/
def ofBytes (bytes : List UInt8) : List Token := (scan [] bytes).reverse

end Token

end FrameAlign.Json
