/-!
# Decimals of a fixed width

Numbers with a fixed number of digits, and quotients rounded to a fixed number of decimal places, a
half going to the even neighbour.
-/

namespace FrameAlign

/-- `n` in decimal with leading zeros up to `width` digits. -/
def Columns.zeros (width n : Nat) : String :=
  let digits := toString n
  String.ofList (List.replicate (width - digits.length) '0') ++ digits

namespace Fixed

/-- The whole number nearest to `num / den`, the even one of two. -/
def roundDiv (num den : Nat) : Nat :=
  let rest := num % den
  let up := den < 2 * rest || (den = 2 * rest && num / den % 2 = 1)
  num / den + if up then 1 else 0

/-- `num / den` with the given number of decimal places. -/
def text (places num den : Nat) : String :=
  let scaled := roundDiv (num * Nat.pow 10 places) den
  toString (scaled / Nat.pow 10 places) ++ "." ++ Columns.zeros places (scaled % Nat.pow 10 places)

/-- Rounding moves a quotient by at most one half. -/
theorem roundDiv_near (num den : Nat) (h : 0 < den) :
    2 * (roundDiv num den * den) ≤ 2 * num + den ∧
      2 * num ≤ 2 * (roundDiv num den * den) + den := by
  have hm := Nat.div_add_mod num den
  have hl := Nat.mod_lt num h
  have hc : num / den * den = den * (num / den) := Nat.mul_comm _ _
  unfold roundDiv
  dsimp only
  split
  · next hup =>
    simp only [Bool.or_eq_true, Bool.and_eq_true, decide_eq_true_eq] at hup
    rw [Nat.add_mul]
    omega
  · next hup =>
    simp only [Bool.or_eq_true, Bool.and_eq_true, decide_eq_true_eq, not_or, not_and] at hup
    simp only [Nat.add_zero]
    omega

end Fixed

end FrameAlign
