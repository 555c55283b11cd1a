import Mathlib.Data.Int.Log
import Mathlib.Data.Rat.Floor
import Mathlib.Tactic.Linarith
import TPBench.CFile.Text

/-!
# Doubles and their Decimals

A `double` is its bit pattern, and a finite one is a rational number (`doubleValue`). The text of
`%.15g` is made of the decimal with 15 significant digits that is nearest to the number
(`digits15`), with an exponent when that is smaller than -4 or greater than 14, and without the
zeros at the end of its fraction (`formatG15`).

What a reader of integers finds at the front of such a text is the integer in front of its point
(`digitsNat_front_formatMag15`, `splitSign_formatG15`): the integer part of the decimal, and its
first digit alone when it has an exponent (`leadNat`).
-/

namespace CFile

/-! ### Values -/

/-- The number a bit pattern stands for: none for an infinity and for what is not a number. -/
def doubleValue (d : UInt64) : Option ℚ :=
  let field : ℕ := d.toNat / 2 ^ 52 % 2 ^ 11
  let fraction : ℕ := d.toNat % 2 ^ 52
  let sign : ℚ := if d.toNat / 2 ^ 63 = 1 then -1 else 1
  if field = 2047 then none
  else if field = 0 then some (sign * (fraction * 2 ^ (-1074 : ℤ)))
  else some (sign * ((2 ^ 52 + fraction : ℕ) * 2 ^ ((field : ℤ) - 1075)))

/-- A number without its fraction. -/
def truncate (q : ℚ) : ℤ := if q < 0 then ⌈q⌉ else ⌊q⌋

/-- A number rounded to an integer, ties to the even one. -/
def roundEven (q : ℚ) : ℤ :=
  if q - ⌊q⌋ < 1 / 2 then ⌊q⌋ else if 1 / 2 < q - ⌊q⌋ then ⌊q⌋ + 1 else ⌊q⌋ + ⌊q⌋ % 2

theorem truncate_intCast (i : ℤ) : truncate i = i := by
  rw [truncate, Int.ceil_intCast, Int.floor_intCast, ite_self]

theorem roundEven_le (q : ℚ) : roundEven q ≤ ⌊q⌋ + 1 := by
  rw [roundEven]
  split_ifs
  · omega
  · omega
  · omega

/-! ### Fifteen digits -/

/-- The decimal with 15 significant digits that is nearest to a positive number: its digits, and
the exponent of the first one. -/
def digits15 (q : ℚ) : ℕ × ℤ :=
  let x := Int.log 10 q
  let m := (roundEven (q * 10 ^ (14 - x))).toNat
  if m = 10 ^ 15 then (10 ^ 14, x + 1) else (m, x)

/-- A fraction without the zeros at its end, and without its point when nothing is left. -/
def formatFraction (digits : Bytes) : Bytes :=
  let kept := (digits.reverse.dropWhile (· = 48)).reverse
  if kept = [] then [] else 46 :: kept

/-- `e`, a sign and at least two digits. -/
def formatExponent (x : ℤ) : Bytes := 101 :: (if x < 0 then 45 else 43) :: padded 2 x.natAbs

/-- The number of digits behind the point, and whether an exponent is written. -/
def pointOf (x : ℤ) : ℕ × Bool := if -4 ≤ x ∧ x < 15 then ((14 - x).toNat, false) else (14, true)

/-- `%.15g` of a positive number. -/
def formatMag15 (q : ℚ) : Bytes :=
  let r := digits15 q
  let p := pointOf r.2
  formatD (r.1 / 10 ^ p.1) ++
    (formatFraction (padded p.1 (r.1 % 10 ^ p.1)) ++ if p.2 then formatExponent r.2 else [])

/-- `%.15g` of a number that is not zero. -/
def formatG15 (q : ℚ) : Bytes := if q < 0 then 45 :: formatMag15 (-q) else formatMag15 q

/-- The integer in front of the point. -/
def leadNat (q : ℚ) : ℕ := (digits15 q).1 / 10 ^ (pointOf (digits15 q).2).1

/-- The integer the text of a `double` begins with, when integers are printed as such. -/
def leadInt (q : ℚ) : ℤ :=
  if q.den = 1 then q.num else if q < 0 then -leadNat (-q) else leadNat q

section Lead

/-- Behind the integer there is no digit. -/
theorem takeWhile_isdigit_formatMag15 (q : ℚ) :
    (formatMag15 q).takeWhile isdigit = formatD (leadNat q) := by
  have hstop : ∀ rest : Bytes, (∀ b ∈ rest.head?, isdigit b = false) →
      rest.takeWhile isdigit = [] := by
    intro rest hrest
    rcases rest with - | ⟨b, rest⟩
    · rfl
    · exact List.takeWhile_cons_of_neg (by simp [hrest b rfl])
  rw [formatMag15, List.takeWhile_append_of_pos fun b hb => isdigit_of_mem_formatD hb,
    hstop _ ?_, List.append_nil, leadNat]
  intro b hb
  rw [formatFraction] at hb
  split_ifs at hb
  · obtain rfl : 101 = b := by simpa [formatExponent] using hb
    rfl
  · cases hb
  · obtain rfl : 46 = b := by simpa using hb
    rfl
  · obtain rfl : 46 = b := by simpa using hb
    rfl

/-- A reader of digits finds the integer in front of the point. -/
theorem digitsNat_front_formatMag15 (q : ℚ) :
    digitsNat ((formatMag15 q).takeWhile isdigit) = leadNat q := by
  rw [takeWhile_isdigit_formatMag15, digitsNat_formatD]

/-- The text of a magnitude begins with a digit. -/
theorem exists_formatMag15 (q : ℚ) : ∃ b bs, formatMag15 q = b :: bs ∧ isdigit b = true := by
  obtain ⟨b, bs, hbs⟩ := List.exists_cons_of_ne_nil
    (formatD_ne_nil ((digits15 q).1 / 10 ^ (pointOf (digits15 q).2).1))
  refine ⟨b, bs ++ _, by rw [formatMag15, hbs, List.cons_append], ?_⟩
  exact isdigit_of_mem_formatD (by rw [hbs]; exact List.mem_cons_self)

/-- The sign in front of a text of `%.15g`. -/
theorem splitSign_formatG15 (q : ℚ) :
    splitSign (formatG15 q) =
      if q < 0 then (-1, formatMag15 (-q)) else (1, formatMag15 q) := by
  rw [formatG15]
  split_ifs
  · rfl
  · obtain ⟨b, bs, hbs, hb⟩ := exists_formatMag15 q
    rw [hbs, splitSign_of_isdigit hb]

theorem digits15_lt (q : ℚ) : (digits15 q).1 < 10 ^ 15 := by
  have hlt : q * 10 ^ (14 - Int.log 10 q) < 10 ^ 15 := by
    have hlog := Int.lt_zpow_succ_log_self (b := 10) (by norm_num) q
    have hpow : (0 : ℚ) < 10 ^ (14 - Int.log 10 q) := zpow_pos (by norm_num) _
    calc q * 10 ^ (14 - Int.log 10 q)
        < 10 ^ (Int.log 10 q + 1) * 10 ^ (14 - Int.log 10 q) := by
          refine mul_lt_mul_of_pos_right ?_ hpow
          exact_mod_cast hlog
      _ = 10 ^ (15 : ℤ) := by
          rw [← zpow_add₀ (by norm_num)]
          congr 1
          ring
      _ = 10 ^ 15 := by norm_num
  have hfloor : ⌊q * 10 ^ (14 - Int.log 10 q)⌋ < 10 ^ 15 := by
    rw [Int.floor_lt]
    exact_mod_cast hlt
  have hround := roundEven_le (q * 10 ^ (14 - Int.log 10 q))
  rw [digits15]
  split_ifs with hm
  · norm_num
  · simp only at hm ⊢
    omega

/-- The integer in front of the point has at most 15 digits. -/
theorem leadNat_lt (q : ℚ) : leadNat q < 10 ^ 15 :=
  lt_of_le_of_lt (Nat.div_le_self _ _) (digits15_lt q)

end Lead

end CFile
