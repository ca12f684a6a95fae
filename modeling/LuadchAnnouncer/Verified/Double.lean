import Mathlib.Data.Int.Log
import Mathlib.Data.Rat.Floor
import Mathlib.Tactic.Linarith
import Mathlib.Tactic.Positivity

/-!
# Rounding to doubles

A binary64 number is a whole multiple, of 53 bits at most, of a power of two
that is not below `2 ^ -1074`.  The result of an operation is the exact one,
rounded to the nearest such number, and to the one with an even last bit
where two are equally near.  This module is that rounding on the rationals,
without the overflow to infinity, which the caller decides on by the exact
result.

The unit `unit q` is the weight of the last bit at the magnitude of `q`, and
`nearest q` the multiple of it next to `q`.  Nothing else of floating point
is here: an operation is the exact operation and `nearest`, and an integer is
made a double by `nearest` as well.

What a proof needs of a rounding is that it cannot pass a number that can be
represented.  `nearest_le` and `le_nearest` say that in both directions; so such a
number is rounded to itself.

## Main results

* `nearest_le`, `le_nearest` — on which side of a double the rounded value
  lies is known from the exact one, as long as that is not strict.
* `abs_nearest_le` — so a bound on the magnitude is kept.
* `nearest_lt` — a strict bound is kept where there is a double in between.
-/

namespace LuadchAnnouncer.Verified.Double

/-- The nearest integer, ties to even. -/
def roundEven (q : ℚ) : ℤ :=
  let f := ⌊q⌋
  let r := q - f
  if r < 1 / 2 then f else if 1 / 2 < r then f + 1
  else if f % 2 = 0 then f else f + 1

/-- The weight of the last of 53 bits at the magnitude of `q`, and no less than
that of the smallest subnormal number. -/
def unit (q : ℚ) : ℚ := 2 ^ max (Int.log 2 |q| - 52) (-1074)

/-- The nearest double, ties to even. -/
def nearest (q : ℚ) : ℚ := roundEven (q / unit q) * unit q

/-! ## Rounding to an integer -/

/-- Rounding does not pass an integer. -/
theorem roundEven_le {q : ℚ} {m : ℤ} (h : q ≤ m) : roundEven q ≤ m := by
  have hfloor : ⌊q⌋ ≤ m := by
    have hle := Int.floor_le q
    exact_mod_cast le_trans hle h
  have hceil : ⌊q⌋ < q → ⌊q⌋ + 1 ≤ m := by
    intro hlt
    have hm : ((⌊q⌋ : ℤ) : ℚ) < m := lt_of_lt_of_le hlt h
    have hm' : ⌊q⌋ < m := by exact_mod_cast hm
    omega
  unfold roundEven
  simp only
  split_ifs with hlow hhigh heven
  · exact hfloor
  · exact hceil (by linarith)
  · exact hfloor
  · exact hceil (by linarith)

theorem le_roundEven {q : ℚ} {m : ℤ} (h : (m : ℚ) ≤ q) : m ≤ roundEven q := by
  have hfloor : m ≤ ⌊q⌋ := Int.le_floor.mpr h
  unfold roundEven
  simp only
  split_ifs <;> omega

/-! ## The unit -/

theorem unit_pos (q : ℚ) : 0 < unit q := zpow_pos (by norm_num) _

/-- A multiple of the unit is not passed. -/
theorem nearest_le_mul {q : ℚ} {m : ℤ} (h : q ≤ m * unit q) : nearest q ≤ m * unit q := by
  have hdiv : q / unit q ≤ m := (div_le_iff₀ (unit_pos q)).mpr h
  have hround : ((roundEven (q / unit q) : ℤ) : ℚ) ≤ m := by
    exact_mod_cast roundEven_le hdiv
  exact mul_le_mul_of_nonneg_right hround (le_of_lt (unit_pos q))

theorem mul_le_nearest {q : ℚ} {m : ℤ} (h : m * unit q ≤ q) : m * unit q ≤ nearest q := by
  have hdiv : (m : ℚ) ≤ q / unit q := (le_div_iff₀ (unit_pos q)).mpr h
  have hround : (m : ℚ) ≤ (roundEven (q / unit q) : ℤ) := by
    exact_mod_cast le_roundEven hdiv
  exact mul_le_mul_of_nonneg_right hround (le_of_lt (unit_pos q))

/-- A double is a multiple of the unit at the magnitude of `q`, unless it is
too small for that, and then there is a power of two between the two.  At zero
there is no magnitude to speak of. -/
theorem multiple_or_small {q : ℚ} (hq : q ≠ 0) {z k : ℤ} (hz : |z| ≤ 2 ^ 53)
    (hk : -1074 ≤ k) :
    (∃ m : ℤ, (z : ℚ) * 2 ^ k = m * unit q) ∨
      (|(z : ℚ) * 2 ^ k| ≤ (2 ^ 52 : ℤ) * unit q ∧ (2 ^ 52 : ℤ) * unit q ≤ |q|) := by
  have htwo : (2 : ℚ) ≠ 0 := by norm_num
  by_cases hfine : max (Int.log 2 |q| - 52) (-1074) ≤ k
  case pos =>
    left
    obtain ⟨n, hn⟩ := Int.eq_ofNat_of_zero_le (Int.sub_nonneg.mpr hfine)
    refine ⟨z * 2 ^ n, ?_⟩
    have hsplit : (2 : ℚ) ^ k = 2 ^ n * unit q := by
      rw [unit, ← zpow_natCast, ← zpow_add₀ htwo]
      congr 1
      omega
    rw [hsplit]
    push_cast
    ring
  case neg =>
    right
    have hexp : max (Int.log 2 |q| - 52) (-1074) = Int.log 2 |q| - 52 := by omega
    have hunit : (2 ^ 52 : ℤ) * unit q = 2 ^ Int.log 2 |q| := by
      have hcast : ((2 ^ 52 : ℤ) : ℚ) = 2 ^ (52 : ℤ) := by norm_num
      rw [unit, hexp, hcast, ← zpow_add₀ htwo]
      congr 1
      omega
    rw [hunit]
    constructor
    · rw [abs_mul, abs_of_pos (zpow_pos (by norm_num : (0 : ℚ) < 2) k)]
      have hz' : |(z : ℚ)| ≤ 2 ^ (53 : ℤ) := by
        rw [← Int.cast_abs]
        exact_mod_cast hz
      calc |(z : ℚ)| * 2 ^ k ≤ 2 ^ (53 : ℤ) * 2 ^ k :=
            mul_le_mul_of_nonneg_right hz' (le_of_lt (zpow_pos (by norm_num) k))
        _ = 2 ^ (53 + k) := (zpow_add₀ htwo 53 k).symm
        _ ≤ 2 ^ Int.log 2 |q| := zpow_le_zpow_right₀ (by norm_num) (by omega)
    · exact_mod_cast Int.zpow_log_le_self (by norm_num : 1 < 2) (abs_pos.mpr hq)

/-! ## The nearest double -/

theorem nearest_zero : nearest 0 = 0 := by
  have hround : roundEven 0 = 0 :=
    le_antisymm (roundEven_le (le_refl _)) (le_roundEven (le_refl _))
  rw [nearest, zero_div, hround, Int.cast_zero, zero_mul]

/-- Rounding does not pass a double from below. -/
theorem nearest_le {q : ℚ} {z k : ℤ} (hz : |z| ≤ 2 ^ 53) (hk : -1074 ≤ k)
    (h : q ≤ z * 2 ^ k) : nearest q ≤ z * 2 ^ k := by
  rcases eq_or_ne q 0 with rfl | hzero
  · rwa [nearest_zero]
  rcases multiple_or_small hzero hz hk with ⟨m, hm⟩ | ⟨hsmall, hbig⟩
  · rw [hm] at h ⊢
    exact nearest_le_mul h
  · obtain ⟨hlow, hhigh⟩ := abs_le.mp hsmall
    rcases abs_cases q with ⟨habs, -⟩ | ⟨habs, -⟩
    · rw [habs] at hbig
      exact le_trans (nearest_le_mul (le_trans h hhigh)) (le_trans hbig h)
    · rw [habs] at hbig
      have hneg : nearest q ≤ (-2 ^ 52 : ℤ) * unit q := by
        apply nearest_le_mul
        push_cast at hbig ⊢
        linarith
      push_cast at hneg hlow
      linarith

/-- Rounding does not pass a double from above. -/
theorem le_nearest {q : ℚ} {z k : ℤ} (hz : |z| ≤ 2 ^ 53) (hk : -1074 ≤ k)
    (h : z * 2 ^ k ≤ q) : z * 2 ^ k ≤ nearest q := by
  rcases eq_or_ne q 0 with rfl | hzero
  · rwa [nearest_zero]
  rcases multiple_or_small hzero hz hk with ⟨m, hm⟩ | ⟨hsmall, hbig⟩
  · rw [hm] at h ⊢
    exact mul_le_nearest h
  · obtain ⟨hlow, hhigh⟩ := abs_le.mp hsmall
    rcases abs_cases q with ⟨habs, -⟩ | ⟨habs, -⟩
    · rw [habs] at hbig
      exact le_trans hhigh (mul_le_nearest hbig)
    · rw [habs] at hbig
      have hneg : (-2 ^ 52 : ℤ) * unit q ≤ nearest q := by
        apply mul_le_nearest
        push_cast at hlow ⊢
        linarith
      push_cast at hneg hbig
      linarith

/-- A bound on the magnitude is kept. -/
theorem abs_nearest_le {q : ℚ} {z k : ℤ} (hz : |z| ≤ 2 ^ 53) (hk : -1074 ≤ k)
    (h : |q| ≤ z * 2 ^ k) : |nearest q| ≤ z * 2 ^ k := by
  obtain ⟨hlow, hhigh⟩ := abs_le.mp h
  have hneg : -((z : ℚ) * 2 ^ k) = ((-z : ℤ) : ℚ) * 2 ^ k := by push_cast; ring
  rw [abs_le]
  refine ⟨?_, nearest_le hz hk hhigh⟩
  rw [hneg] at hlow ⊢
  exact le_nearest (by rwa [abs_neg]) hk hlow

/-- A double strictly between keeps a strict bound. -/
theorem nearest_lt {q b : ℚ} {z k : ℤ} (hz : |z| ≤ 2 ^ 53) (hk : -1074 ≤ k)
    (hq : q ≤ z * 2 ^ k) (hb : (z : ℚ) * 2 ^ k < b) : nearest q < b :=
  lt_of_le_of_lt (nearest_le hz hk hq) hb

section

variable {q : ℚ} {i : ℤ}

theorem nearest_le_int (hi : |i| ≤ 2 ^ 53) (h : q ≤ i) : nearest q ≤ i := by
  simpa using nearest_le (k := 0) hi (by norm_num) (by simpa using h)

theorem int_le_nearest (hi : |i| ≤ 2 ^ 53) (h : (i : ℚ) ≤ q) : (i : ℚ) ≤ nearest q := by
  simpa using le_nearest (k := 0) hi (by norm_num) (by simpa using h)

end

end LuadchAnnouncer.Verified.Double
