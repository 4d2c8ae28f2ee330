/-
Rounding to a fixed number of decimals.

`round u x` is the multiple of `1 / u` closest to `x`, the larger one of two.
Where it lies is decided by where `x` lies between the midpoints:

    round_le_iff    at most `b`: below the midpoint over the grid point under `b`
    le_round_iff    at least `a`: from the midpoint under the grid point over `a`
    round_mono      rounding keeps the order
    round_grid      the multiples stay
    abs_round_sub_le   half a step at most
    round_neg       below zero it is the same but at the midpoints

`roundAway` treats a number below zero like the one above at the midpoints, too.
-/
import Mathlib.Algebra.Order.Floor.Ring
import Mathlib.Algebra.Order.Field.Basic
import Mathlib.Tactic.Linarith
import Mathlib.Tactic.NormNum
import Mathlib.Tactic.Ring

namespace Fixed

variable {K : Type} [Field K] [LinearOrder K] [IsStrictOrderedRing K] [FloorRing K]

/-- The multiple of `1 / u` closest to `x`; of two, the larger. -/
def round (u x : K) : K := ⌊x * u + 1 / 2⌋ / u

variable {u : K}

theorem round_le_iff (hu : 0 < u) (b x : K) : round u x ≤ b ↔ x * u < ⌊b * u⌋ + 1 / 2 := by
  rw [round, div_le_iff₀ hu, ← Int.le_floor, ← Int.lt_add_one_iff, Int.floor_lt,
    Int.cast_add, Int.cast_one]
  constructor <;> intro h <;> linarith

theorem le_round_iff (hu : 0 < u) (a x : K) : a ≤ round u x ↔ ⌈a * u⌉ - 1 / 2 ≤ x * u := by
  rw [round, le_div_iff₀ hu, ← Int.ceil_le, Int.le_floor, sub_le_iff_le_add]

theorem round_mono (hu : 0 < u) : Monotone (round u) := by
  intro x y hxy
  rw [round, round, div_le_div_iff_of_pos_right hu, Int.cast_le]
  exact Int.floor_le_floor (by linarith [mul_le_mul_of_nonneg_right hxy hu.le])

theorem round_grid (hu : 0 < u) (n : ℤ) : round u (n / u) = n / u := by
  rw [round, div_mul_cancel₀ _ hu.ne', Int.floor_intCast_add,
    show ⌊(1 / 2 : K)⌋ = 0 from Int.floor_eq_zero_iff.mpr ⟨by norm_num, by norm_num⟩, add_zero]

theorem abs_round_sub_le (hu : 0 < u) (x : K) : |round u x - x| ≤ 1 / (2 * u) := by
  have hlow : x * u - 1 / 2 ≤ ⌊x * u + 1 / 2⌋ := by linarith [Int.lt_floor_add_one (x * u + 1 / 2)]
  have hhigh : (⌊x * u + 1 / 2⌋ : K) ≤ x * u + 1 / 2 := Int.floor_le _
  have hcancel : x * u / u = x := mul_div_cancel_right₀ x hu.ne'
  have hstep : round u x - x = (⌊x * u + 1 / 2⌋ - x * u) / u := by
    rw [round, sub_div, hcancel]
  have hhalf : (1 : K) / (2 * u) = 1 / 2 / u := by rw [div_div]
  rw [hstep, abs_div, abs_of_pos hu, hhalf]
  refine div_le_div_of_nonneg_right ?_ hu.le
  exact abs_le.mpr ⟨by linarith, by linarith⟩

/-- The closest multiple of `1 / u`; of two, the one farther from zero. -/
def roundAway (u x : K) : K := if x < 0 then -round u (-x) else round u x

theorem abs_roundAway_sub_le (hu : 0 < u) (x : K) : |roundAway u x - x| ≤ 1 / (2 * u) := by
  rw [roundAway]
  by_cases hx : x < 0
  · have heq : -round u (-x) - x = -(round u (-x) - -x) := by ring
    rw [if_pos hx, heq, abs_neg]
    exact abs_round_sub_le hu (-x)
  · rw [if_neg hx]
    exact abs_round_sub_le hu x

theorem round_nonneg (hu : 0 < u) {x : K} (hx : 0 ≤ x) : 0 ≤ round u x := by
  have h := round_grid hu 0
  rw [Int.cast_zero, zero_div] at h
  rw [← h]
  exact round_mono hu hx

theorem roundAway_mono (hu : 0 < u) : Monotone (roundAway u) := by
  intro x y hxy
  rw [roundAway, roundAway]
  by_cases hy : y < 0
  · rw [if_pos (lt_of_le_of_lt hxy hy), if_pos hy]
    exact neg_le_neg (round_mono hu (neg_le_neg hxy))
  · have hy0 : 0 ≤ round u y := round_nonneg hu (not_lt.mp hy)
    by_cases hx : x < 0
    · rw [if_pos hx, if_neg hy]
      exact (neg_nonpos.mpr (round_nonneg hu (neg_nonneg.mpr hx.le))).trans hy0
    · rw [if_neg hx, if_neg hy]
      exact round_mono hu hxy

theorem roundAway_grid (hu : 0 < u) (n : ℤ) : roundAway u (n / u) = n / u := by
  rw [roundAway]
  by_cases hn : (n : K) / u < 0
  · have hneg : -((n : K) / u) = ((-n : ℤ) : K) / u := by
      rw [Int.cast_neg, neg_div]
    rw [if_pos hn, hneg, round_grid hu, Int.cast_neg, neg_div, neg_neg]
  · rw [if_neg hn]
    exact round_grid hu n

theorem round_zero (hu : 0 < u) : round u 0 = 0 := by
  have h := round_grid hu 0
  rwa [Int.cast_zero, zero_div] at h

theorem roundAway_zero (hu : 0 < u) : roundAway u 0 = 0 := by
  rw [roundAway, if_neg (lt_irrefl _), round_zero hu]

theorem roundAway_neg (hu : 0 < u) (x : K) : roundAway u (-x) = -roundAway u x := by
  rcases lt_trichotomy x 0 with hx | rfl | hx
  · rw [roundAway, roundAway, if_neg (not_lt.mpr (neg_nonneg.mpr hx.le)), if_pos hx, neg_neg]
  · rw [neg_zero, roundAway_zero hu, neg_zero]
  · rw [roundAway, roundAway, if_pos (neg_neg_of_pos hx), if_neg (not_lt.mpr hx.le), neg_neg]

theorem round_neg {x : K} (h : ∀ n : ℤ, x * u ≠ n + 1 / 2) : round u (-x) = -round u x := by
  have hne : (⌊x * u + 1 / 2⌋ : K) ≠ x * u + 1 / 2 := by
    intro heq
    refine h (⌊x * u + 1 / 2⌋ - 1) ?_
    rw [Int.cast_sub, heq, Int.cast_one]
    ring
  have hlt : (⌊x * u + 1 / 2⌋ : K) < x * u + 1 / 2 := lt_of_le_of_ne (Int.floor_le _) hne
  have hceil : ⌈x * u - 1 / 2⌉ = ⌊x * u + 1 / 2⌋ := by
    refine Int.ceil_eq_iff.mpr ⟨by linarith, ?_⟩
    linarith [Int.lt_floor_add_one (x * u + 1 / 2)]
  have hflip : -x * u + 1 / 2 = -(x * u - 1 / 2) := by ring
  rw [round, round, hflip, Int.floor_neg, hceil, Int.cast_neg, neg_div]

end Fixed
