/-
Rounding down to a short mantissa.

A number is short at radix `B` if it is `m * B ^ k` with a mantissa `m < M`.
Cutting the low `k` digits of `t` is rounding down to the short numbers as
soon as what remains is a mantissa and one digit more would not be one
(`Normal`).  There is at most one such `k` up to zero mantissas, so a rounding
function built from cuts is idempotent, and monotone because greatest elements
of growing sets grow.

    cut is the greatest short number below       (`isGreatest_cut`)
    the cut of a cut keeps its exponent          (`Normal.cut`)
    greatest elements grow with the bound        (`isGreatest_mono`)
-/
import Mathlib.Order.Bounds.Basic
import Mathlib.Algebra.Order.Ring.Nat
import Mathlib.Tactic.Ring

namespace RoundDown

variable {B M t k : Nat}

/-- The short numbers not above `t`. -/
def shortBelow (B M t : Nat) : Set Nat := {x | ∃ m k, m < M ∧ x = m * B ^ k ∧ x ≤ t}

/-- The number `t` with its low `k` digits at radix `B` cleared. -/
def cut (B k t : Nat) : Nat := t / B ^ k * B ^ k

/-- The digits of `t` from `k` on form a mantissa, and no more digits would. -/
structure Normal (B M t k : Nat) : Prop where
  mantissa_lt : t / B ^ k < M
  full : k = 0 ∨ M ≤ t / B ^ k * B

theorem cut_le (B k t : Nat) : cut B k t ≤ t := Nat.div_mul_le_self t (B ^ k)

theorem cut_div (hB : 0 < B) : cut B k t / B ^ k = t / B ^ k :=
  Nat.mul_div_cancel _ (Nat.pow_pos hB)

theorem Normal.cut (hB : 0 < B) (h : Normal B M t k) : Normal B M (RoundDown.cut B k t) k := by
  constructor
  · rw [cut_div hB]; exact h.mantissa_lt
  · rw [cut_div hB]; exact h.full

theorem Normal.le_of_normal {j : Nat} (h : Normal B M t k) (hj : Normal B M t j) : k ≤ j := by
  rcases h.full with hk | hk
  · rw [hk]; exact Nat.zero_le j
  by_contra hlt
  rw [Nat.not_le] at hlt
  obtain ⟨i, rfl⟩ := Nat.exists_eq_add_of_lt hlt
  -- the digits from `j` on are at least those from `j + i + 1` on and one more
  have hdigits : t / B ^ (j + i + 1) * B ≤ t / B ^ j :=
    calc t / B ^ (j + i + 1) * B = t / B ^ j / B ^ i / B * B := by
          rw [Nat.div_div_eq_div_mul, Nat.div_div_eq_div_mul, pow_succ, pow_add, Nat.mul_assoc]
      _ ≤ t / B ^ j / B ^ i := Nat.div_mul_le_self _ _
      _ ≤ t / B ^ j := Nat.div_le_self _ _
  exact absurd (hk.trans hdigits) (Nat.not_le.mpr hj.mantissa_lt)

theorem Normal.unique {j : Nat} (h : Normal B M t k) (hj : Normal B M t j) : k = j :=
  Nat.le_antisymm (h.le_of_normal hj) (hj.le_of_normal h)

theorem isGreatest_cut (hB : 0 < B) (h : Normal B M t k) :
    IsGreatest (shortBelow B M t) (cut B k t) := by
  refine ⟨⟨t / B ^ k, k, h.mantissa_lt, rfl, cut_le B k t⟩, ?_⟩
  rintro x ⟨m, j, hm, rfl, hx⟩
  by_cases hjk : k ≤ j
  · -- a multiple of `B ^ k`
    obtain ⟨i, rfl⟩ := Nat.exists_eq_add_of_le hjk
    have hx' : m * B ^ i * B ^ k ≤ t := by
      rwa [Nat.mul_assoc, ← pow_add, Nat.add_comm i k]
    calc m * B ^ (k + i) = m * B ^ i * B ^ k := by rw [pow_add]; ring
      _ ≤ t / B ^ k * B ^ k :=
          Nat.mul_le_mul_right _ ((Nat.le_div_iff_mul_le (Nat.pow_pos hB)).mpr hx')
  · -- a shorter power of the radix: the mantissa alone is too small
    rw [Nat.not_le] at hjk
    obtain ⟨i, rfl⟩ := Nat.exists_eq_add_of_lt hjk
    have hfull : M ≤ t / B ^ (j + i + 1) * B := by
      rcases h.full with h0 | hfull
      · exact absurd h0 (Nat.succ_ne_zero (j + i))
      · exact hfull
    calc m * B ^ j ≤ t / B ^ (j + i + 1) * B * B ^ j :=
          Nat.mul_le_mul_right _ (hm.le.trans hfull)
      _ = t / B ^ (j + i + 1) * B ^ (j + 1) := by rw [pow_succ]; ring
      _ ≤ t / B ^ (j + i + 1) * B ^ (j + i + 1) :=
          Nat.mul_le_mul_left _ (Nat.pow_le_pow_right hB (by omega))

theorem shortBelow_mono {s : Nat} (h : s ≤ t) : shortBelow B M s ⊆ shortBelow B M t := by
  rintro x ⟨m, j, hm, hx, hle⟩
  exact ⟨m, j, hm, hx, hle.trans h⟩

theorem isGreatest_mono {s x y : Nat} (h : s ≤ t) (hx : IsGreatest (shortBelow B M s) x)
    (hy : IsGreatest (shortBelow B M t) y) : x ≤ y :=
  hy.2 (shortBelow_mono h hx.1)

end RoundDown
