/-
An amount split in proportion to weights, each part rounded.

    parts             the rounded parts
    abs_sum_sub_le    their sum is off by the error of a rounding for each part
    part_mono         a larger weight never gets the smaller part
-/
import Mathlib.Algebra.Order.BigOperators.Group.List
import Mathlib.Algebra.Order.Field.Basic
import Mathlib.Algebra.Order.Ring.Abs
import Mathlib.Tactic.Ring
import Mathlib.Tactic.Linarith

namespace ProRata

variable {K : Type} [Field K] [LinearOrder K] [IsStrictOrderedRing K]

/-- What a weight gets of an amount that is split over `whole`; the weight's share of it may be
rounded as well. -/
def part (round roundShare : K → K) (amount whole weight : K) : K :=
  round (amount * roundShare (weight / whole))

def parts (round roundShare : K → K) (amount whole : K) (weights : List K) : List K :=
  weights.map (part round roundShare amount whole)

variable {round roundShare : K → K} {amount whole ε : K}

theorem part_nonneg (hround : ∀ x, 0 ≤ x → 0 ≤ round x) (hshare : ∀ x, 0 ≤ x → 0 ≤ roundShare x)
    (hamount : 0 ≤ amount) (hwhole : 0 ≤ whole) {weight : K} (h : 0 ≤ weight) :
    0 ≤ part round roundShare amount whole weight :=
  hround _ (mul_nonneg hamount (hshare _ (div_nonneg h hwhole)))

theorem part_mono (hround : Monotone round) (hshare : Monotone roundShare) (hamount : 0 ≤ amount)
    (hwhole : 0 ≤ whole) : Monotone (part round roundShare amount whole) := by
  intro v w hvw
  refine hround (mul_le_mul_of_nonneg_left (hshare ?_) hamount)
  exact div_le_div_of_nonneg_right hvw hwhole

/-- Where the shares are not rounded, the parts add up to the weights' share of the amount, but
for the rounding of each. -/
theorem abs_sum_sub_le (hround : ∀ x, |round x - x| ≤ ε) (weights : List K) :
    |(parts round id amount whole weights).sum - amount * (weights.sum / whole)|
      ≤ weights.length * ε := by
  induction weights with
  | nil => simp [parts]
  | cons weight weights ih =>
      have hsplit : (parts round id amount whole (weight :: weights)).sum
            - amount * ((weight :: weights).sum / whole)
          = (part round id amount whole weight - amount * (weight / whole))
            + ((parts round id amount whole weights).sum - amount * (weights.sum / whole)) := by
        rw [parts, parts, List.map_cons, List.sum_cons, List.sum_cons]
        ring
      have hfirst : |part round id amount whole weight - amount * (weight / whole)| ≤ ε := hround _
      rw [hsplit, List.length_cons, Nat.cast_succ]
      calc |(part round id amount whole weight - amount * (weight / whole))
              + ((parts round id amount whole weights).sum - amount * (weights.sum / whole))|
          ≤ |part round id amount whole weight - amount * (weight / whole)|
              + |(parts round id amount whole weights).sum - amount * (weights.sum / whole)| :=
            abs_add_le _ _
        _ ≤ ε + weights.length * ε := add_le_add hfirst ih
        _ = (weights.length + 1) * ε := by ring

end ProRata
