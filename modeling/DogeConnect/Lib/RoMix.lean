/-
Sequential memory-hard mixing, over any mixing function.

    blockMix    blocks chained through a hash, the even results before the odd ones
    roMix       N states remembered, then N of them mixed in again, chosen by the data

Both are stated as mathematics: the states are the iterates of the mixing
function, and nothing is stored.
-/
import Mathlib.Data.List.Basic
import Mathlib.Logic.Function.Iterate

namespace RoMix

variable {α : Type} (H : α → α) (xor : α → α → α)

/-- `Y i = H (Y (i - 1) xor B i)`, from a value before the first. -/
def chained (x : α) (B : Nat → α) : Nat → α
  | 0 => H (xor x (B 0))
  | i + 1 => H (xor (chained x B i) (B (i + 1)))

/-- The value the chain has arrived at before step `i`. -/
def before (x : α) (B : Nat → α) : Nat → α
  | 0 => x
  | i + 1 => chained H xor x B i

theorem chained_eq (x : α) (B : Nat → α) (i : Nat) :
    chained H xor x B i = H (xor (before H xor x B i) (B i)) := by
  cases i <;> rfl

/-- Of `2 * r` blocks; the chain starts from the last one. -/
def blockMix [Inhabited α] (r : Nat) (B : Vector α (2 * r)) : Vector α (2 * r) :=
  let Y := chained H xor B[2 * r - 1]! fun i => B[i]!
  Vector.ofFn fun i => if i.val < r then Y (2 * i.val) else Y (2 * (i.val - r) + 1)

/-- Step `k` of the second half: the remembered state that the current one points to. -/
def mixStep (index : α → Nat) (N : Nat) (x y : α) : α := H (xor y (H^[index y % N] x))

def roMix (index : α → Nat) (N : Nat) (x : α) : α := (mixStep H xor index N x)^[N] (H^[N] x)

end RoMix
