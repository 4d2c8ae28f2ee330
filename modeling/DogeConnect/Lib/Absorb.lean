/-
Absorbing a message block by block.

An iterated hash folds a compression function over the complete blocks of its
message and keeps the rest for later.  `absorb` is the fold, `rest` is what
is kept:

    absorb n f s (a ++ b) = absorb n f (absorb n f s a) (rest n a ++ b)
    rest n (a ++ b)       = rest n (rest n a ++ b)

so a program that holds `(absorb n f s a, rest n a)` can go on with `b` and
never needs `a` again.  Nothing is said about the
compression function.
-/
import Mathlib.Data.List.Basic

namespace Absorb

variable {σ β : Type} {n : Nat} {f : σ → List β → σ}

/-- The compression function over the first `k` blocks. -/
def blocks (n : Nat) (f : σ → List β → σ) : Nat → σ → List β → σ
  | 0, s, _ => s
  | k + 1, s, msg => blocks n f k (f s (msg.take n)) (msg.drop n)

/-- The compression function over all complete blocks. -/
def absorb (n : Nat) (f : σ → List β → σ) (s : σ) (msg : List β) : σ :=
  blocks n f (msg.length / n) s msg

/-- What stands behind the last complete block. -/
def rest (n : Nat) (msg : List β) : List β := msg.drop (n * (msg.length / n))

theorem absorb_of_lt (s : σ) {msg : List β} (h : msg.length < n) : absorb n f s msg = s := by
  rw [absorb, Nat.div_eq_of_lt h, blocks]

theorem rest_of_lt {msg : List β} (h : msg.length < n) : rest n msg = msg := by
  rw [rest, Nat.div_eq_of_lt h, Nat.mul_zero, List.drop_zero]

theorem absorb_of_le (hn : 0 < n) (s : σ) {msg : List β} (h : n ≤ msg.length) :
    absorb n f s msg = absorb n f (f s (msg.take n)) (msg.drop n) := by
  have hcount : msg.length / n = (msg.drop n).length / n + 1 := by
    rw [List.length_drop, ← Nat.add_div_right _ hn, Nat.sub_add_cancel h]
  rw [absorb, hcount, blocks, absorb]

theorem rest_of_le (hn : 0 < n) {msg : List β} (h : n ≤ msg.length) :
    rest n msg = rest n (msg.drop n) := by
  have hcount : msg.length / n = (msg.drop n).length / n + 1 := by
    rw [List.length_drop, ← Nat.add_div_right _ hn, Nat.sub_add_cancel h]
  rw [rest, hcount, rest, List.drop_drop, Nat.mul_succ, Nat.add_comm n]

theorem absorb_block (hn : 0 < n) (s : σ) {block : List β} (h : block.length = n)
    (msg : List β) : absorb n f s (block ++ msg) = absorb n f (f s block) msg := by
  have hle : n ≤ (block ++ msg).length := by rw [List.length_append]; omega
  rw [absorb_of_le hn s hle, List.take_left' h, List.drop_left' h]

theorem rest_block (hn : 0 < n) {block : List β} (h : block.length = n) (msg : List β) :
    rest n (block ++ msg) = rest n msg := by
  have hle : n ≤ (block ++ msg).length := by rw [List.length_append]; omega
  rw [rest_of_le hn hle, List.drop_left' h]

theorem block_induction (hn : 0 < n) {P : List β → Prop}
    (short : ∀ msg, msg.length < n → P msg)
    (block : ∀ b msg, b.length = n → P msg → P (b ++ msg)) (msg : List β) : P msg := by
  induction hlen : msg.length using Nat.strongRecOn generalizing msg with
  | ind len ih =>
      rcases Nat.lt_or_ge msg.length n with h | h
      · exact short msg h
      · have hdrop : (msg.drop n).length < len := by rw [List.length_drop]; omega
        have htake : (msg.take n).length = n := by rw [List.length_take]; omega
        have := block (msg.take n) (msg.drop n) htake (ih _ hdrop _ rfl)
        rwa [List.take_append_drop] at this

theorem length_rest (msg : List β) : (rest n msg).length = msg.length % n := by
  rw [rest, List.length_drop, Nat.mod_eq_sub_mul_div]

theorem length_rest_lt (hn : 0 < n) (msg : List β) : (rest n msg).length < n := by
  rw [length_rest]
  exact Nat.mod_lt _ hn

/-- Absorbing in two parts: the second part goes behind the rest of the first. -/
theorem absorb_append (hn : 0 < n) (a b : List β) (s : σ) :
    absorb n f s (a ++ b) = absorb n f (absorb n f s a) (rest n a ++ b) := by
  induction a using block_induction hn generalizing s with
  | short a h => rw [absorb_of_lt s h, rest_of_lt h]
  | block head a h ih =>
      rw [List.append_assoc, absorb_block hn s h, ih, absorb_block hn s h, rest_block hn h]

theorem rest_append (hn : 0 < n) (a b : List β) :
    rest n (a ++ b) = rest n (rest n a ++ b) := by
  induction a using block_induction hn with
  | short a h => rw [rest_of_lt h]
  | block head a h ih => rw [List.append_assoc, rest_block hn h, ih, rest_block hn h]

end Absorb
