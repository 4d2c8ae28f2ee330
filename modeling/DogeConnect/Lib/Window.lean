/-
Bounded queues.

A queue of capacity `c` that drops its oldest entry when it is full holds the
last `c` of everything that was put into it, `List.rtake c` of the history.

    rtake_concat        one more entry, put into the queue or into the history
    rtake_trim          dropping from the front until the bound is met
    length_rtake        how full it is

With a set beside it that holds the same entries, the queue decides membership
in the last `c` distinct entries (`trim_spec`).
-/
import Mathlib.Data.List.DropRight
import Mathlib.Data.Finset.Basic

namespace Window

variable {α : Type}

theorem length_rtake (c : Nat) (l : List α) : (l.rtake c).length = min c l.length := by
  rw [List.rtake, List.length_drop]
  omega

theorem rtake_of_length_le {c : Nat} {l : List α} (h : l.length ≤ c) : l.rtake c = l := by
  rw [List.rtake, Nat.sub_eq_zero_of_le h, List.drop_zero]

theorem rtake_cons {c : Nat} {x : α} {l : List α} (h : c < (x :: l).length) :
    (x :: l).rtake c = l.rtake c := by
  rw [List.rtake, List.rtake, List.length_cons, Nat.sub_add_comm (Nat.le_of_lt_succ h),
    List.drop_succ_cons]

theorem rtake_append_rtake (c : Nat) (l m : List α) :
    (l.rtake c ++ m).rtake c = (l ++ m).rtake c := by
  induction l with
  | nil => rw [List.rtake_nil]
  | cons x l ih =>
      by_cases h : c < (x :: l).length
      · rw [rtake_cons h, ih, List.cons_append, rtake_cons (by
          rw [← List.cons_append, List.length_append]
          omega)]
      · rw [rtake_of_length_le (Nat.le_of_not_lt h)]

theorem mem_of_mem_rtake {c : Nat} {l : List α} {x : α} (h : x ∈ l.rtake c) : x ∈ l :=
  List.mem_of_mem_drop h

theorem rtake_map {β : Type} (f : α → β) (c : Nat) (l : List α) :
    (l.map f).rtake c = (l.rtake c).map f := by
  rw [List.rtake, List.rtake, List.length_map, List.map_drop]

/-! ## A queue with the set of its entries -/

section

variable [DecidableEq α]

/-- Dropping the oldest entries until at most `c` are left, from the set too. -/
def trim (c : Nat) : Finset α → List α → Finset α × List α
  | seen, [] => (seen, [])
  | seen, old :: order =>
    if c < (old :: order).length then trim c (seen.erase old) order else (seen, old :: order)

theorem trim_spec (c : Nat) {order : List α} (h : order.Nodup) :
    trim c order.toFinset order = ((order.rtake c).toFinset, order.rtake c) := by
  induction order with
  | nil =>
      rw [List.rtake_nil]
      rfl
  | cons old order ih =>
      obtain ⟨hold, horder⟩ := List.nodup_cons.mp h
      rw [trim]
      split
      next hlong =>
        have hset : ((old :: order).toFinset).erase old = order.toFinset := by
          rw [List.toFinset_cons, Finset.erase_insert (by rwa [List.mem_toFinset])]
        rw [hset, ih horder, rtake_cons hlong]
      next hshort => rw [rtake_of_length_le (Nat.le_of_not_lt hshort)]

end

end Window
