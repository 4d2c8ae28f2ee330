/-
A stream cut into batches of a fixed size.

    batch n k xs          the k-th batch of `n`
    Cut n xs full rest    the batches that are complete, and what is left
    Cut.forall_iff        a property of the complete batches, by their numbers
-/
import Mathlib.Data.List.Basic

namespace Batches

variable {α : Type}

/-- The batch number `k`, from 0 on. -/
def batch (n k : Nat) (xs : List α) : List α := (xs.drop (k * n)).take n

/-- The stream is the complete batches and a rest that is none yet. -/
structure Cut (n : Nat) (xs : List α) (full : List (List α)) (rest : List α) : Prop where
  eq : xs = full.flatten ++ rest
  size : ∀ b ∈ full, b.length = n
  short : rest.length < n

theorem length_flatten {n : Nat} {full : List (List α)} (h : ∀ b ∈ full, b.length = n) :
    full.flatten.length = full.length * n := by
  induction full with
  | nil => simp
  | cons b full ih =>
      have hb := h b List.mem_cons_self
      have hfull := ih fun c hc => h c (List.mem_cons_of_mem b hc)
      rw [List.flatten_cons, List.length_append, hb, hfull, List.length_cons, Nat.succ_mul,
        Nat.add_comm]

theorem batch_flatten {n : Nat} {full : List (List α)} (h : ∀ b ∈ full, b.length = n)
    {b : List α} (hb : b.length = n) (more : List α) :
    batch n full.length (full.flatten ++ b ++ more) = b := by
  rw [batch, List.append_assoc, List.drop_left' (length_flatten h), List.take_left' hb]

namespace Cut

variable {n : Nat} {xs rest : List α} {full : List (List α)}

theorem nil (h : 0 < n) : Cut n ([] : List α) [] [] :=
  ⟨rfl, fun _ hb => absurd hb List.not_mem_nil, h⟩

theorem push (h : Cut n xs full rest) {x : α} (hshort : rest.length + 1 < n) :
    Cut n (xs ++ [x]) full (rest ++ [x]) where
  eq := by rw [h.eq, List.append_assoc]
  size := h.size
  short := by simpa using hshort

theorem close (h : Cut n xs full rest) {x : α} (hlast : rest.length + 1 = n) :
    Cut n (xs ++ [x]) (full ++ [rest ++ [x]]) [] where
  eq := by rw [h.eq, List.flatten_append]; simp
  size := by
    intro b hb
    rcases List.mem_append.mp hb with hb | hb
    · exact h.size b hb
    · rw [List.mem_singleton.mp hb]
      simpa using hlast
  short := by
    rw [← hlast]
    exact Nat.succ_pos _

theorem length_eq (h : Cut n xs full rest) : xs.length = full.length * n + rest.length := by
  rw [h.eq, List.length_append, length_flatten h.size]

theorem complete_iff (h : Cut n xs full rest) (k : Nat) :
    (k + 1) * n ≤ xs.length ↔ k < full.length := by
  rw [h.length_eq]
  constructor
  · intro hle
    by_contra hk
    have hmul : full.length * n ≤ k * n := Nat.mul_le_mul_right n (Nat.not_lt.mp hk)
    have := h.short
    rw [Nat.succ_mul] at hle
    omega
  · intro hk
    exact Nat.le_trans (Nat.mul_le_mul_right n hk) (Nat.le_add_right _ _)

theorem batch_eq (h : Cut n xs full rest) {k : Nat} (hk : k < full.length) :
    batch n k xs = full[k] := by
  have hsplit : full = full.take k ++ full[k] :: full.drop (k + 1) := by
    rw [List.getElem_cons_drop, List.take_append_drop]
  have hbefore : ∀ b ∈ full.take k, b.length = n := fun b hb => h.size b (List.mem_of_mem_take hb)
  have hlength : (full.take k).length = k := List.length_take_of_le (Nat.le_of_lt hk)
  have hbatch := batch_flatten hbefore (h.size _ (List.getElem_mem hk))
    ((full.drop (k + 1)).flatten ++ rest)
  rw [hlength] at hbatch
  have hxs : xs = (full.take k).flatten ++ full[k] ++ ((full.drop (k + 1)).flatten ++ rest) := by
    rw [h.eq]
    conv_lhs => rw [hsplit]
    rw [List.flatten_append, List.flatten_cons]
    simp only [List.append_assoc]
  rw [hxs, hbatch]

theorem forall_iff (h : Cut n xs full rest) (P : List α → Prop) :
    (∀ b ∈ full, P b) ↔ ∀ k, (k + 1) * n ≤ xs.length → P (batch n k xs) := by
  constructor
  · intro hfull k hk
    have hlt := (h.complete_iff k).mp hk
    rw [h.batch_eq hlt]
    exact hfull _ (List.getElem_mem hlt)
  · intro hall b hb
    obtain ⟨k, hlt, rfl⟩ := List.mem_iff_getElem.mp hb
    rw [← h.batch_eq hlt]
    exact hall k ((h.complete_iff k).mpr hlt)

end Cut

end Batches
