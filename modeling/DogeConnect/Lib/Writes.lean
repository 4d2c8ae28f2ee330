/-
Writes at offsets into a buffer.

A packet or a header is often filled by writes one behind the other, each at
the offset where the last one ended, into a buffer with old contents.  What
stands there afterwards is the concatenation of what was written, between what
was in front and what was behind:

    (consecutiveWrites n cs).foldl writeAt (pre ++ old ++ post) = pre ++ cs.flatten ++ post

if `n` is the length of `pre` and `old` is as long as the writes together
(`foldl_writes_consecutive`).
-/
import Mathlib.Data.List.Basic

namespace Writes

variable {β : Type}

/-- Copy a list to an offset. -/
def writeAt (buffer : List β) (w : Nat × List β) : List β :=
  buffer.take w.1 ++ w.2 ++ buffer.drop (w.1 + w.2.length)

/-- Writes one behind the other from a starting offset. -/
def consecutiveWrites : Nat → List (List β) → List (Nat × List β)
  | _, [] => []
  | offset, c :: cs => (offset, c) :: consecutiveWrites (offset + c.length) cs

theorem writeAt_append {pre old new post : List β} {offset : Nat} (ho : offset = pre.length)
    (hlen : old.length = new.length) :
    writeAt (pre ++ (old ++ post)) (offset, new) = pre ++ (new ++ post) := by
  subst ho
  rw [writeAt, List.take_left, ← hlen, ← List.drop_drop, List.drop_left, List.drop_left,
    List.append_assoc]

/-- A consecutive run of writes leaves what it wrote in one piece. -/
theorem foldl_writes_consecutive : ∀ {cs : List (List β)} {pre old post : List β}
    {offset : Nat}, offset = pre.length → old.length = cs.flatten.length →
    (consecutiveWrites offset cs).foldl writeAt (pre ++ (old ++ post))
      = pre ++ (cs.flatten ++ post)
  | [], pre, old, post, _, _, hlen => by
      have : old = [] := List.eq_nil_of_length_eq_zero hlen
      simp [consecutiveWrites, this]
  | c :: cs, pre, old, post, offset, ho, hlen => by
      simp only [List.flatten_cons, List.length_append] at hlen
      have hold : old = old.take c.length ++ old.drop c.length := (List.take_append_drop _ _).symm
      have hfirst : writeAt (pre ++ (old ++ post)) (offset, c)
          = (pre ++ c) ++ (old.drop c.length ++ post) := by
        rw [hold, List.append_assoc, writeAt_append ho (by simp; omega), ← hold]
        simp only [List.append_assoc]
      rw [consecutiveWrites, List.foldl_cons, hfirst,
        foldl_writes_consecutive (by simp [ho]) (by simp only [List.length_drop]; omega),
        List.flatten_cons]
      simp only [List.append_assoc]

theorem foldl_writes_all {cs : List (List β)} {buffer : List β}
    (h : buffer.length = cs.flatten.length) :
    (consecutiveWrites 0 cs).foldl writeAt buffer = cs.flatten := by
  have hall : (consecutiveWrites 0 cs).foldl writeAt ([] ++ (buffer ++ []))
      = [] ++ (cs.flatten ++ []) := foldl_writes_consecutive rfl h
  simpa only [List.nil_append, List.append_nil] using hall

theorem split_at (buffer : List β) {n : Nat} (h : n ≤ buffer.length) :
    ∃ front rest, buffer = front ++ rest ∧ front.length = n ∧ rest.length = buffer.length - n :=
  ⟨buffer.take n, buffer.drop n, (List.take_append_drop n buffer).symm, by simp [h], by simp⟩

theorem consecutiveWrites_le : ∀ {cs : List (List β)} {offset : Nat},
    ∀ w ∈ consecutiveWrites offset cs, w.1 + w.2.length ≤ offset + cs.flatten.length
  | [], _, _, hw => absurd hw List.not_mem_nil
  | c :: cs, offset, w, hw => by
      rw [List.flatten_cons, List.length_append]
      rcases List.mem_cons.mp hw with rfl | hw
      · dsimp only
        omega
      · have := consecutiveWrites_le w hw
        omega

end Writes
