/-
Sums over the values of an association list.

A table of counters kept per key, next to a counter of its own for their sum,
stays in step with it as long as both change by the same amount.

    total_insert_of_notMem   a new key adds its value
    total_insert_of_lookup   a key that is there trades its value for the new one
-/
import Mathlib.Data.List.AList
import Mathlib.Algebra.BigOperators.Group.List.Basic
import Mathlib.Tactic.Abel

namespace Tally

variable {α β M : Type} [AddCommMonoid M]

/-- The sum of `f` over the values. -/
def total (f : β → M) (m : AList fun _ : α => β) : M := (m.entries.map fun entry => f entry.2).sum

@[simp] theorem total_empty (f : β → M) : total f (∅ : AList fun _ : α => β) = 0 := rfl

variable [DecidableEq α] {m : AList fun _ : α => β} {a : α} {b old : β}

theorem total_insert_of_notMem (f : β → M) (h : a ∉ m) :
    total f (m.insert a b) = f b + total f m := by
  rw [total, AList.entries_insert_of_notMem h, List.map_cons, List.sum_cons]
  rfl

theorem total_insert_of_lookup (f : β → M) (h : m.lookup a = some old) (b : β) :
    ∃ rest, total f m = f old + rest ∧ total f (m.insert a b) = f b + rest := by
  have hmem : a ∈ m.entries.keys := AList.mem_keys.mp (AList.lookup_isSome.mp (by simp [h]))
  obtain ⟨value, l₁, l₂, -, hentries, herase⟩ := List.exists_of_kerase hmem
  have hvalue : value = old := by
    have hentry : (⟨a, value⟩ : Sigma fun _ : α => β) ∈ m.entries := by
      rw [hentries]
      exact List.mem_append_right _ List.mem_cons_self
    have hlookup : m.lookup a = some value := AList.mem_lookup_iff.mpr hentry
    rw [h] at hlookup
    exact (Option.some.inj hlookup).symm
  subst hvalue
  refine ⟨((l₁ ++ l₂).map fun entry => f entry.2).sum, ?_, ?_⟩
  · rw [total, hentries]
    simp only [List.map_append, List.map_cons, List.sum_append, List.sum_cons]
    abel
  · rw [total, AList.entries_insert, herase, List.map_cons, List.sum_cons]

/-- A value that counts as much as the one it replaces leaves the sum alone. -/
theorem total_insert_eq {f : β → M} (h : m.lookup a = some old) (hf : f b = f old) :
    total f (m.insert a b) = total f m := by
  obtain ⟨rest, hold, hnew⟩ := total_insert_of_lookup f h b
  rw [hnew, hold, hf]

theorem total_insert_add {f : β → M} {n : M} (h : m.lookup a = some old) (hf : f b = f old + n) :
    total f (m.insert a b) = total f m + n := by
  obtain ⟨rest, hold, hnew⟩ := total_insert_of_lookup f h b
  rw [hnew, hold, hf]
  abel

end Tally
