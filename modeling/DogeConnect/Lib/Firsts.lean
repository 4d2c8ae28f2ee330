/-
The first answer of every party, in the order of arrival.

A question goes to some parties at once, each may answer again and again, and
only its first answer counts.

    firsts answers         the first answer of every party
    firsts_concat          one more answer
    first?_of_mem          what is kept of a party is the first it said
    all_iff                complete once every party has answered
    perm                   then they are the parties' first answers, reordered
-/
import Mathlib.Data.List.Induction
import Mathlib.Data.List.Nodup
import Mathlib.Data.List.Perm.Basic
import Mathlib.Data.List.Perm.Subperm

namespace Firsts

variable {ι α : Type} [DecidableEq ι]

/-- Takes an answer down, unless its party has answered before. -/
def hear (heard : List (ι × α)) (answer : ι × α) : List (ι × α) :=
  if answer.1 ∈ heard.map Prod.fst then heard else heard ++ [answer]

def firsts (answers : List (ι × α)) : List (ι × α) := answers.foldl hear []

/-- What a party said first. -/
def first? (answers : List (ι × α)) (i : ι) : Option α :=
  (answers.find? fun answer => answer.1 = i).map Prod.snd

theorem firsts_concat (answers : List (ι × α)) (answer : ι × α) :
    firsts (answers ++ [answer]) = hear (firsts answers) answer := by
  rw [firsts, List.foldl_concat]
  rfl

theorem hear_of_mem {heard : List (ι × α)} {answer : ι × α}
    (h : answer.1 ∈ heard.map Prod.fst) : hear heard answer = heard := if_pos h

theorem hear_of_notMem {heard : List (ι × α)} {answer : ι × α}
    (h : answer.1 ∉ heard.map Prod.fst) : hear heard answer = heard ++ [answer] := if_neg h

theorem nodup_fst (answers : List (ι × α)) : ((firsts answers).map Prod.fst).Nodup := by
  induction answers using List.reverseRecOn with
  | nil => exact List.nodup_nil
  | append_singleton answers answer ih =>
      rw [firsts_concat]
      by_cases h : answer.1 ∈ (firsts answers).map Prod.fst
      · rw [hear_of_mem h]
        exact ih
      · rw [hear_of_notMem h, List.map_append]
        refine List.nodup_append.mpr ⟨ih, List.nodup_singleton _, ?_⟩
        intro i hi j hj hij
        rw [List.map_singleton, List.mem_singleton] at hj
        rw [hij, hj] at hi
        exact h hi

theorem first?_concat (answers : List (ι × α)) (answer : ι × α) (i : ι) :
    first? (answers ++ [answer]) i
      = (first? answers i).or (if answer.1 = i then some answer.2 else none) := by
  rw [first?, first?, List.find?_append, Option.map_or, List.find?_singleton]
  by_cases h : answer.1 = i
  · simp [h]
  · simp [h]

theorem first?_firsts (answers : List (ι × α)) (i : ι) :
    first? (firsts answers) i = first? answers i := by
  induction answers using List.reverseRecOn with
  | nil => rfl
  | append_singleton answers answer ih =>
      rw [firsts_concat, first?_concat, ← ih]
      by_cases h : answer.1 ∈ (firsts answers).map Prod.fst
      · rw [hear_of_mem h]
        by_cases hi : answer.1 = i
        · -- the party has answered before
          obtain ⟨before, hbefore, hfst⟩ := List.mem_map.mp h
          have hsome : (first? (firsts answers) i).isSome := by
            rw [first?, Option.isSome_map, List.find?_isSome]
            exact ⟨before, hbefore, by simpa using hfst.trans hi⟩
          rw [Option.or_of_isSome hsome]
        · rw [if_neg hi, Option.or_none]
      · rw [hear_of_notMem h, first?_concat]

theorem first?_isSome_iff (answers : List (ι × α)) (i : ι) :
    (first? answers i).isSome ↔ i ∈ answers.map Prod.fst := by
  rw [first?, Option.isSome_map, List.find?_isSome, List.mem_map]
  simp only [decide_eq_true_eq]

theorem mem_fst_iff (answers : List (ι × α)) (i : ι) :
    i ∈ (firsts answers).map Prod.fst ↔ i ∈ answers.map Prod.fst := by
  rw [← first?_isSome_iff, ← first?_isSome_iff, first?_firsts]

theorem first?_eq_of_mem {heard : List (ι × α)} (hnodup : (heard.map Prod.fst).Nodup)
    {answer : ι × α} (h : answer ∈ heard) : first? heard answer.1 = some answer.2 := by
  induction heard with
  | nil => exact absurd h List.not_mem_nil
  | cons other heard ih =>
      rw [List.map_cons, List.nodup_cons] at hnodup
      rcases List.mem_cons.mp h with rfl | h
      · rw [first?, List.find?_cons_of_pos (by simp)]
        rfl
      · have hne : other.1 ≠ answer.1 := by
          intro heq
          rw [heq] at hnodup
          exact hnodup.1 (List.mem_map_of_mem h)
        rw [first?, List.find?_cons_of_neg (by simpa using hne)]
        exact ih hnodup.2 h

theorem first?_of_mem {answers : List (ι × α)} {answer : ι × α} (h : answer ∈ firsts answers) :
    first? answers answer.1 = some answer.2 := by
  rw [← first?_firsts]
  exact first?_eq_of_mem (nodup_fst answers) h

theorem mem_of_first? {answers : List (ι × α)} {i : ι} {a : α} (h : first? answers i = some a) :
    (i, a) ∈ firsts answers := by
  rw [← first?_firsts, first?, Option.map_eq_some_iff] at h
  obtain ⟨answer, hfind, rfl⟩ := h
  have hi : answer.1 = i := by simpa using List.find?_some hfind
  rw [← hi]
  exact List.mem_of_find?_eq_some hfind

/-! ## Completeness -/

section
variable {parties : List ι} {answers : List (ι × α)}

theorem length_le (hsub : ∀ i ∈ answers.map Prod.fst, i ∈ parties) :
    (firsts answers).length ≤ parties.length := by
  have hsubset : (firsts answers).map Prod.fst ⊆ parties := fun i hi =>
    hsub i ((mem_fst_iff answers i).mp hi)
  simpa using (List.subperm_of_subset (nodup_fst answers) hsubset).length_le

theorem all_iff (hparties : parties.Nodup) (hsub : ∀ i ∈ answers.map Prod.fst, i ∈ parties) :
    (firsts answers).length = parties.length ↔ ∀ i ∈ parties, i ∈ answers.map Prod.fst := by
  have hsubset : (firsts answers).map Prod.fst ⊆ parties := fun i hi =>
    hsub i ((mem_fst_iff answers i).mp hi)
  constructor
  · intro hlength i hi
    have hperm : ((firsts answers).map Prod.fst).Perm parties :=
      (List.subperm_of_subset (nodup_fst answers) hsubset).perm_of_length_le (by simp [hlength])
    exact (mem_fst_iff answers i).mp (hperm.mem_iff.mpr hi)
  · intro hall
    refine Nat.le_antisymm (length_le hsub) ?_
    have hback : parties ⊆ (firsts answers).map Prod.fst := fun i hi =>
      (mem_fst_iff answers i).mpr (hall i hi)
    simpa using (List.subperm_of_subset hparties hback).length_le

/-- When every party has answered, what was heard is what each said first. -/
theorem perm (hparties : parties.Nodup) (hsub : ∀ i ∈ answers.map Prod.fst, i ∈ parties)
    (hall : ∀ i ∈ parties, i ∈ answers.map Prod.fst) :
    ((firsts answers).map fun answer => (answer.1, some answer.2)).Perm
      (parties.map fun i => (i, first? answers i)) := by
  have heq : ((firsts answers).map fun answer => (answer.1, some answer.2))
      = ((firsts answers).map Prod.fst).map fun i => (i, first? answers i) := by
    rw [List.map_map]
    refine List.map_congr_left fun answer h => ?_
    rw [Function.comp_apply, first?_of_mem h]
  rw [heq]
  refine List.Perm.map _ ?_
  refine (List.perm_ext_iff_of_nodup (nodup_fst answers) hparties).mpr fun i => ?_
  exact ⟨fun hi => hsub i ((mem_fst_iff answers i).mp hi), fun hi =>
    (mem_fst_iff answers i).mpr (hall i hi)⟩

end

end Firsts
