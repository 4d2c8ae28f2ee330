/-
Merkle trees over an arbitrary node operation.

`combine l r` is the parent of two nodes.  A level of odd width pairs its last
node with itself, as Bitcoin does.  What a miner needs is not the tree but the
branch of the *first* leaf: the right-hand siblings met on the way up, which
do not depend on that leaf, so that the root can be recomputed for every new
first leaf from the siblings alone.

    rootOf (a :: rest) = some (steps (a :: rest)).foldl combine a     (`rootOf_eq_foldl`)
    steps (a :: rest)  = steps (b :: rest)                            (`steps_head`)

The last section says what it takes for two first leaves to meet in one root:
a collision of `combine` on the path.
-/
import Mathlib.Data.List.ReduceOption

namespace Merkle

variable {α : Type} (combine : α → α → α)

/-! ## Levels -/

/-- The parents of one level. -/
def level : List α → List α
  | [] => []
  | [a] => [combine a a]
  | a :: b :: rest => combine a b :: level rest

theorem level_length : ∀ xs : List α, (level combine xs).length = (xs.length + 1) / 2
  | [] => by simp [level]
  | [_] => by simp [level]
  | _ :: _ :: rest => by
      simp only [level, List.length_cons, level_length rest]
      omega

theorem level_shrinks (a b : α) (rest : List α) :
    (level combine (a :: b :: rest)).length < (a :: b :: rest).length := by
  rw [level_length]
  simp only [List.length_cons]
  omega

theorem level_length_lt_cons (b : α) (rest : List α) :
    (level combine rest).length < (b :: rest).length := by
  rw [level_length]
  simp only [List.length_cons]
  omega

/-- The root: go up until one node is left. -/
def rootOf : List α → Option α
  | [] => none
  | [a] => some a
  | a :: b :: rest => rootOf (level combine (a :: b :: rest))
termination_by xs => xs.length
decreasing_by exact level_shrinks combine a b rest

/-- The siblings of the first leaf, from the leaves up. -/
def steps : List α → List α
  | [] => []
  | [_] => []
  | a :: b :: rest => b :: steps (level combine (a :: b :: rest))
termination_by xs => xs.length
decreasing_by exact level_shrinks combine a b rest

@[simp] theorem rootOf_singleton (a : α) : rootOf combine [a] = some a := by
  rw [rootOf]

@[simp] theorem steps_singleton (a : α) : steps combine [a] = [] := by
  rw [steps]

theorem rootOf_cons_cons (a b : α) (rest : List α) :
    rootOf combine (a :: b :: rest) = rootOf combine (combine a b :: level combine rest) := by
  rw [rootOf, level]

theorem steps_cons_cons (a b : α) (rest : List α) :
    steps combine (a :: b :: rest) = b :: steps combine (combine a b :: level combine rest) := by
  rw [steps, level]

/-! ## The branch of the first leaf -/

theorem rootOf_eq_foldl : ∀ (rest : List α) (a : α),
    rootOf combine (a :: rest) = some ((steps combine (a :: rest)).foldl combine a)
  | [], a => by simp
  | b :: rest, a => by
      rw [rootOf_cons_cons, steps_cons_cons, rootOf_eq_foldl (level combine rest) (combine a b)]
      rfl
termination_by rest => rest.length
decreasing_by exact level_length_lt_cons combine b rest

theorem steps_head : ∀ (rest : List α) (a a' : α),
    steps combine (a :: rest) = steps combine (a' :: rest)
  | [], a, a' => by simp
  | b :: rest, a, a' => by
      rw [steps_cons_cons, steps_cons_cons,
        steps_head (level combine rest) (combine a b) (combine a' b)]
termination_by rest => rest.length
decreasing_by exact level_length_lt_cons combine b rest

theorem level_all {P : α → Prop} (hcombine : ∀ a b, P (combine a b)) :
    ∀ xs : List α, ∀ x ∈ level combine xs, P x
  | [], x, hx => absurd hx List.not_mem_nil
  | [a], x, hx => by
      rw [level, List.mem_singleton] at hx
      rw [hx]
      exact hcombine a a
  | a :: b :: rest, x, hx => by
      rw [level] at hx
      rcases List.mem_cons.mp hx with rfl | hx
      · exact hcombine a b
      · exact level_all hcombine rest x hx

theorem steps_all {P : α → Prop} (hcombine : ∀ a b, P (combine a b)) :
    ∀ (rest : List α) (a : α), (∀ x ∈ rest, P x) → ∀ s ∈ steps combine (a :: rest), P s
  | [], a, _, s, hs => by
      rw [steps_singleton] at hs
      exact absurd hs List.not_mem_nil
  | b :: rest, a, h, s, hs => by
      rw [steps_cons_cons] at hs
      rcases List.mem_cons.mp hs with rfl | hs
      · exact h s List.mem_cons_self
      · exact steps_all hcombine (level combine rest) (combine a b)
          (level_all combine hcombine rest) s hs
termination_by rest => rest.length
decreasing_by exact level_length_lt_cons combine b rest

theorem length_steps_le : ∀ (rest : List α) (a : α),
    (steps combine (a :: rest)).length ≤ rest.length
  | [], a => by simp
  | b :: rest, a => by
      have hshort := level_length_lt_cons combine b rest
      have hrest := length_steps_le (level combine rest) (combine a b)
      rw [steps_cons_cons, List.length_cons]
      omega
termination_by rest => rest.length
decreasing_by exact level_length_lt_cons combine b rest

/-- The proof of the first leaf in the layout tree libraries publish: at every
level the pair on the path, with the node that can be derived left out
(`none`), and the root last.  At the leaf level both nodes are given. -/
def firstProof (a : α) (rest : List α) : List (Option α) :=
  match steps combine (a :: rest) with
  | [] => [some a]
  | s :: ss =>
      some a :: some s :: ss.flatMap (fun t => [none, some t]) ++ [rootOf combine (a :: rest)]

theorem firstProof_interior (a : α) (rest : List α) :
    ((firstProof combine a rest).drop 1).dropLast.reduceOption = steps combine (a :: rest) := by
  unfold firstProof
  cases hs : steps combine (a :: rest) with
  | nil => rfl
  | cons s ss =>
      have hgaps : ∀ ts : List α, (ts.flatMap (fun t => [none, some t])).reduceOption = ts := by
        intro ts
        induction ts with
        | nil => rfl
        | cons t ts ih => simpa [List.reduceOption_cons_of_none] using ih
      simp only [List.cons_append, List.drop_succ_cons, List.drop_zero]
      rw [← List.cons_append, List.dropLast_concat]
      simp [hgaps ss]

/-! ## Two leaves under one root -/

/-- If two values reach the same node through the same siblings, either they
are equal or `combine` collides somewhere on the way. -/
theorem foldl_collision : ∀ (ss : List α) {a b : α},
    ss.foldl combine a = ss.foldl combine b → a ≠ b →
    ∃ s ∈ ss, ∃ u v, u ≠ v ∧ combine u s = combine v s
  | [], _, _, h, hne => absurd h hne
  | s :: ss, a, b, h, hne => by
      by_cases hc : combine a s = combine b s
      · exact ⟨s, List.mem_cons_self, a, b, hne, hc⟩
      · obtain ⟨t, ht, u, v, huv, hcol⟩ := foldl_collision ss h hc
        exact ⟨t, List.mem_cons_of_mem _ ht, u, v, huv, hcol⟩

end Merkle
