/-
Counted loops and the arrays they work on.

    for (i = start; i < stop; i += stride) s = step i s;

is `Loop.run step start stride count s` with the number of turns written out.
What the loop keeps is proved of one turn and then holds of the whole
(`run_invariant`).  An array of fixed length is Lean's `Vector`, and `get_set`
says what a write changes.
-/
import Mathlib.Data.List.Basic

namespace Loop

variable {σ τ : Type}

def run (step : Nat → σ → σ) (start stride count : Nat) (s : σ) : σ :=
  (List.range' start count stride).foldl (fun s i => step i s) s

variable {step : Nat → σ → σ} {start stride : Nat}

@[simp] theorem run_zero (s : σ) : run step start stride 0 s = s := rfl

theorem run_succ (count : Nat) (s : σ) :
    run step start stride (count + 1) s
      = step (start + stride * count) (run step start stride count s) := by
  rw [run, List.range'_concat, List.foldl_append, List.foldl_cons, List.foldl_nil, run]

theorem run_invariant {P : Nat → σ → Prop} {count : Nat} {s : σ} (hstart : P 0 s)
    (hstep : ∀ k s, k < count → P k s → P (k + 1) (step (start + stride * k) s)) :
    P count (run step start stride count s) := by
  induction count with
  | zero => exact hstart
  | succ count ih =>
      rw [run_succ]
      exact hstep count _ (by omega) (ih fun k s hk => hstep k s (by omega))

/-! ## Arrays of fixed length -/

variable {α : Type} [Inhabited α] {n : Nat}

theorem get_set (xs : Vector α n) {i : Nat} (j : Nat) (x : α) (hi : i < n) :
    (xs.set! i x)[j]! = if i = j then x else xs[j]! := by
  grind

theorem get_ext {xs ys : Vector α n} (h : ∀ i < n, xs[i]! = ys[i]!) : xs = ys := by
  apply Vector.ext
  intro i hi
  have := h i hi
  rwa [getElem!_pos xs i hi, getElem!_pos ys i hi] at this

/-- A loop that changes one cell a turn, each from its own old value. -/
theorem get_run_set (g : Nat → α → α) {count : Nat} (xs : Vector α n) (j : Nat)
    (h : count ≤ n) :
    (run (fun i xs => xs.set! i (g i xs[i]!)) 0 1 count xs)[j]!
      = if j < count then g j xs[j]! else xs[j]! := by
  induction count generalizing j with
  | zero => rfl
  | succ count ih =>
      rw [run_succ, Nat.zero_add, Nat.one_mul, get_set _ _ _ (by omega), ih _ (by omega),
        ih _ (by omega), if_neg (Nat.lt_irrefl count)]
      rcases Nat.lt_trichotomy count j with h' | rfl | h'
      · rw [if_neg (by omega), if_neg (by omega), if_neg (by omega)]
      · rw [if_pos rfl, if_pos (by omega)]
      · rw [if_neg (by omega), if_pos h', if_pos (by omega)]

end Loop
