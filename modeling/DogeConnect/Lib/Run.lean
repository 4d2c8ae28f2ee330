/-
Runs of a labelled transition system given as a partial function.

`step s a` is the state after action `a`, or `none` where `a` is not enabled.
A run is a list of actions, so that an interleaving of threads is a list of
which thread moves and with what input, and a concrete run can be evaluated.

    Always Q   every state reached along the run satisfies `Q`
    Along ok   every action taken along the run meets `ok` in the state before it

Both are by recursion on the run.  The one induction that is needed, an
invariant preserved by the steps that meet `ok`, is done here once.
-/
import Mathlib.Tactic.Basic

namespace Run

variable {σ α : Type} (step : σ → α → Option σ)

/-- The state after a run, if every action was enabled. -/
def exec : σ → List α → Option σ
  | s, [] => some s
  | s, a :: as => (step s a).bind (fun s' => exec s' as)

/-- `Q` holds of every state reached along the run, the first included. -/
def Always (Q : σ → Prop) : σ → List α → Prop
  | s, [] => Q s
  | s, a :: as => Q s ∧ ∀ s', step s a = some s' → Always Q s' as

/-- Every enabled action along the run meets `ok` in the state before it. -/
def Along (ok : σ → α → Prop) : σ → List α → Prop
  | _, [] => True
  | s, a :: as => ∀ s', step s a = some s' → ok s a ∧ Along ok s' as

variable {step}

theorem Always.head {Q : σ → Prop} {s : σ} {as : List α} (h : Always step Q s as) : Q s := by
  cases as with
  | nil => exact h
  | cons a as => exact h.1

theorem Always.mono {Q Q' : σ → Prop} (hQ : ∀ s, Q s → Q' s) :
    ∀ {as : List α} {s : σ}, Always step Q s as → Always step Q' s as
  | [], _, h => hQ _ h
  | _ :: _, _, h => ⟨hQ _ h.1, fun s' hs => Always.mono hQ (h.2 s' hs)⟩

theorem Along.cons {ok : σ → α → Prop} {s s' : σ} {a : α} {as : List α}
    (hstep : step s a = some s') (hok : ok s a) (hrest : Along step ok s' as) :
    Along step ok s (a :: as) := by
  intro t ht
  rw [hstep] at ht
  cases ht
  exact ⟨hok, hrest⟩

theorem Along.and {ok ok' : σ → α → Prop} : ∀ {as : List α} {s : σ},
    Along step ok s as → Along step ok' s as → Along step (fun s a => ok s a ∧ ok' s a) s as
  | [], _, _, _ => trivial
  | _ :: _, _, h, h' => fun s' hs =>
      ⟨⟨(h s' hs).1, (h' s' hs).1⟩, Along.and (h s' hs).2 (h' s' hs).2⟩

/-- An invariant of the steps that meet `ok` holds along every run that does. -/
theorem always_of_along {I : σ → Prop} {ok : σ → α → Prop}
    (hstep : ∀ s a s', I s → ok s a → step s a = some s' → I s') :
    ∀ {as : List α} {s : σ}, I s → Along step ok s as → Always step I s as
  | [], _, hi, _ => hi
  | a :: _, s, hi, h =>
      ⟨hi, fun s' hs =>
        always_of_along hstep (hstep s a s' hi (h s' hs).1 hs) (h s' hs).2⟩

theorem always_of_step {I : σ → Prop}
    (hstep : ∀ s a s', I s → step s a = some s' → I s') :
    ∀ {as : List α} {s : σ}, I s → Always step I s as
  | [], _, hi => hi
  | a :: _, s, hi => ⟨hi, fun s' hs => always_of_step hstep (hstep s a s' hi hs)⟩

theorem along_of_along {I : σ → Prop} {ok ok' : σ → α → Prop}
    (hstep : ∀ s a s', I s → step s a = some s' → I s')
    (hok : ∀ s a, I s → ok s a → ok' s a) :
    ∀ {as : List α} {s : σ}, I s → Along step ok s as → Along step ok' s as
  | [], _, _, _ => trivial
  | a :: _, s, hi, h => fun s' hs =>
      ⟨hok s a hi (h s' hs).1, along_of_along hstep hok (hstep s a s' hi hs) (h s' hs).2⟩

/-- Where an invariant makes `ok` the exact condition for the next state to
satisfy `Q`, a run stays in `Q` just when all its steps meet `ok`. -/
theorem always_iff_along {I Q : σ → Prop} {ok : σ → α → Prop}
    (hstep : ∀ s a s', I s → Q s → step s a = some s' →
      (Q s' ↔ ok s a) ∧ (Q s' → I s')) :
    ∀ {as : List α} {s : σ}, I s → Q s → (Always step Q s as ↔ Along step ok s as)
  | [], _, _, hq => ⟨fun _ => trivial, fun _ => hq⟩
  | a :: as, s, hi, hq => by
      constructor
      · rintro ⟨-, h⟩ s' hs
        have hnext := hstep s a s' hi hq hs
        have hq' : Q s' := (h s' hs).head
        exact ⟨hnext.1.mp hq', (always_iff_along hstep (hnext.2 hq') hq').mp (h s' hs)⟩
      · intro h
        refine ⟨hq, fun s' hs => ?_⟩
        have hnext := hstep s a s' hi hq hs
        have hq' : Q s' := hnext.1.mpr (h s' hs).1
        exact (always_iff_along hstep (hnext.2 hq') hq').mpr (h s' hs).2

/-- Along a run whose actions all meet `pre`, what each step must have met for the
next state to satisfy `Q`. -/
theorem along_of_always {I Q : σ → Prop} {pre ok : σ → α → Prop}
    (hstep : ∀ s a s', I s → pre s a → step s a = some s' → Q s' → ok s a ∧ I s') :
    ∀ {as : List α} {s : σ}, I s → Along step pre s as → Always step Q s as →
      Along step ok s as
  | [], _, _, _, _ => trivial
  | a :: _, s, hi, hpre, h => fun s' hs => by
      have hnext := hstep s a s' hi (hpre s' hs).1 hs (h.2 s' hs).head
      exact ⟨hnext.1, along_of_always hstep hnext.2 (hpre s' hs).2 (h.2 s' hs)⟩

/-! ## Runs that are evaluated -/

/-- A condition that holds of the steps of a run, evaluated. -/
def checks (step : σ → α → Option σ) (check : σ → α → Bool) : σ → List α → Bool
  | _, [] => true
  | s, a :: as => (step s a).all fun s' => check s a && checks step check s' as

theorem along_of_checks {check : σ → α → Bool}
    {ok : σ → α → Prop} (hok : ∀ s a, check s a = true → ok s a) : ∀ {as : List α} {s : σ},
    checks step check s as = true → Run.Along step ok s as := by
  intro as
  induction as with
  | nil => exact fun _ => trivial
  | cons a as ih =>
      intro s h s' hs
      rw [checks, hs, Option.all_some, Bool.and_eq_true] at h
      exact ⟨hok s a h.1, ih h.2⟩

theorem exec_one {s t : σ} {a : α} (h : step s a = some t) : exec step s [a] = some t := by
  rw [exec, h]
  rfl

theorem exec_append : ∀ (as bs : List α) (s : σ),
    exec step s (as ++ bs) = (exec step s as).bind fun t => exec step t bs
  | [], _, _ => rfl
  | a :: as, bs, s => by
      rw [List.cons_append, exec, exec]
      cases step s a with
      | none => rfl
      | some s' => exact exec_append as bs s'

/-- The last state of an executed run satisfies whatever always holds. -/
theorem Always.exec {Q : σ → Prop} : ∀ {as : List α} {s t : σ},
    Always step Q s as → exec step s as = some t → Q t
  | [], _, _, h, ht => by cases ht; exact h
  | a :: as, s, t, h, ht => by
      simp only [Run.exec, Option.bind_eq_some_iff] at ht
      obtain ⟨s', hs, ht'⟩ := ht
      exact Always.exec (h.2 s' hs) ht'

/-! ## Ranks -/

/-- What a falling rank must end in happens within as many steps as the rank has
at the start. -/
theorem exists_lt_of_rank {P : Nat → Prop} (rank : Nat → Nat)
    (hstep : ∀ m, P m ∨ rank (m + 1) < rank m) :
    ∀ {bound : Nat}, rank 0 < bound → ∃ m, m < bound ∧ P m := by
  have hfall : ∀ m, (∀ k, k < m → ¬ P k) → rank m + m ≤ rank 0 := by
    intro m
    induction m with
    | zero => intro _; exact Nat.le_refl _
    | succ m ih =>
        intro hnone
        have hm := ih fun k hk => hnone k (Nat.lt_succ_of_lt hk)
        rcases hstep m with hp | hlt
        · exact absurd hp (hnone m (Nat.lt_succ_self m))
        · omega
  intro bound h
  refine Classical.byContradiction fun hnone => ?_
  have hall : ∀ k, k < bound → ¬ P k := fun k hk hp => hnone ⟨k, hk, hp⟩
  have hend := hfall bound hall
  omega

end Run
