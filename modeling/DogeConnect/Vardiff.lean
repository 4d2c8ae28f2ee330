/-
Variable difficulty: `stratum/main/difficulty.js` of both pools.

The average of a client's last share intervals is held against two thresholds,
whose names are swapped: `maxTime` is the lower one and `minTime` the upper.  The
branch that shifts down is tried first and is taken from the lower threshold on,
so inside the band and above it; the branch that shifts up is left with what is
below the band, and with the band for a client at the minimum.  Each branch keeps
the result from crossing one of the limits only, and what is emitted is rounded to
eight decimals:

    toFixed8_le_iff, le_toFixed8_iff   where the rounded value lies
    handleDifficulty_due               what the branches emit, as a max and a min
    handleDifficulty_proper_iff        when that is what it should be
    shiftsProperly_outside             outside the band it is, given eight decimals
    inBand_aboveMaximum                inside the band it can be out of range

Numbers are exact rationals, with `⊤` for the quotient by an average of 0.
-/
import DogeConnect.Lib.Fixed
import DogeConnect.Json
import Mathlib.Algebra.Order.Ring.WithTop
import Mathlib.Data.Rat.Floor

namespace DogeConnect

namespace Vardiff

/-! ## The code -/

/-- The `difficulty` part of a port's configuration. -/
structure Config where
  minimum : ℚ
  maximum : ℚ
  targetTime : ℚ
  retargetTime : ℚ
  variance : ℚ
  minimum_pos : 0 < minimum
  minimum_le : minimum ≤ maximum
  targetTime_pos : 0 < targetTime
  variance_nonneg : 0 ≤ variance
  variance_lt : variance < 1

namespace Config

def maxSize (config : Config) : ℚ := config.retargetTime / config.targetTime * 4

/-- The upper end of the band. -/
def minTime (config : Config) : ℚ := config.targetTime * (1 + config.variance)

/-- The lower end of the band. -/
def maxTime (config : Config) : ℚ := config.targetTime * (1 - config.variance)

end Config

/-- What the object keeps between its calls; the times are those of all clients. -/
structure Saved where
  clients : Str → Option (List ℚ)
  lastRetargetTime : Option ℚ
  lastSavedTime : Option ℚ

/-- `queue.reduce((a, b) => a + b, 0) / queue.length`. -/
def average (queue : List ℚ) : ℚ := queue.sum / queue.length

/-- A division of a positive number. -/
def quotient (a b : ℚ) : WithTop ℚ := if b = 0 then ⊤ else ↑(a / b)

/-- `none` for the `undefined` of the early return, `some none` for `null`. -/
def checkDifficulty (config : Config) (clients : Str → Option (List ℚ)) (id : Str)
    (difficulty : ℚ) : Option (Option (WithTop ℚ)) :=
  match clients id with
  | none => none
  -- the average is NaN, and no comparison holds of it
  | some [] => some none
  | some (interval :: queue) =>
    let curAverage := average (interval :: queue)
    let curDifference := quotient config.targetTime curAverage
    if curAverage > config.maxTime ∧ difficulty > config.minimum then
      if curDifference * difficulty < config.minimum then
        some (some ↑(config.minimum / difficulty))
      else some (some curDifference)
    else if curAverage < config.minTime ∧ difficulty < config.maximum then
      if curDifference * difficulty > config.maximum then
        some (some ↑(config.maximum / difficulty))
      else some (some curDifference)
    else some none

/-- `parseFloat(x.toFixed(8))` for a positive number: from 10^21 on `toFixed` does not
round. -/
def toFixed8 (x : ℚ) : ℚ := if x < 10 ^ 21 then Fixed.round (10 ^ 8) x else x

/-- `(Date.now() / 1000) | 0`. -/
def curTime (now : Nat) : ℚ := (Int.bmod (now / 1000) (2 ^ 32) : Int)

/-- The last retarget time, where it is truthy. -/
def Saved.retargeted (s : Saved) : Option ℚ :=
  s.lastRetargetTime.filter (· ≠ 0)

/-- The queue of the client with the new interval. -/
def Saved.pushed (config : Config) (s : Saved) (id : Str) (now : Nat) : List ℚ :=
  let queue := (s.clients id).getD []
  (if (queue.length : ℚ) ≥ config.maxSize then queue.tail else queue) ++
    [curTime now - s.lastSavedTime.getD 0]

/-- The object after the call, and what is emitted as the client's new difficulty. -/
def handleDifficulty (config : Config) (s : Saved) (id : Str) (difficulty : ℚ) (now : Nat) :
    Saved × Option (WithTop ℚ) :=
  match s.retargeted with
  | none =>
    (⟨if (s.clients id).isNone then Function.update s.clients id (some []) else s.clients,
      some (curTime now - config.retargetTime / 2), some (curTime now)⟩, none)
  | some lastRetargetTime =>
    let clients := Function.update s.clients id (some (s.pushed config id now))
    if curTime now - lastRetargetTime < config.retargetTime then
      (⟨clients, s.lastRetargetTime, some (curTime now)⟩, none)
    else
      (⟨clients, some (curTime now), some (curTime now)⟩,
        match checkDifficulty config clients id difficulty with
        | some (some updatedDifficulty) => some ((↑difficulty * updatedDifficulty).map toFixed8)
        -- the client is recorded, so that `undefined` is not returned
        | some none | none => none)

/-! ## What is to be emitted -/

/-- The emitted difficulty is in range and on the right side of the current one. -/
def Proper (config : Config) (difficulty average : ℚ) (emitted : Option (WithTop ℚ)) : Prop :=
  ∀ x, emitted = some x →
    (↑config.minimum ≤ x ∧ x ≤ ↑config.maximum) ∧
    (config.minTime < average → x ≤ ↑difficulty) ∧
    (average < config.maxTime → ↑difficulty ≤ x) ∧
    (config.maxTime ≤ average → average ≤ config.minTime → x = ↑difficulty)

/-- The call comes to the check. -/
def Saved.Due (config : Config) (s : Saved) (now : Nat) : Prop :=
  ∃ last, s.retargeted = some last ∧ config.retargetTime ≤ curTime now - last

/-- Where `x` is for eight decimals to leave it at most `b`. -/
def RoundsAtMost (b x : ℚ) : Prop :=
  if b < 10 ^ 21 then x * 10 ^ 8 < ⌊b * 10 ^ 8⌋ + 1 / 2 else x ≤ b

/-- Where `x` is for eight decimals to leave it at least `a`. -/
def RoundsAtLeast (a x : ℚ) : Prop :=
  if a ≤ 10 ^ 21 then ⌈a * 10 ^ 8⌉ - 1 / 2 ≤ x * 10 ^ 8 else a ≤ x

/-- `targetTime * difficulty / average` or else the minimum rounds to between `lowest`
and the current difficulty. -/
def LowersProperly (config : Config) (difficulty average lowest : ℚ) : Prop :=
  (RoundsAtMost difficulty (difficulty * (config.targetTime / average)) ∧
    RoundsAtMost difficulty config.minimum) ∧
  (RoundsAtLeast lowest (difficulty * (config.targetTime / average)) ∨
    RoundsAtLeast lowest config.minimum)

/-- `targetTime * difficulty / average` or else the maximum rounds to between the current
difficulty and `highest`. -/
def RaisesProperly (config : Config) (difficulty average highest : ℚ) : Prop :=
  ((average = 0 ∨ RoundsAtLeast difficulty (difficulty * (config.targetTime / average))) ∧
    RoundsAtLeast difficulty config.maximum) ∧
  ((average ≠ 0 ∧ RoundsAtMost highest (difficulty * (config.targetTime / average))) ∨
    RoundsAtMost highest config.maximum)

/-- Inside the band the difficulty is to stay, so that there the two bounds are one. -/
def ShiftsProperly (config : Config) (difficulty average : ℚ) : Prop :=
  if config.maxTime < average ∧ config.minimum < difficulty then
    LowersProperly config difficulty average
      (if config.minTime < average then config.minimum else difficulty)
  else if average < config.minTime ∧ difficulty < config.maximum then
    RaisesProperly config difficulty average
      (if average < config.maxTime then config.maximum else difficulty)
  else True

instance (b x : ℚ) : Decidable (RoundsAtMost b x) := inferInstanceAs (Decidable (ite _ _ _))

instance (a x : ℚ) : Decidable (RoundsAtLeast a x) := inferInstanceAs (Decidable (ite _ _ _))

instance (config : Config) (difficulty average lowest : ℚ) :
    Decidable (LowersProperly config difficulty average lowest) :=
  inferInstanceAs (Decidable ((_ ∧ _) ∧ (_ ∨ _)))

instance (config : Config) (difficulty average highest : ℚ) :
    Decidable (RaisesProperly config difficulty average highest) :=
  inferInstanceAs (Decidable (((_ ∨ _) ∧ _) ∧ (_ ∧ _ ∨ _)))

instance (config : Config) (difficulty average : ℚ) :
    Decidable (ShiftsProperly config difficulty average) :=
  inferInstanceAs (Decidable (ite _ _ (ite _ _ _)))

/-! ## Rounding -/

theorem round_le_limit {x : ℚ} (hx : x < 10 ^ 21) : Fixed.round (10 ^ 8) x ≤ 10 ^ 21 := by
  have hlimit : Fixed.round (10 ^ 8) (10 ^ 21 : ℚ) = 10 ^ 21 := by
    have hgrid := Fixed.round_grid (K := ℚ) (u := 10 ^ 8) (by norm_num) (10 ^ 29)
    norm_num at hgrid ⊢
    exact hgrid
  calc Fixed.round (10 ^ 8) x ≤ Fixed.round (10 ^ 8) (10 ^ 21) :=
        Fixed.round_mono (by norm_num) hx.le
    _ = 10 ^ 21 := hlimit

theorem toFixed8_mono : Monotone toFixed8 := by
  intro x y hxy
  rw [toFixed8, toFixed8]
  split_ifs with hx hy hy
  · exact Fixed.round_mono (by norm_num) hxy
  · exact (round_le_limit hx).trans (le_of_not_gt hy)
  · exact absurd (lt_of_le_of_lt hxy hy) hx
  · exact hxy

theorem toFixed8_le_iff (b x : ℚ) : toFixed8 x ≤ b ↔ RoundsAtMost b x := by
  rw [toFixed8, RoundsAtMost]
  split_ifs with hx hb hb
  · exact Fixed.round_le_iff (by norm_num) b x
  · exact iff_of_true ((round_le_limit hx).trans (le_of_not_gt hb)) (hx.le.trans (le_of_not_gt hb))
  · refine iff_of_false (fun hle => hx (lt_of_le_of_lt hle hb)) fun hlt => hx ?_
    have hfloor : ⌊b * 10 ^ 8⌋ < 10 ^ 29 := by
      rw [Int.floor_lt]
      push_cast
      linarith
    generalize ⌊b * 10 ^ 8⌋ = n at hlt hfloor
    have hcast : (n : ℚ) + 1 ≤ 10 ^ 29 := by exact_mod_cast Int.add_one_le_iff.mpr hfloor
    linarith
  · rfl

theorem le_toFixed8_iff (a x : ℚ) : a ≤ toFixed8 x ↔ RoundsAtLeast a x := by
  rw [toFixed8, RoundsAtLeast]
  split_ifs with hx ha ha
  · exact Fixed.le_round_iff (by norm_num) a x
  · refine iff_of_false (fun hle => ha (hle.trans (round_le_limit hx))) fun hle => ha ?_
    exact hle.trans hx.le
  · refine iff_of_true (ha.trans (le_of_not_gt hx)) ?_
    have hceil : ⌈a * 10 ^ 8⌉ ≤ 10 ^ 29 := by
      rw [Int.ceil_le]
      push_cast
      linarith
    generalize ⌈a * 10 ^ 8⌉ = n at hceil ⊢
    have hcast : (n : ℚ) ≤ 10 ^ 29 := by exact_mod_cast hceil
    linarith
  · rfl

/-! ## The two branches -/

variable {config : Config} {difficulty : ℚ}

theorem Config.maxTime_pos (config : Config) : 0 < config.maxTime :=
  mul_pos config.targetTime_pos (sub_pos.mpr config.variance_lt)

/-- What is emitted for a client whose queue holds something. -/
def emitted (config : Config) (difficulty curAverage : ℚ) : Option (WithTop ℚ) :=
  if config.maxTime < curAverage ∧ config.minimum < difficulty then
    some ↑(toFixed8 (max (difficulty * (config.targetTime / curAverage)) config.minimum))
  else if curAverage < config.minTime ∧ difficulty < config.maximum then
    some ↑(toFixed8 (if curAverage = 0 then config.maximum
      else min (difficulty * (config.targetTime / curAverage)) config.maximum))
  else none

theorem quotient_of_ne {a b : ℚ} (h : b ≠ 0) : quotient a b = ↑(a / b) := if_neg h

theorem map_clamped (hdifficulty : 0 < difficulty) (limit : ℚ) :
    ((difficulty : WithTop ℚ) * ↑(limit / difficulty)).map toFixed8 = ↑(toFixed8 limit) := by
  rw [← WithTop.coe_mul, mul_div_cancel₀ _ hdifficulty.ne', WithTop.map_coe]

theorem checkDifficulty_emitted (config : Config) (hdifficulty : 0 < difficulty)
    {clients : Str → Option (List ℚ)} {id : Str} {queue : List ℚ}
    (hqueue : clients id = some queue) (hne : queue ≠ []) :
    ∃ updated, checkDifficulty config clients id difficulty = some updated ∧
      updated.map (fun u => (↑difficulty * u).map toFixed8)
        = emitted config difficulty (average queue) := by
  cases queue with
  | nil => exact absurd rfl hne
  | cons interval queue =>
      rw [checkDifficulty, hqueue]
      dsimp only
      generalize average (interval :: queue) = curAverage
      rw [emitted]
      split
      next hdown =>
        have hzero : curAverage ≠ 0 := (config.maxTime_pos.trans hdown.1).ne'
        rw [quotient_of_ne hzero, ← WithTop.coe_mul, mul_comm]
        split
        next hlow =>
          rw [WithTop.coe_lt_coe] at hlow
          refine ⟨_, rfl, ?_⟩
          rw [Option.map_some, map_clamped hdifficulty, max_eq_right hlow.le]
        next hlow =>
          rw [WithTop.coe_lt_coe] at hlow
          refine ⟨_, rfl, ?_⟩
          rw [Option.map_some, ← WithTop.coe_mul, WithTop.map_coe, max_eq_left (le_of_not_gt hlow)]
      · split
        next hup =>
          by_cases hzero : curAverage = 0
          · have htop : quotient config.targetTime curAverage = ⊤ := if_pos hzero
            rw [htop, WithTop.top_mul (by exact_mod_cast hdifficulty.ne'),
              if_pos (WithTop.coe_lt_top _), if_pos hzero]
            refine ⟨_, rfl, ?_⟩
            rw [Option.map_some, map_clamped hdifficulty]
          · rw [quotient_of_ne hzero, ← WithTop.coe_mul, mul_comm, if_neg hzero]
            split
            next hhigh =>
              rw [gt_iff_lt, WithTop.coe_lt_coe] at hhigh
              refine ⟨_, rfl, ?_⟩
              rw [Option.map_some, map_clamped hdifficulty, min_eq_right hhigh.le]
            next hhigh =>
              rw [gt_iff_lt, WithTop.coe_lt_coe] at hhigh
              refine ⟨_, rfl, ?_⟩
              rw [Option.map_some, ← WithTop.coe_mul, WithTop.map_coe,
                min_eq_left (le_of_not_gt hhigh)]
        · exact ⟨_, rfl, rfl⟩

/-- A call that comes to the check emits what the branches make of the queue. -/
theorem handleDifficulty_due (hdifficulty : 0 < difficulty) {s : Saved} {now : Nat}
    (hdue : s.Due config now) (id : Str) :
    (handleDifficulty config s id difficulty now).2
      = emitted config difficulty (average (s.pushed config id now)) := by
  obtain ⟨last, hlast, hlong⟩ := hdue
  have hne : s.pushed config id now ≠ [] := List.concat_ne_nil _ _
  obtain ⟨updated, hcheck, hemitted⟩ := checkDifficulty_emitted config hdifficulty
    (Function.update_self id (some (s.pushed config id now)) s.clients) hne
  rw [handleDifficulty, hlast]
  dsimp only
  rw [if_neg (not_lt.mpr hlong), hcheck, ← hemitted]
  cases updated <;> rfl

theorem handleDifficulty_not_due {s : Saved} {now : Nat} (hdue : ¬ s.Due config now) (id : Str) :
    (handleDifficulty config s id difficulty now).2 = none := by
  rw [handleDifficulty]
  split
  · rfl
  next last hlast =>
    rw [if_pos (lt_of_not_ge fun hlong => hdue ⟨last, hlast, hlong⟩)]

/-! ## What is emitted, and what is to be -/

theorem proper_none (config : Config) (difficulty curAverage : ℚ) :
    Proper config difficulty curAverage none := nofun

theorem proper_some_iff {curAverage x : ℚ} :
    Proper config difficulty curAverage (some ↑x) ↔
      (config.minimum ≤ x ∧ x ≤ config.maximum) ∧
      (config.minTime < curAverage → x ≤ difficulty) ∧
      (curAverage < config.maxTime → difficulty ≤ x) ∧
      (config.maxTime ≤ curAverage → curAverage ≤ config.minTime → x = difficulty) := by
  simp only [Proper, Option.some.injEq, forall_eq', WithTop.coe_le_coe, WithTop.coe_inj]

/-- From the lower threshold on, with the bounds of the band inside it and of the minimum above. -/
theorem proper_lowered_iff {curAverage x : ℚ} (hmin : config.minimum ≤ difficulty)
    (hmax : difficulty ≤ config.maximum) (haverage : config.maxTime < curAverage) :
    Proper config difficulty curAverage (some ↑x) ↔
      x ≤ difficulty ∧
        (if config.minTime < curAverage then config.minimum else difficulty) ≤ x := by
  rw [proper_some_iff]
  split
  next hout =>
    constructor
    · rintro ⟨⟨hlow, -⟩, hdown, -⟩
      exact ⟨hdown hout, hlow⟩
    · rintro ⟨hle, hge⟩
      exact ⟨⟨hge, hle.trans hmax⟩, fun _ => hle, fun hlt => absurd hlt haverage.not_gt,
        fun _ hin => absurd hout hin.not_gt⟩
  next hin =>
    have hin := le_of_not_gt hin
    constructor
    · rintro ⟨-, -, -, hstay⟩
      have heq := hstay haverage.le hin
      exact ⟨heq.le, heq.ge⟩
    · rintro ⟨hle, hge⟩
      exact ⟨⟨hmin.trans hge, hle.trans hmax⟩, fun _ => hle, fun _ => hge,
        fun _ _ => le_antisymm hle hge⟩

theorem proper_raised_iff {curAverage x : ℚ} (hmin : config.minimum ≤ difficulty)
    (hmax : difficulty ≤ config.maximum) (haverage : curAverage < config.minTime) :
    Proper config difficulty curAverage (some ↑x) ↔
      difficulty ≤ x ∧
        x ≤ (if curAverage < config.maxTime then config.maximum else difficulty) := by
  rw [proper_some_iff]
  split
  next hout =>
    constructor
    · rintro ⟨⟨-, hhigh⟩, -, hup, -⟩
      exact ⟨hup hout, hhigh⟩
    · rintro ⟨hge, hle⟩
      exact ⟨⟨hmin.trans hge, hle⟩, fun hlt => absurd hlt haverage.not_gt, fun _ => hge,
        fun hin _ => absurd hout hin.not_gt⟩
  next hin =>
    have hin := le_of_not_gt hin
    constructor
    · rintro ⟨-, -, -, hstay⟩
      have heq := hstay hin haverage.le
      exact ⟨heq.ge, heq.le⟩
    · rintro ⟨hge, hle⟩
      exact ⟨⟨hmin.trans hge, hle.trans hmax⟩, fun _ => hle, fun _ => hge,
        fun _ _ => le_antisymm hle hge⟩

theorem lowers_iff (config : Config) (difficulty curAverage lowest : ℚ) :
    (toFixed8 (max (difficulty * (config.targetTime / curAverage)) config.minimum) ≤ difficulty ∧
      lowest ≤ toFixed8 (max (difficulty * (config.targetTime / curAverage)) config.minimum)) ↔
    LowersProperly config difficulty curAverage lowest := by
  rw [toFixed8_mono.map_max, max_le_iff, le_max_iff, toFixed8_le_iff, toFixed8_le_iff,
    le_toFixed8_iff, le_toFixed8_iff, LowersProperly]

theorem raises_iff (config : Config) (difficulty curAverage highest : ℚ) :
    (difficulty ≤ toFixed8 (if curAverage = 0 then config.maximum
        else min (difficulty * (config.targetTime / curAverage)) config.maximum) ∧
      toFixed8 (if curAverage = 0 then config.maximum
        else min (difficulty * (config.targetTime / curAverage)) config.maximum) ≤ highest) ↔
    RaisesProperly config difficulty curAverage highest := by
  rw [RaisesProperly]
  by_cases hzero : curAverage = 0
  · rw [if_pos hzero, toFixed8_le_iff, le_toFixed8_iff]
    simp only [hzero, true_or, true_and, ne_eq, not_true, false_and, false_or]
  · rw [if_neg hzero, toFixed8_mono.map_min, le_min_iff, min_le_iff, toFixed8_le_iff,
      toFixed8_le_iff, le_toFixed8_iff, le_toFixed8_iff]
    simp only [hzero, false_or, ne_eq, not_false_eq_true, true_and]

theorem emitted_proper_iff {curAverage : ℚ} (hmin : config.minimum ≤ difficulty)
    (hmax : difficulty ≤ config.maximum) :
    Proper config difficulty curAverage (emitted config difficulty curAverage) ↔
      ShiftsProperly config difficulty curAverage := by
  rw [emitted, ShiftsProperly]
  split
  next hdown => rw [proper_lowered_iff hmin hmax hdown.1, lowers_iff]
  · split
    next hup => rw [proper_raised_iff hmin hmax hup.1, raises_iff]
    · exact iff_of_true (proper_none config difficulty curAverage) trivial

/-- The emitted difficulty is what it should be exactly where the call does not come to the
check, no branch is taken, or the branch that is taken rounds to the right side. -/
theorem handleDifficulty_proper_iff (config : Config) (s : Saved) (id : Str) (difficulty : ℚ)
    (now : Nat) (hmin : config.minimum ≤ difficulty) (hmax : difficulty ≤ config.maximum) :
    Proper config difficulty (average (s.pushed config id now))
        (handleDifficulty config s id difficulty now).2 ↔
      (s.Due config now → ShiftsProperly config difficulty (average (s.pushed config id now))) := by
  have hdifficulty : 0 < difficulty := lt_of_lt_of_le config.minimum_pos hmin
  by_cases hdue : s.Due config now
  · rw [handleDifficulty_due hdifficulty hdue, emitted_proper_iff hmin hmax]
    exact ⟨fun h _ => h, fun h => h hdue⟩
  · rw [handleDifficulty_not_due hdue]
    exact iff_of_true (proper_none _ _ _) fun h => absurd h hdue

/-- Outside the band nothing is wrong but what eight decimals cannot write. -/
theorem shiftsProperly_outside {curAverage : ℚ} (hmin : config.minimum ≤ difficulty)
    (hmax : difficulty ≤ config.maximum) (hnonneg : 0 ≤ curAverage)
    (hminimum : toFixed8 config.minimum = config.minimum)
    (hmaximum : toFixed8 config.maximum = config.maximum)
    (hdifficulty : toFixed8 difficulty = difficulty)
    (hout : curAverage < config.maxTime ∨ config.minTime < curAverage) :
    ShiftsProperly config difficulty curAverage := by
  have hpos : 0 < difficulty := lt_of_lt_of_le config.minimum_pos hmin
  have hbelow : ∀ x, x ≤ difficulty → RoundsAtMost difficulty x := fun x hx =>
    (toFixed8_le_iff _ _).mp ((toFixed8_mono hx).trans_eq hdifficulty)
  have habove : ∀ x, difficulty ≤ x → RoundsAtLeast difficulty x := fun x hx =>
    (le_toFixed8_iff _ _).mp (hdifficulty.ge.trans (toFixed8_mono hx))
  rw [ShiftsProperly]
  split
  next hdown =>
    have hhigh : config.minTime < curAverage := hout.resolve_left hdown.1.not_gt
    have hlong : config.targetTime / curAverage ≤ 1 := by
      rw [div_le_one (config.maxTime_pos.trans hdown.1)]
      refine le_trans ?_ hhigh.le
      exact le_mul_of_one_le_right config.targetTime_pos.le (by linarith [config.variance_nonneg])
    rw [if_pos hhigh]
    exact ⟨⟨hbelow _ (mul_le_of_le_one_right hpos.le hlong), hbelow _ hmin⟩,
      .inr ((le_toFixed8_iff _ _).mp hminimum.ge)⟩
  · split
    next hup =>
      have hlow : curAverage < config.maxTime := hout.resolve_right hup.1.not_gt
      rw [if_pos hlow]
      refine ⟨⟨?_, habove _ hmax⟩, .inr ((toFixed8_le_iff _ _).mp hmaximum.le)⟩
      rcases hnonneg.eq_or_lt with hzero | hpositive
      · exact .inl hzero.symm
      · refine .inr (habove _ (le_mul_of_one_le_right hpos.le ?_))
        rw [one_le_div hpositive]
        refine hlow.le.trans ?_
        exact mul_le_of_le_one_right config.targetTime_pos.le (by linarith [config.variance_nonneg])
    · trivial

/-- A port with a band from 10.5 to 19.5 seconds. -/
def portConfig : Config where
  minimum := 8
  maximum := 512
  targetTime := 15
  retargetTime := 90
  variance := 3 / 10
  minimum_pos := by norm_num
  minimum_le := by norm_num
  targetTime_pos := by norm_num
  variance_nonneg := by norm_num
  variance_lt := by norm_num

/-- A share at 1634742080, so many seconds after the last one. -/
def lastShare (interval : ℚ) : Saved :=
  ⟨fun _ => none, some 1634741500, some (1634742080 - interval)⟩

theorem slowShare_lowered :
    Proper portConfig 32 (average ((lastShare 575).pushed portConfig [] 1634742080841))
      (handleDifficulty portConfig (lastShare 575) [] 32 1634742080841).2 :=
  (handleDifficulty_proper_iff portConfig (lastShare 575) [] 32 1634742080841
    (by decide +kernel) (by decide +kernel)).mpr fun _ => by decide +kernel

/-- Shares come every 12 seconds, and the difficulty is at the maximum. -/
theorem inBand_aboveMaximum :
    (lastShare 12).pushed portConfig [] 1634742080841 = [12] ∧
    (handleDifficulty portConfig (lastShare 12) [] 512 1634742080841).2 = some ↑(640 : ℚ) ∧
    ¬ Proper portConfig 512 (average [12])
      (handleDifficulty portConfig (lastShare 12) [] 512 1634742080841).2 := by
  have hemitted :
      (handleDifficulty portConfig (lastShare 12) [] 512 1634742080841).2 = some ↑(640 : ℚ) := by
    decide +kernel
  refine ⟨by decide +kernel, hemitted, fun h => ?_⟩
  rw [hemitted, proper_some_iff] at h
  exact absurd h.1.2 (by decide +kernel)

end Vardiff

end DogeConnect
