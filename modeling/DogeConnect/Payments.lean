/-
What the miners get for a block: `handleValidation`, what `handlePrimaryRounds` makes of
the daemon's answer about a block, and `handlePrimaryWorkers`, of `stratum/main/pool.js`
(the same code in both pools; the auxiliary functions differ in the type they ask for).

A block's reward is split among its miners in proportion to their work, where the work of a
miner with less than 51% of the longest time is cut.  Every part is rounded on its own:

    abs_roundTo_sub_le   by how much, in exact arithmetic
    sum_minerRewards     so the parts add up to the reward, but for that
    paid_mono            more validated work is never paid less
    paid_add_neg         what is taken back is what was given, but at a midpoint
    settled_always       what a miner has been credited follows the block's category

The last one is about whole runs of checks, with `sending` off, in which the category moves
as the comment in `handleValidation` lists it.  A mature block that is told immature again
is outside of it: its reward is credited a second time.

Numbers are rationals, and each operation of the code is rounded as `Doubles` says; none
overflows.  Addresses are no numbers, and no names of properties every object has.
-/
import DogeConnect.Lib.Fixed
import DogeConnect.Lib.ProRata
import DogeConnect.Lib.Run
import DogeConnect.HashUtil
import Mathlib.Data.Rat.Floor

namespace DogeConnect

namespace Payments

/-! ## The code -/

/-- The rounding of a result to a double. -/
structure Doubles where
  round : ℚ → ℚ
  mono : Monotone round
  neg : ∀ x, round (-x) = -round x
  idem : ∀ x, round (round x) = round x

namespace Doubles

/-- Nothing is rounded. -/
def exact : Doubles := ⟨id, monotone_id, fun _ => rfl, fun _ => rfl⟩

variable (doubles : Doubles)

theorem zero : doubles.round 0 = 0 := by
  have hneg := doubles.neg 0
  rw [neg_zero] at hneg
  linarith

theorem nonneg {x : ℚ} (hx : 0 ≤ x) : 0 ≤ doubles.round x := doubles.zero.ge.trans (doubles.mono hx)

end Doubles

section
variable (doubles : Doubles)

/-- `parseFloat(x.toFixed(digits))`: from 10^21 on nothing is rounded. -/
def toFixed (digits : ℕ) (x : ℚ) : ℚ :=
  doubles.round (if |x| < 10 ^ 21 then Fixed.roundAway (10 ^ digits) x else x)

/-- `Math.round`: of two integers the larger. -/
def mathRound (x : ℚ) : ℚ := Fixed.round 1 x

def roundTo (n : ℚ) (digits : ℕ) : ℚ :=
  let multiplicator := 10 ^ digits
  let n := toFixed doubles 11 (doubles.round (n * multiplicator))
  let test := doubles.round (mathRound n / multiplicator)
  toFixed doubles digits test

/-- The time and the work of a worker, or of all workers of a miner. -/
structure Record where
  times : ℚ
  work : ℚ
  times_nonneg : 0 ≤ times
  work_nonneg : 0 ≤ work

structure Worker extends Record where
  miner : Str

/-- A further worker of the miner. -/
def Record.add (record worker : Record) : Record where
  times := max worker.times record.times
  work := doubles.round (record.work + worker.work)
  times_nonneg := le_max_of_le_left worker.times_nonneg
  work_nonneg := doubles.nonneg (add_nonneg record.work_nonneg worker.work_nonneg)

/-- The body of the loop over the workers: the keys of an object stay in the order in which
they came. -/
def combine (worker : Worker) : List (Str × Record) → List (Str × Record)
  | [] => [(worker.miner, worker.toRecord)]
  | (miner, record) :: combined =>
    if miner = worker.miner then (miner, record.add doubles worker.toRecord) :: combined
    else (miner, record) :: combine worker combined

def combined (workers : List Worker) : List (Str × Record) :=
  workers.foldl (fun combined worker => combine doubles worker combined) []

/-- No time is below zero, so that 0 may stand for the `-Infinity` of no worker. -/
def maxTime (workers : List Worker) : ℚ :=
  ((combined doubles workers).map fun entry => entry.2.times).foldr max 0

/-- `none` for the NaN of a division by zero. -/
def timePeriod (maxTime times : ℚ) : Option ℚ :=
  if maxTime = 0 then none else some (roundTo doubles (doubles.round (times / maxTime)) 2)

def shares (maxTime : ℚ) (worker : Record) : ℚ :=
  match timePeriod doubles maxTime worker.times with
  -- NaN is below nothing
  | none => worker.work
  | some timePeriod =>
    if timePeriod < doubles.round (51 / 100) then
      let lost := doubles.round (worker.work * doubles.round (1 - timePeriod))
      roundTo doubles (max (doubles.round (worker.work - lost)) 0) 2
    else worker.work

/-- No address comes twice, so that no second share is added to one. -/
def validated (workers : List Worker) : List (Str × ℚ) :=
  (combined doubles workers).map fun entry =>
    (entry.1, shares doubles (maxTime doubles workers) entry.2)

def totalWork (workers : List Worker) : ℚ :=
  max (((validated doubles workers).map Prod.snd).foldl
    (fun totalWork shares => doubles.round (totalWork + shares)) 0) (doubles.round (1 / 1000))

inductive Category
  | pending
  | immature
  | generate
  | orphan
  /-- A category of the daemon that is no block's. -/
  | other
  deriving DecidableEq

inductive BlockType
  | primary
  | auxiliary
  deriving DecidableEq

structure Block where
  type : BlockType
  category : Category
  previous : Category
  reward : ℚ

/-- `reward` in `handleValidation`. -/
def Block.due (transactionFee : ℚ) (block : Block) (sending : Bool) : ℚ :=
  let reward :=
    if block.previous ≠ block.category ∨ sending then doubles.round (block.reward - transactionFee)
    else 0
  let reward := if block.category = .orphan ∧ block.previous = .pending then 0 else reward
  if block.category = .orphan ∧ (block.previous = .immature ∨ block.previous = .generate) then
    reward * -1
  else reward

/-- What is due, split among the miners. -/
def minerRewards (workers : List Worker) (reward : ℚ) : List (Str × ℚ) :=
  (validated doubles workers).map fun miner =>
    (miner.1, roundTo doubles
      (doubles.round (reward * doubles.round (max miner.2 0 / totalWork doubles workers))) 8)

def handleValidation (transactionFee : ℚ) (block : Block) (workers : List Worker)
    (sending : Bool) : List (Str × ℚ) :=
  if block.due doubles transactionFee sending ≠ 0 then
    minerRewards doubles workers (block.due doubles transactionFee sending)
  else []

/-- What `gettransaction` answers for the block's generation transaction. -/
inductive Answer
  /-- `error.code` is -5. -/
  | unknown
  /-- Another error. -/
  | failed
  /-- No error and no response. -/
  | missing
  /-- A response without details. -/
  | empty
  | details (category : Category) (amount : ℚ)

def Answer.isError : Answer → Bool
  | .unknown | .failed => true
  | .missing | .empty | .details .. => false

/-- The body of the loop over the transactions. -/
def Block.checked (block : Block) : Answer → Block
  | .unknown | .empty => { block with previous := block.category, category := .orphan }
  | .failed | .missing => { block with previous := block.category }
  | .details category amount =>
    { block with
      previous := block.category
      category := category
      reward := if category = .immature ∨ category = .generate then roundTo doubles amount 8
        else block.reward }

/-- `result` of `handlePrimaryRounds`: one command has one answer, of more commands a list of
answers comes back. -/
inductive RoundsResult
  | single (answer : Answer)
  | batch (answers : List Answer)

/-- The loop over the transactions. -/
def checkedBlocks : List Block → List Answer → List Block
  | block :: blocks, answer :: answers => block.checked doubles answer :: checkedBlocks blocks answers
  | blocks, _ => blocks

/-- `handlePrimaryRounds`, if it calls back without an error. -/
def handleRounds (blocks : List Block) : RoundsResult → Option (List Block)
  | .single answer => if answer.isError then none else some (checkedBlocks doubles blocks [answer])
  | .batch answers => some (checkedBlocks doubles blocks answers)

structure Entry where
  immature : ℚ
  generate : ℚ
  deriving DecidableEq

/-- `entry[category] += amount`; a name other than these two is another property. -/
def Entry.addTo (entry : Entry) (category : Category) (amount : ℚ) : Entry :=
  match category with
  | .immature => { entry with immature := doubles.round (entry.immature + amount) }
  | .generate => { entry with generate := doubles.round (entry.generate + amount) }
  | .pending | .orphan | .other => entry

/-- The body of the loops over the addresses. -/
def credit (block : Block) (updates : Str → Option Entry) (payment : Str × ℚ) :
    Str → Option Entry :=
  match block.category with
  | .orphan =>
    match updates payment.1 with
    | some entry =>
      Function.update updates payment.1 (some (entry.addTo doubles block.previous payment.2))
    | none =>
      Function.update updates payment.1
        (some ((Entry.mk 0 0).addTo doubles block.previous payment.2))
  | .immature =>
    match updates payment.1 with
    | some entry =>
      Function.update updates payment.1 (some (entry.addTo doubles .immature payment.2))
    | none => Function.update updates payment.1 (some ⟨payment.2, 0⟩)
  | .generate =>
    let entry := match updates payment.1 with
      | some entry => entry.addTo doubles .generate payment.2
      | none => ⟨0, payment.2⟩
    Function.update updates payment.1 (some
      (if block.previous = .immature then entry.addTo doubles .immature (-payment.2) else entry))
  | .pending | .other => updates

/-- The body of the loop over the blocks, each with its workers. -/
def creditBlock (type : BlockType) (transactionFee : ℚ) (sending : Bool)
    (updates : Str → Option Entry) (block : Block × List Worker) : Str → Option Entry :=
  if block.1.type ≠ type then updates
  else (handleValidation doubles transactionFee block.1 block.2 sending).foldl
    (credit doubles block.1) updates

/-- `handlePrimaryWorkers` and `handleAuxiliaryWorkers`. -/
def handleWorkers (type : BlockType) (transactionFee : ℚ) (blocks : List (Block × List Worker))
    (sending : Bool) : Str → Option Entry :=
  blocks.foldl (creditBlock doubles type transactionFee sending) fun _ => none

end

/-! ## Rounding -/

theorem roundAway_limit (digits : ℕ) (n : ℤ) :
    Fixed.roundAway (10 ^ digits) ((n : ℚ) * 10 ^ 21) = (n : ℚ) * 10 ^ 21 := by
  have hgrid := Fixed.roundAway_grid (K := ℚ) (u := 10 ^ digits) (by positivity)
    (n * 10 ^ 21 * 10 ^ digits)
  have hcancel : ((n * 10 ^ 21 * 10 ^ digits : ℤ) : ℚ) / 10 ^ digits = n * 10 ^ 21 := by
    push_cast
    exact mul_div_cancel_right₀ _ (by positivity)
  rwa [hcancel] at hgrid

theorem roundAway_below_mono (digits : ℕ) : Monotone fun x : ℚ =>
    if |x| < 10 ^ 21 then Fixed.roundAway (10 ^ digits) x else x := by
  intro x y hxy
  have hu : (0 : ℚ) < 10 ^ digits := by positivity
  have hlow := roundAway_limit digits (-1)
  have hhigh := roundAway_limit digits 1
  push_cast at hlow hhigh
  rw [neg_one_mul] at hlow
  rw [one_mul] at hhigh
  dsimp only
  split_ifs with hx hy hy
  · exact Fixed.roundAway_mono hu hxy
  · -- only above the limit is there room for `y`
    have hylimit : 10 ^ 21 ≤ y := by
      refine (le_abs.mp (le_of_not_gt hy)).resolve_right fun hneg => ?_
      linarith [(abs_lt.mp hx).1]
    exact (Fixed.roundAway_mono hu (abs_lt.mp hx).2.le).trans (hhigh.trans_le hylimit)
  · have hxlimit : x ≤ -10 ^ 21 := by
      refine le_neg_of_le_neg ((le_abs.mp (le_of_not_gt hx)).resolve_left fun hpos => ?_)
      linarith [(abs_lt.mp hy).2]
    exact (hxlimit.trans hlow.ge).trans (Fixed.roundAway_mono hu (abs_lt.mp hy).1.le)
  · exact hxy

/-- The decimal number with these digits, as it is read. -/
def decimal (doubles : Doubles) (digits : ℕ) (k : ℤ) : ℚ :=
  toFixed doubles digits (doubles.round (k / 10 ^ digits))

section
variable (doubles : Doubles)

theorem toFixed_mono (digits : ℕ) : Monotone (toFixed doubles digits) :=
  doubles.mono.comp (roundAway_below_mono digits)

theorem toFixed_neg (digits : ℕ) (x : ℚ) :
    toFixed doubles digits (-x) = -toFixed doubles digits x := by
  rw [toFixed, toFixed, abs_neg, ← doubles.neg]
  split_ifs
  · rw [Fixed.roundAway_neg (by positivity)]
  · rfl

theorem toFixed_zero (digits : ℕ) : toFixed doubles digits 0 = 0 := by
  have hneg := toFixed_neg doubles digits 0
  rw [neg_zero] at hneg
  linarith

theorem roundTo_eq (n : ℚ) (digits : ℕ) :
    roundTo doubles n digits = decimal doubles digits
      ⌊toFixed doubles 11 (doubles.round (n * 10 ^ digits)) * 1 + 1 / 2⌋ := by
  rw [roundTo, mathRound, Fixed.round, div_one, decimal]

theorem roundTo_mono (digits : ℕ) : Monotone (roundTo doubles · digits) := by
  intro m n hmn
  refine toFixed_mono doubles digits (doubles.mono ?_)
  refine div_le_div_of_nonneg_right (Fixed.round_mono one_pos ?_) (by positivity)
  refine toFixed_mono doubles 11 (doubles.mono ?_)
  exact mul_le_mul_of_nonneg_right hmn (by positivity)

theorem roundTo_zero (digits : ℕ) : roundTo doubles 0 digits = 0 := by
  rw [roundTo, zero_mul, doubles.zero, toFixed_zero, mathRound, Fixed.round_zero one_pos, zero_div,
    doubles.zero, toFixed_zero]

theorem roundTo_nonneg {n : ℚ} (hn : 0 ≤ n) (digits : ℕ) : 0 ≤ roundTo doubles n digits :=
  (roundTo_zero doubles digits).ge.trans (roundTo_mono doubles digits hn)

theorem round_roundTo (n : ℚ) (digits : ℕ) :
    doubles.round (roundTo doubles n digits) = roundTo doubles n digits := by
  rw [roundTo]
  exact doubles.idem _

theorem decimal_neg (digits : ℕ) (k : ℤ) :
    decimal doubles digits (-k) = -decimal doubles digits k := by
  rw [decimal, decimal, Int.cast_neg, neg_div, doubles.neg, toFixed_neg]

/-- What is taken back is what was given, but for a unit of the last digit at a midpoint. -/
theorem roundTo_add_neg (n : ℚ) (digits : ℕ) :
    roundTo doubles n digits + roundTo doubles (-n) digits = 0 ∨
      ∃ k : ℤ, roundTo doubles n digits + roundTo doubles (-n) digits
        = decimal doubles digits (k + 1) - decimal doubles digits k := by
  rw [roundTo_eq, roundTo_eq, neg_mul, doubles.neg, toFixed_neg]
  generalize toFixed doubles 11 (doubles.round (n * 10 ^ digits)) = x
  by_cases hmid : ∀ k : ℤ, x * 1 ≠ k + 1 / 2
  · left
    have hneg := Fixed.round_neg hmid
    rw [Fixed.round, Fixed.round, div_one, div_one] at hneg
    have hfloor : ⌊-x * 1 + 1 / 2⌋ = -⌊x * 1 + 1 / 2⌋ := by exact_mod_cast hneg
    rw [hfloor, decimal_neg, add_neg_cancel]
  · right
    push Not at hmid
    obtain ⟨k, hk⟩ := hmid
    have hup : ⌊x * 1 + 1 / 2⌋ = k + 1 := by
      rw [hk, add_assoc, add_halves, ← Int.cast_one, ← Int.cast_add, Int.floor_intCast]
    have hdown : ⌊-x * 1 + 1 / 2⌋ = -k := by
      rw [neg_mul, hk, neg_add, neg_add_cancel_right, ← Int.cast_neg, Int.floor_intCast]
    exact ⟨k, by rw [hup, hdown, decimal_neg, ← sub_eq_add_neg]⟩

end

/-! ### Exact arithmetic -/

theorem abs_toFixed_sub_le (digits : ℕ) (x : ℚ) :
    |toFixed .exact digits x - x| ≤ 1 / (2 * 10 ^ digits) := by
  change |(if |x| < 10 ^ 21 then Fixed.roundAway (10 ^ digits) x else x) - x| ≤ _
  split_ifs
  · exact Fixed.abs_roundAway_sub_le (by positivity) x
  · rw [sub_self, abs_zero]
    positivity

/-- The second `toFixed` changes nothing: its argument has that many digits. -/
theorem decimal_exact (digits : ℕ) (k : ℤ) : decimal .exact digits k = k / 10 ^ digits := by
  change (if |(k : ℚ) / 10 ^ digits| < 10 ^ 21 then
    Fixed.roundAway (10 ^ digits) ((k : ℚ) / 10 ^ digits) else (k : ℚ) / 10 ^ digits) = _
  split_ifs
  · exact Fixed.roundAway_grid (by positivity) k
  · rfl

/-- The first `toFixed` can carry a number past a midpoint, so that this is more than a half. -/
theorem abs_roundTo_sub_le (n : ℚ) (digits : ℕ) :
    |roundTo .exact n digits - n| ≤ (1 / 2 + 1 / (2 * 10 ^ 11)) / 10 ^ digits := by
  have hu : (0 : ℚ) < 10 ^ digits := by positivity
  have hround := Fixed.abs_round_sub_le one_pos (toFixed .exact 11 (n * 10 ^ digits))
  have hfixed := abs_toFixed_sub_le 11 (n * 10 ^ digits)
  have hvalue : roundTo .exact n digits
      = (Fixed.round 1 (toFixed .exact 11 (n * 10 ^ digits)) : ℚ) / 10 ^ digits := by
    rw [roundTo_eq, decimal_exact, Fixed.round, div_one]
    rfl
  have hsplit : roundTo .exact n digits - n
      = ((Fixed.round 1 (toFixed .exact 11 (n * 10 ^ digits)) - toFixed .exact 11 (n * 10 ^ digits))
        + (toFixed .exact 11 (n * 10 ^ digits) - n * 10 ^ digits)) / 10 ^ digits := by
    rw [hvalue, sub_add_sub_cancel, sub_div, mul_div_cancel_right₀ _ hu.ne']
  rw [hsplit, abs_div, abs_of_pos hu]
  refine div_le_div_of_nonneg_right ?_ hu.le
  rw [mul_one] at hround
  exact (abs_add_le _ _).trans (add_le_add hround hfixed)

/-! ## One check -/

section
variable {doubles : Doubles}

theorem shares_nonneg (longest : ℚ) (worker : Record) : 0 ≤ shares doubles longest worker := by
  rw [shares]
  split
  · exact worker.work_nonneg
  · split_ifs
    · exact roundTo_nonneg doubles (le_max_right _ _) 2
    · exact worker.work_nonneg

theorem validated_nonneg {workers : List Worker} {miner : Str × ℚ}
    (h : miner ∈ validated doubles workers) : 0 ≤ miner.2 := by
  obtain ⟨entry, -, rfl⟩ := List.mem_map.mp h
  exact shares_nonneg _ _

theorem combine_fst (worker : Worker) (entries : List (Str × Record)) :
    (combine doubles worker entries).map Prod.fst
      = if worker.miner ∈ entries.map Prod.fst then entries.map Prod.fst
        else entries.map Prod.fst ++ [worker.miner] := by
  induction entries with
  | nil => rfl
  | cons entry entries ih =>
      rw [combine]
      by_cases h : entry.1 = worker.miner
      · rw [if_pos h, if_pos (by simp [h])]
        rfl
      · rw [if_neg h, List.map_cons, ih, List.map_cons]
        by_cases hmem : worker.miner ∈ entries.map Prod.fst
        · rw [if_pos hmem, if_pos (List.mem_cons_of_mem _ hmem)]
        · rw [if_neg hmem, if_neg (by simpa [Ne.symm h] using hmem)]
          rfl

theorem combined_nodup (workers : List Worker) : ((combined doubles workers).map Prod.fst).Nodup := by
  have hfold : ∀ (workers : List Worker) (entries : List (Str × Record)),
      (entries.map Prod.fst).Nodup → ((workers.foldl
        (fun combined worker => combine doubles worker combined) entries).map Prod.fst).Nodup := by
    intro workers
    induction workers with
    | nil => exact fun _ h => h
    | cons worker workers ih =>
        intro entries h
        refine ih _ ?_
        rw [combine_fst]
        split_ifs with hmem
        · exact h
        · exact List.nodup_append.mpr ⟨h, List.nodup_singleton _, by
            rintro a ha b hb rfl
            exact hmem (List.mem_singleton.mp hb ▸ ha)⟩
  exact hfold workers [] List.nodup_nil

theorem validated_nodup (workers : List Worker) :
    ((validated doubles workers).map Prod.fst).Nodup := by
  have hkeys : (validated doubles workers).map Prod.fst = (combined doubles workers).map Prod.fst := by
    rw [validated, List.map_map]
    rfl
  rw [hkeys]
  exact combined_nodup workers

theorem totalWork_nonneg (workers : List Worker) : 0 ≤ totalWork doubles workers :=
  le_max_of_le_right (doubles.nonneg (by norm_num))

/-- The parts are those of a split in proportion to the validated work. -/
theorem minerRewards_eq (workers : List Worker) (reward : ℚ) :
    (minerRewards doubles workers reward).map Prod.snd
      = ProRata.parts (fun x => roundTo doubles (doubles.round x) 8) doubles.round reward
          (totalWork doubles workers) ((validated doubles workers).map Prod.snd) := by
  rw [minerRewards, ProRata.parts, List.map_map, List.map_map]
  refine List.map_congr_left fun miner hmem => ?_
  rw [Function.comp_apply, Function.comp_apply, ProRata.part,
    max_eq_left (validated_nonneg hmem)]

/-- In exact arithmetic the parts of the miners add up to the reward, but for the rounding of
each. -/
theorem sum_minerRewards {workers : List Worker}
    (hwork : 1 / 1000 ≤ ((validated .exact workers).map Prod.snd).sum) (reward : ℚ) :
    |((minerRewards .exact workers reward).map Prod.snd).sum - reward|
      ≤ (validated .exact workers).length * ((1 / 2 + 1 / (2 * 10 ^ 11)) / 10 ^ 8) := by
  have hsum : |(ProRata.parts (roundTo .exact · 8) id reward (totalWork .exact workers)
        ((validated .exact workers).map Prod.snd)).sum
          - reward * (((validated .exact workers).map Prod.snd).sum / totalWork .exact workers)|
        ≤ _ :=
    ProRata.abs_sum_sub_le (fun x => abs_roundTo_sub_le x 8) _
  have hadded : ((validated .exact workers).map Prod.snd).foldl
      (fun totalWork shares => totalWork + shares) 0 = ((validated .exact workers).map Prod.snd).sum :=
    (List.sum_eq_foldl ..).symm
  have hwhole : totalWork .exact workers = ((validated .exact workers).map Prod.snd).sum := by
    change max (((validated .exact workers).map Prod.snd).foldl
      (fun totalWork shares => totalWork + shares) 0) (1 / 1000) = _
    rw [hadded]
    exact max_eq_left hwork
  have hone : ((validated .exact workers).map Prod.snd).sum / totalWork .exact workers = 1 := by
    rw [hwhole]
    exact div_self (lt_of_lt_of_le (by norm_num) hwork).ne'
  have hparts : (minerRewards .exact workers reward).map Prod.snd
      = ProRata.parts (roundTo .exact · 8) id reward (totalWork .exact workers)
          ((validated .exact workers).map Prod.snd) := minerRewards_eq workers reward
  rwa [← hparts, hone, mul_one, List.length_map] at hsum

/-- What an address gets of a list of payments. -/
def paid (payments : List (Str × ℚ)) (address : Str) : ℚ :=
  ((payments.filter fun payment => payment.1 = address).map Prod.snd).sum

@[simp] theorem paid_nil (address : Str) : paid [] address = 0 := rfl

theorem paid_cons (payment : Str × ℚ) (payments : List (Str × ℚ)) (address : Str) :
    paid (payment :: payments) address
      = (if payment.1 = address then payment.2 else 0) + paid payments address := by
  by_cases h : payment.1 = address <;> simp [paid, h]

theorem paid_eq_zero {payments : List (Str × ℚ)} {address : Str}
    (h : address ∉ payments.map Prod.fst) : paid payments address = 0 := by
  induction payments with
  | nil => rfl
  | cons payment payments ih =>
      rw [List.map_cons, List.mem_cons, not_or] at h
      rw [paid_cons, if_neg (Ne.symm h.1), ih h.2, zero_add]

theorem paid_of_mem {payments : List (Str × ℚ)} (hnodup : (payments.map Prod.fst).Nodup)
    {payment : Str × ℚ} (h : payment ∈ payments) : paid payments payment.1 = payment.2 := by
  induction payments with
  | nil => exact absurd h List.not_mem_nil
  | cons first payments ih =>
      rw [List.map_cons, List.nodup_cons] at hnodup
      rw [paid_cons]
      rcases List.mem_cons.mp h with rfl | hrest
      · rw [if_pos rfl, paid_eq_zero hnodup.1, add_zero]
      · have hne : first.1 ≠ payment.1 := fun heq =>
          hnodup.1 (heq ▸ List.mem_map_of_mem hrest)
        rw [if_neg hne, ih hnodup.2 hrest, zero_add]

theorem minerRewards_fst (workers : List Worker) (reward : ℚ) :
    (minerRewards doubles workers reward).map Prod.fst = (validated doubles workers).map Prod.fst := by
  rw [minerRewards, List.map_map]
  rfl

theorem paid_miner {workers : List Worker} {miner : Str × ℚ} (h : miner ∈ validated doubles workers)
    (reward : ℚ) : paid (minerRewards doubles workers reward) miner.1
      = ProRata.part (fun x => roundTo doubles (doubles.round x) 8) doubles.round reward
          (totalWork doubles workers) miner.2 := by
  have hmem : (miner.1, roundTo doubles (doubles.round
      (reward * doubles.round (max miner.2 0 / totalWork doubles workers))) 8)
      ∈ minerRewards doubles workers reward := List.mem_map.mpr ⟨miner, h, rfl⟩
  have hnodup : ((minerRewards doubles workers reward).map Prod.fst).Nodup := by
    rw [minerRewards_fst]
    exact validated_nodup workers
  rw [paid_of_mem hnodup hmem, ProRata.part, max_eq_left (validated_nonneg h)]

/-- More validated work is never paid less, and none is charged for. -/
theorem paid_mono {workers : List Worker} {a b : Str × ℚ} (ha : a ∈ validated doubles workers)
    (hb : b ∈ validated doubles workers) (hab : a.2 ≤ b.2) {reward : ℚ} (hreward : 0 ≤ reward) :
    0 ≤ paid (minerRewards doubles workers reward) a.1 ∧
      paid (minerRewards doubles workers reward) a.1 ≤ paid (minerRewards doubles workers reward) b.1 := by
  have hwhole : 0 ≤ totalWork doubles workers := totalWork_nonneg workers
  rw [paid_miner ha, paid_miner hb]
  refine ⟨ProRata.part_nonneg (fun x hx => ?_) (fun x hx => doubles.nonneg hx) hreward hwhole
      (validated_nonneg ha), ProRata.part_mono ?_ doubles.mono hreward hwhole hab⟩
  · exact roundTo_nonneg doubles (doubles.nonneg hx) 8
  · exact (roundTo_mono doubles 8).comp doubles.mono

/-- A reward that is taken back leaves nothing, or a unit of the eighth decimal. -/
theorem paid_add_neg (workers : List Worker) (reward : ℚ) (address : Str) :
    paid (minerRewards doubles workers reward) address
        + paid (minerRewards doubles workers (reward * -1)) address = 0 ∨
      ∃ k : ℤ, paid (minerRewards doubles workers reward) address
        + paid (minerRewards doubles workers (reward * -1)) address
          = decimal doubles 8 (k + 1) - decimal doubles 8 k := by
  by_cases h : address ∈ (validated doubles workers).map Prod.fst
  · obtain ⟨miner, hminer, rfl⟩ := List.mem_map.mp h
    rw [paid_miner hminer, paid_miner hminer, ProRata.part, ProRata.part, mul_neg_one, neg_mul,
      doubles.neg]
    exact roundTo_add_neg doubles _ 8
  · left
    rw [paid_eq_zero (by rwa [minerRewards_fst]), paid_eq_zero (by rwa [minerRewards_fst]),
      add_zero]

theorem paid_zero (workers : List Worker) (address : Str) :
    paid (minerRewards doubles workers 0) address = 0 := by
  by_cases h : address ∈ (validated doubles workers).map Prod.fst
  · obtain ⟨miner, hminer, rfl⟩ := List.mem_map.mp h
    rw [paid_miner hminer, ProRata.part, zero_mul, doubles.zero, roundTo_zero]
  · rw [paid_eq_zero (by rwa [minerRewards_fst])]

/-- Where nothing is due the loop that is left out would have paid nothing. -/
theorem paid_handleValidation (transactionFee : ℚ) (block : Block) (workers : List Worker)
    (sending : Bool) (address : Str) :
    paid (handleValidation doubles transactionFee block workers sending) address
      = paid (minerRewards doubles workers (block.due doubles transactionFee sending)) address := by
  rw [handleValidation]
  split_ifs with hdue
  · rfl
  · rw [not_not.mp hdue, paid_nil, paid_zero]

theorem handleValidation_payments (transactionFee : ℚ) (block : Block) (workers : List Worker)
    (sending : Bool) :
    ((handleValidation doubles transactionFee block workers sending).map Prod.fst).Nodup ∧
    ∀ payment ∈ handleValidation doubles transactionFee block workers sending,
      doubles.round payment.2 = payment.2 := by
  rw [handleValidation]
  split_ifs
  · refine ⟨?_, fun payment hpayment => ?_⟩
    · rw [minerRewards_fst]
      exact validated_nodup workers
    · obtain ⟨miner, -, rfl⟩ := List.mem_map.mp hpayment
      exact round_roundTo doubles _ 8
  · exact ⟨List.nodup_nil, fun _ h => absurd h List.not_mem_nil⟩

/-! ## What is credited -/

def Entry.plus (a b : Entry) : Entry := ⟨a.immature + b.immature, a.generate + b.generate⟩

theorem Entry.plus_zero (entry : Entry) : entry.plus ⟨0, 0⟩ = entry := by
  simp [Entry.plus]

/-- The entry of an address; one that is not there counts as 0. -/
def entryOf (updates : Str → Option Entry) (address : Str) : Entry :=
  (updates address).getD ⟨0, 0⟩

/-- One side of an entry. -/
def Entry.only (category : Category) (amount : ℚ) : Entry :=
  match category with
  | .immature => ⟨amount, 0⟩
  | .generate => ⟨0, amount⟩
  | .pending | .orphan | .other => ⟨0, 0⟩

/-- What a payment for the block changes. -/
def Block.change (block : Block) (amount : ℚ) : Entry :=
  match block.category with
  | .orphan => .only block.previous amount
  | .immature => ⟨amount, 0⟩
  | .generate => ⟨if block.previous = .immature then -amount else 0, amount⟩
  | .pending | .other => ⟨0, 0⟩

theorem Block.change_zero (block : Block) : block.change 0 = ⟨0, 0⟩ := by
  rw [Block.change]
  split
  · cases block.previous <;> rfl
  · rfl
  · simp
  · rfl
  · rfl

theorem credit_of_ne (block : Block) (updates : Str → Option Entry) {payment : Str × ℚ}
    {address : Str} (h : address ≠ payment.1) :
    credit doubles block updates payment address = updates address := by
  rw [credit]
  cases block.category with
  | pending => rfl
  | other => rfl
  | orphan => cases updates payment.1 <;> exact Function.update_of_ne h _ _
  | immature => cases updates payment.1 <;> exact Function.update_of_ne h _ _
  | generate => exact Function.update_of_ne h _ _

theorem entryOf_credit (block : Block) {updates : Str → Option Entry} {payment : Str × ℚ}
    (hnone : updates payment.1 = none) (hdouble : doubles.round payment.2 = payment.2) :
    entryOf (credit doubles block updates payment) payment.1 = block.change payment.2 := by
  have hneg : doubles.round (-payment.2) = -payment.2 := by rw [doubles.neg, hdouble]
  rw [credit, Block.change]
  cases block.category with
  | pending => simp [entryOf, hnone]
  | other => simp [entryOf, hnone]
  | orphan => cases block.previous <;> simp [entryOf, hnone, Entry.addTo, Entry.only, hdouble]
  | immature => simp [entryOf, hnone]
  | generate =>
      by_cases hprevious : block.previous = .immature <;>
        simp [entryOf, hnone, hprevious, Entry.addTo, hneg]

theorem foldl_credit_of_notMem (block : Block) (payments : List (Str × ℚ))
    (updates : Str → Option Entry) {address : Str} (h : address ∉ payments.map Prod.fst) :
    payments.foldl (credit doubles block) updates address = updates address := by
  induction payments generalizing updates with
  | nil => rfl
  | cons payment payments ih =>
      rw [List.map_cons, List.mem_cons, not_or] at h
      rw [List.foldl_cons, ih _ h.2, credit_of_ne block updates h.1]

theorem entryOf_foldl_credit (block : Block) {payments : List (Str × ℚ)}
    (hnodup : (payments.map Prod.fst).Nodup)
    (hdouble : ∀ payment ∈ payments, doubles.round payment.2 = payment.2)
    {updates : Str → Option Entry} (hnone : ∀ address, updates address = none) (address : Str) :
    entryOf (payments.foldl (credit doubles block) updates) address
      = block.change (paid payments address) := by
  by_cases hmem : address ∈ payments.map Prod.fst
  · obtain ⟨payment, hpayment, rfl⟩ := List.mem_map.mp hmem
    obtain ⟨before, after, rfl⟩ := List.append_of_mem hpayment
    rw [paid_of_mem hnodup hpayment, List.foldl_append, List.foldl_cons]
    rw [List.map_append, List.map_cons] at hnodup
    have hbefore : payment.1 ∉ before.map Prod.fst := fun h =>
      (List.nodup_append.mp hnodup).2.2 _ h _ List.mem_cons_self rfl
    have hafter : payment.1 ∉ after.map Prod.fst :=
      (List.nodup_cons.mp (List.nodup_append.mp hnodup).2.1).1
    rw [entryOf, foldl_credit_of_notMem block after _ hafter, ← entryOf]
    refine entryOf_credit block ?_ (hdouble payment hpayment)
    rw [foldl_credit_of_notMem block before _ hbefore, hnone]
  · rw [paid_eq_zero hmem, Block.change_zero, entryOf, foldl_credit_of_notMem block payments _ hmem,
      hnone]
    rfl

theorem entryOf_handleWorkers (transactionFee : ℚ) (block : Block) (workers : List Worker)
    (sending : Bool) (address : Str) :
    entryOf (handleWorkers doubles block.type transactionFee [(block, workers)] sending) address
      = block.change
          (paid (minerRewards doubles workers (block.due doubles transactionFee sending)) address) := by
  obtain ⟨hnodup, hdouble⟩ :=
    @handleValidation_payments doubles transactionFee block workers sending
  rw [handleWorkers, List.foldl_cons, List.foldl_nil, creditBlock, if_neg (not_not.mpr rfl),
    entryOf_foldl_credit block hnodup hdouble (fun _ => rfl), paid_handleValidation]

end

/-! ## Runs of checks -/

/-- The changes of category the code has a reward for, and none. -/
inductive Category.Forward : Category → Category → Prop
  | same {category : Category} : Forward category category
  | found : Forward .pending .immature
  | foundMature : Forward .pending .generate
  | missed : Forward .pending .orphan
  | matured : Forward .immature .generate
  | orphaned : Forward .immature .orphan
  | orphanedMature : Forward .generate .orphan

/-- What is to be on the ledger: the reward once, on the side of the category, and nothing of
it for an orphaned block, but for a unit of the eighth decimal. -/
def Credited (doubles : Doubles) (reward : ℚ) (ledger : Entry) : Category → Prop
  | .pending => ledger = ⟨0, 0⟩
  | .immature => ledger = ⟨reward, 0⟩
  | .generate => ledger = ⟨0, reward⟩
  | .orphan => ∃ rest,
      (rest = 0 ∨ ∃ k : ℤ, rest = decimal doubles 8 (k + 1) - decimal doubles 8 k) ∧
      (ledger = ⟨rest, 0⟩ ∨ ledger = ⟨0, rest⟩)
  | .other => False

/-- A block, and what an address has been credited for it. -/
structure Life where
  block : Block
  ledger : Entry

section Runs

variable (doubles : Doubles) (transactionFee : ℚ) (workers : List Worker) (address : Str)

/-- The daemon is asked about the block: alone, or among others. -/
structure Asked where
  alone : Bool
  answer : Answer

/-- What `handlePrimaryRounds` makes of the block, if it calls back without an error. -/
def Block.round (block : Block) (asked : Asked) : Option Block :=
  if asked.alone then (handleRounds doubles [block] (.single asked.answer)).bind List.head?
  else some (block.checked doubles asked.answer)

/-- The daemon is asked about the block, and its workers are credited. -/
def check (life : Life) (asked : Asked) : Option Life :=
  match life.block.round doubles asked with
  | none => some life
  | some block => some ⟨block, life.ledger.plus
      (entryOf (handleWorkers doubles block.type transactionFee [(block, workers)] false) address)⟩

/-- Categories move forward, and the transaction keeps its amount. -/
def Regular (amount : ℚ) (life : Life) (asked : Asked) : Prop :=
  match asked.answer with
  | .details category told => life.block.category.Forward category ∧ told = amount
  | _ => True

/-- What the address gets where so much is due. -/
def pay (due : ℚ) : ℚ := paid (minerRewards doubles workers due) address

structure Settled (amount : ℚ) (life : Life) : Prop where
  credited : Credited doubles
    (pay doubles workers address (doubles.round (roundTo doubles amount 8 - transactionFee)))
    life.ledger life.block.category
  reward : life.block.category = .immature ∨ life.block.category = .generate →
    life.block.reward = roundTo doubles amount 8

variable {doubles transactionFee workers address}

/-- An error that answers for the block alone ends the call; else the answer is looked at. -/
theorem round_eq (block : Block) (asked : Asked) :
    block.round doubles asked = if asked.alone && asked.answer.isError then none
      else some (block.checked doubles asked.answer) := by
  rw [Block.round]
  cases asked.alone with
  | false => rfl
  | true =>
      cases herror : asked.answer.isError with
      | true => simp [handleRounds, herror]
      | false => simp [handleRounds, herror, checkedBlocks]

theorem checkedBlocks_append {before : List Block} {answersBefore : List Answer}
    (hlength : answersBefore.length = before.length) (block : Block) (answer : Answer)
    (after : List Block) (answersAfter : List Answer) :
    checkedBlocks doubles (before ++ block :: after) (answersBefore ++ answer :: answersAfter)
      = checkedBlocks doubles before answersBefore
        ++ block.checked doubles answer :: checkedBlocks doubles after answersAfter := by
  induction before generalizing answersBefore with
  | nil =>
      rw [List.eq_nil_of_length_eq_zero hlength]
      rfl
  | cons first before ih =>
      cases answersBefore with
      | nil => exact nomatch hlength
      | cons answerFirst answersBefore =>
          rw [List.cons_append, List.cons_append, checkedBlocks, ih (Nat.succ.inj hlength)]
          rfl

/-- The ledger after a check, by the category before and after it. -/
theorem Credited.move {block : Block} {ledger : Entry} {reward : ℚ}
    (hforward : block.previous.Forward block.category)
    (hreward : block.previous ≠ block.category → block.previous ≠ .pending ∨
      block.category ≠ .orphan → doubles.round (block.reward - transactionFee) = reward)
    (h : Credited doubles (pay doubles workers address reward) ledger block.previous) :
    Credited doubles (pay doubles workers address reward)
      (ledger.plus
        (block.change (pay doubles workers address (block.due doubles transactionFee false))))
      block.category := by
  have hnone : pay doubles workers address 0 = 0 := paid_zero workers address
  have hback := @paid_add_neg doubles workers reward address
  obtain ⟨type, category, previous, blockReward⟩ := block
  dsimp only at hforward hreward h ⊢
  cases hforward with
  | same =>
      have hdue : Block.due doubles transactionFee ⟨type, category, category, blockReward⟩ false = 0 := by
        simp [Block.due]
      rw [hdue, hnone, Block.change_zero, Entry.plus_zero]
      exact h
  | found =>
      subst h
      simp [Block.due, Block.change, Credited, Entry.plus, hreward]
  | foundMature =>
      subst h
      simp [Block.due, Block.change, Credited, Entry.plus, hreward]
  | missed =>
      subst h
      refine ⟨0, .inl rfl, .inl ?_⟩
      simp [Block.change, Entry.plus, Entry.only]
  | matured =>
      subst h
      simp [Block.due, Block.change, Credited, Entry.plus, hreward]
  | orphaned =>
      subst h
      refine ⟨_, hback, .inl ?_⟩
      simp [Block.due, Block.change, Entry.plus, Entry.only, pay, hreward]
  | orphanedMature =>
      subst h
      refine ⟨_, hback, .inr ?_⟩
      simp [Block.due, Block.change, Entry.plus, Entry.only, pay, hreward]

theorem previous_checked (block : Block) (answer : Answer) :
    (block.checked doubles answer).previous = block.category := by
  cases answer <;> rfl

/-- Only a reward told for an immature or a mature block replaces the one that is known. -/
theorem reward_checked_orphan (block : Block) (answer : Answer)
    (h : (block.checked doubles answer).category = .orphan) :
    (block.checked doubles answer).reward = block.reward := by
  cases answer with
  | unknown => rfl
  | failed => rfl
  | missing => rfl
  | empty => rfl
  | details category told =>
      have hcategory : category = .orphan := h
      rw [hcategory]
      rfl

namespace Settled

variable {amount : ℚ} {life life' : Life} {asked : Asked}

theorem forward_orphan (h : Settled doubles transactionFee workers address amount life) :
    life.block.category.Forward .orphan := by
  have hcredited := h.credited
  cases hcategory : life.block.category with
  | pending => exact .missed
  | immature => exact .orphaned
  | generate => exact .orphanedMature
  | orphan => exact .same
  | other =>
      rw [hcategory] at hcredited
      exact hcredited.elim

theorem forward_checked (h : Settled doubles transactionFee workers address amount life)
    (hregular : Regular amount life asked) :
    life.block.category.Forward (life.block.checked doubles asked.answer).category := by
  rw [Regular] at hregular
  cases hanswer : asked.answer with
  | unknown => exact h.forward_orphan
  | empty => exact h.forward_orphan
  | failed => exact .same
  | missing => exact .same
  | details category told =>
      rw [hanswer] at hregular
      exact hregular.1

theorem reward_checked (h : Settled doubles transactionFee workers address amount life)
    (hregular : Regular amount life asked)
    (hcategory : (life.block.checked doubles asked.answer).category = .immature ∨
      (life.block.checked doubles asked.answer).category = .generate) :
    (life.block.checked doubles asked.answer).reward = roundTo doubles amount 8 := by
  rw [Regular] at hregular
  cases hanswer : asked.answer with
  | unknown => exact absurd hcategory (by simp [Block.checked, hanswer])
  | empty => exact absurd hcategory (by simp [Block.checked, hanswer])
  | failed =>
      rw [hanswer] at hcategory
      exact h.reward hcategory
  | missing =>
      rw [hanswer] at hcategory
      exact h.reward hcategory
  | details category told =>
      rw [hanswer] at hregular hcategory
      obtain ⟨-, rfl⟩ := hregular
      exact if_pos hcategory

/-- What a check makes due is the reward, wherever the category changes and something is. -/
theorem reward_due (h : Settled doubles transactionFee workers address amount life)
    (hregular : Regular amount life asked)
    (hne : life.block.category ≠ (life.block.checked doubles asked.answer).category)
    (hgiven : life.block.category ≠ .pending ∨
      (life.block.checked doubles asked.answer).category ≠ .orphan) :
    (life.block.checked doubles asked.answer).reward = roundTo doubles amount 8 := by
  have hforward := h.forward_checked hregular
  have hnew := h.reward_checked hregular
  have hold := @reward_checked_orphan doubles life.block asked.answer
  have hreward := h.reward
  generalize (life.block.checked doubles asked.answer).category = category
    at hforward hnew hold hne hgiven
  generalize life.block.category = previous at hforward hreward hne hgiven
  cases hforward with
  | same => exact absurd rfl hne
  | found => exact hnew (.inl rfl)
  | foundMature => exact hnew (.inr rfl)
  | missed => simp at hgiven
  | matured => exact hnew (.inr rfl)
  | orphaned => rw [hold rfl, hreward (.inl rfl)]
  | orphanedMature => rw [hold rfl, hreward (.inr rfl)]

theorem step (h : Settled doubles transactionFee workers address amount life)
    (hregular : Regular amount life asked)
    (hstep : check doubles transactionFee workers address life asked = some life') :
    Settled doubles transactionFee workers address amount life' := by
  rw [check, round_eq] at hstep
  split at hstep
  · -- the call has ended with the error
    cases hstep
    exact h
  · next block hround =>
    split_ifs at hround
    cases hround
    rw [entryOf_handleWorkers, Option.some.injEq] at hstep
    subst hstep
    refine ⟨?_, h.reward_checked hregular⟩
    refine Credited.move ?_ ?_ ?_
    · rw [previous_checked]
      exact h.forward_checked hregular
    · rw [previous_checked]
      intro hne hgiven
      rw [h.reward_due hregular hne hgiven]
    · rw [previous_checked]
      exact h.credited

end Settled

/-- A block that is looked at for the first time, and not credited for. -/
def Life.initial (type : BlockType) (previous : Category) (reward : ℚ) : Life :=
  ⟨⟨type, .pending, previous, reward⟩, ⟨0, 0⟩⟩

theorem settled_initial (type : BlockType) (previous : Category) (reward amount : ℚ) :
    Settled doubles transactionFee workers address amount (Life.initial type previous reward) :=
  ⟨rfl, by simp [Life.initial]⟩

end Runs

/-- Two miners, `a` and `b`, with the same work. -/
def twoMiners : List Worker :=
  [⟨⟨300, 30, by norm_num, by norm_num⟩, ['a']⟩, ⟨⟨300, 30, by norm_num, by norm_num⟩, ['b']⟩]

/-- The block is found, the daemon fails twice, and then it does not know the transaction. -/
def orphaned (amount : ℚ) : List Asked :=
  [⟨true, .details .immature amount⟩, ⟨true, .failed⟩, ⟨true, .unknown⟩, ⟨false, .unknown⟩]

/-- Half of an odd amount is rounded up, and so is what is taken back. -/
example : (Run.exec (check .exact 0 twoMiners ['a']) (Life.initial .primary .pending 0)
    (orphaned (50 + 1 / 10 ^ 8))).map Life.ledger = some ⟨1 / 10 ^ 8, 0⟩ := by decide +kernel

end Payments

end DogeConnect
