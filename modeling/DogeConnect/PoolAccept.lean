/-
Two thresholds for one difficulty.

The pool announces a difficulty `d`, any positive JSON number: its vardiff and
the password flag produce fractions.  It takes a share if the hash meets the
block target or if `B / hash` is at least 99 percent of `d`.  The dispatcher
stores `d` in a `uint64_t` and divides `B` by that.  With `k` the stored
divisor, 0 counting as 1, what it takes are the hashes up to `B / k`; they are
all good for the pool just when the largest of them is, since the pool's test
only gets harder as the hash grows.

    poolAccepts T d h  ↔  h ≤ T ∨ 99 * d * h ≤ 100 * B        (`poolAccepts_iff`)
    the dispatcher's target is at most B / k                  (`announcedTarget_val`)

The tolerance of one percent covers the fraction for `d ≤ 1` and from 99 on;
between, a fraction of more than about `k / 99` is lost to the pool.
-/
import Mathlib.Data.Nat.Cast.Order.Field
import Mathlib.Data.Rat.Floor
import Mathlib.Tactic.FieldSimp
import DogeConnect.TaskDist

namespace DogeConnect

/-! ## The announced number -/

/-- The number a JSON value stands for; the parser's integer kinds are 64 bits
wide, and every other number is a float. -/
def Json.number : Json → Option ℚ
  | .unsigned n => if n < 2 ^ 64 then some n else none
  | .integer i => if -(2 ^ 63) ≤ i ∧ i < 2 ^ 63 then some i else none
  | .float q => some q
  | _ => none

theorem truncToUnsigned_eq {w : Nat} {q : ℚ} (hq : 0 ≤ q) :
    Json.truncToUnsigned w q = if ⌊q⌋₊ < 2 ^ w then .ok ⌊q⌋₊ else .error .undefined := by
  have hnum : 0 ≤ q.num := Rat.num_nonneg.mpr hq
  have hfloor : q.num.tdiv q.den = (⌊q⌋₊ : Int) := by
    rw [Int.tdiv_eq_ediv_of_nonneg hnum, Int.natCast_floor_eq_floor hq, Rat.floor_def']
  have hcast : (2 : Int) ^ w = ((2 ^ w : Nat) : Int) := by push_cast; rfl
  simp only [Json.truncToUnsigned, hfloor, hcast]
  by_cases h : ⌊q⌋₊ < 2 ^ w
  · rw [if_pos h, if_pos ⟨Int.natCast_nonneg _, Int.ofNat_lt.mpr h⟩, Int.toNat_natCast]
  · rw [if_neg h, if_neg (fun hlt => h (Int.ofNat_lt.mp hlt.2))]

/-- The conversion to `uint64_t` drops the fraction. -/
theorem getUInt64_number {v : Json} {d : ℚ} (hv : v.number = some d) (hd : 0 < d) :
    v.getUInt64 = if ⌊d⌋₊ < 2 ^ 64 then .ok (UInt64.ofNat ⌊d⌋₊) else .error .undefined := by
  cases v with
  | unsigned n =>
      simp only [Json.number] at hv
      split at hv
      next hn =>
        cases hv
        rw [Json.getUInt64, Nat.floor_natCast, if_pos hn]
      · cases hv
  | integer i =>
      simp only [Json.number] at hv
      split at hv
      next hi =>
        cases hv
        have hpos : 0 < i := by exact_mod_cast hd
        obtain ⟨n, rfl⟩ := Int.eq_ofNat_of_zero_le hpos.le
        have hn : n < 2 ^ 64 := by omega
        have hmod : ((n : Int) % 2 ^ 64).toNat = n := by omega
        rw [Json.getUInt64, hmod, Int.cast_natCast, Nat.floor_natCast, if_pos hn]
      · cases hv
  | float q =>
      cases hv
      rw [Json.getUInt64, truncToUnsigned_eq hd.le]
      split <;> rfl
  | _ => cases hv

theorem readMessage_setDifficulty (v : Json) :
    readMessage (stratumNotification "mining.set_difficulty".toList [v])
      = v.getUInt64.map StratumMessage.setDifficulty := by
  have hparam : (Json.array [v]).index 0 = .ok v := rfl
  show ((Json.array [v]).index 0 >>= fun p => p.getUInt64 >>= fun D => pure (StratumMessage.setDifficulty D))
    = _
  rw [hparam, except_ok_bind]
  cases v.getUInt64 <;> rfl

/-- A target is derived from every announced number below `2 ^ 64`. -/
theorem readMessage_announced {v : Json} {d : ℚ} (hv : v.number = some d) (hd : 0 < d)
    (divisor : UInt64) :
    readMessage (stratumNotification "mining.set_difficulty".toList [v])
      = .ok (.setDifficulty divisor) ↔ d < 2 ^ 64 ∧ divisor.toNat = ⌊d⌋₊ := by
  have hrange : ⌊d⌋₊ < 2 ^ 64 ↔ d < 2 ^ 64 := by
    rw [Nat.floor_lt hd.le]
    norm_cast
  rw [readMessage_setDifficulty, getUInt64_number hv hd, ← hrange]
  by_cases h : ⌊d⌋₊ < 2 ^ 64
  · have hval : (UInt64.ofNat ⌊d⌋₊).toNat = ⌊d⌋₊ := by
      rw [UInt64.toNat_ofNat']
      exact Nat.mod_eq_of_lt h
    rw [if_pos h]
    constructor
    · intro heq
      cases heq
      exact ⟨h, hval⟩
    · rintro ⟨-, hdiv⟩
      have : divisor = UInt64.ofNat ⌊d⌋₊ := UInt64.toNat_inj.mp (hdiv.trans hval.symm)
      rw [this]
      rfl
  · rw [if_neg h]
    constructor
    · intro heq
      cases heq
    · rintro ⟨hlt, -⟩
      exact absurd hlt h

/-! ## The dispatcher's threshold -/

/-- The base target, `0xffff * 2 ^ 224`. -/
def baseTarget : Nat := 0xffff * 2 ^ 224

theorem poolBaseDifficulty_val : poolBaseDifficulty.fullRep.val = baseTarget := by decide

theorem announcedTarget_val (divisor : UInt64) :
    (announcedTarget poolBaseDifficulty divisor).fullRep.val
      = baseTarget / max 1 divisor.toNat := by
  have hfull : (announcedTarget poolBaseDifficulty divisor).fullRep
      = divideTarget poolBaseDifficulty.fullRep divisor := rfl
  rw [hfull, ← poolBaseDifficulty_val]
  by_cases h0 : divisor = 0
  · rw [h0]
    simp [divideTarget]
  · have hpos : 0 < divisor.toNat :=
      Nat.pos_of_ne_zero (fun h => h0 (UInt64.toNat_inj.mp h))
    rw [divideTarget_val _ hpos, Nat.max_eq_right hpos]

/-! ## The pool's test -/

/-- `Algorithms.scrypt.diff` and `.multiplier`. -/
def scryptDiff : Nat := 0xffff * 2 ^ 208

def scryptMultiplier : Nat := 2 ^ 16

/-- `shareDiff`, in exact arithmetic; a hash of zero never gets that far. -/
def shareDiff (headerBigInt : Nat) : ℚ := (scryptDiff : ℚ) / headerBigInt * scryptMultiplier

/-- The test of `handleShare` on the hash: a block candidate, or not refused
for low difficulty. -/
def poolAccepts (blockTarget : Nat) (difficulty : ℚ) (headerBigInt : Nat) : Prop :=
  headerBigInt ≤ blockTarget ∨ ¬ shareDiff headerBigInt / difficulty < 99 / 100

theorem poolAccepts_iff {blockTarget : Nat} {d : ℚ} (hd : 0 < d) (h : Nat) :
    poolAccepts blockTarget d h ↔ h ≤ blockTarget ∨ 99 * d * h ≤ 100 * (baseTarget : ℚ) := by
  rcases Nat.eq_zero_or_pos h with rfl | hpos
  · exact ⟨fun _ => Or.inl (Nat.zero_le _), fun _ => Or.inl (Nat.zero_le _)⟩
  have hh : (0 : ℚ) < h := Nat.cast_pos.mpr hpos
  have hbase : (scryptDiff : ℚ) * scryptMultiplier = baseTarget := by
    rw [scryptDiff, scryptMultiplier, baseTarget]
    norm_num
  have hshare : shareDiff h / d = baseTarget / (h * d) := by
    rw [shareDiff, ← hbase]
    field_simp
  rw [poolAccepts, hshare, not_lt, div_le_div_iff₀ (by norm_num) (mul_pos hh hd)]
  have hcomm : 99 * (h * d) = 99 * d * h := by ring
  rw [hcomm, mul_comm (baseTarget : ℚ) 100]

theorem poolAccepts_antitone {blockTarget : Nat} {d : ℚ} (hd : 0 < d) {h m : Nat} (hle : h ≤ m)
    (hm : poolAccepts blockTarget d m) : poolAccepts blockTarget d h := by
  rw [poolAccepts_iff hd] at hm ⊢
  rcases hm with hblock | hshare
  · exact Or.inl (hle.trans hblock)
  · right
    have hcast : (h : ℚ) ≤ m := Nat.cast_le.mpr hle
    calc 99 * d * h ≤ 99 * d * m := mul_le_mul_of_nonneg_left hcast (by positivity)
      _ ≤ 100 * baseTarget := hshare

/-! ## Where the thresholds agree -/

/-- The largest hash below the truncated threshold, `baseTarget / k`, is a block
candidate or within one percent of the announced difficulty. -/
def WithinTolerance (blockTarget : Nat) (d : ℚ) : Prop :=
  baseTarget / max 1 ⌊d⌋₊ ≤ blockTarget ∨
    99 * d * (baseTarget / max 1 ⌊d⌋₊ : Nat) ≤ 100 * baseTarget

/-- Whatever the block target, it is enough that the fraction is small against
the divisor. -/
theorem withinTolerance_of_le {blockTarget : Nat} {d : ℚ}
    (h : 99 * d ≤ 100 * (max 1 ⌊d⌋₊ : Nat)) : WithinTolerance blockTarget d := by
  right
  have hk : (0 : ℚ) < (max 1 ⌊d⌋₊ : Nat) := Nat.cast_pos.mpr (by omega)
  have hdiv : ((baseTarget / max 1 ⌊d⌋₊ : Nat) : ℚ) ≤ baseTarget / (max 1 ⌊d⌋₊ : Nat) :=
    Nat.cast_div_le
  calc 99 * d * (baseTarget / max 1 ⌊d⌋₊ : Nat)
      ≤ 100 * (max 1 ⌊d⌋₊ : Nat) * (baseTarget / (max 1 ⌊d⌋₊ : Nat)) :=
        mul_le_mul h hdiv (Nat.cast_nonneg _) (by positivity)
    _ = 100 * baseTarget := by field_simp

theorem withinTolerance_natCast (blockTarget : Nat) {n : Nat} (hn : 0 < n) :
    WithinTolerance blockTarget n := by
  refine withinTolerance_of_le ?_
  rw [Nat.floor_natCast, Nat.max_eq_right hn]
  have : (0 : ℚ) ≤ n := Nat.cast_nonneg n
  linarith

theorem withinTolerance_of_le_one (blockTarget : Nat) {d : ℚ} (h : d ≤ 1) :
    WithinTolerance blockTarget d := by
  refine withinTolerance_of_le ?_
  have hone : (1 : ℚ) ≤ (max 1 ⌊d⌋₊ : Nat) := by exact_mod_cast Nat.le_max_left 1 ⌊d⌋₊
  linarith

theorem withinTolerance_of_ge (blockTarget : Nat) {d : ℚ} (h : 99 ≤ d) :
    WithinTolerance blockTarget d := by
  refine withinTolerance_of_le ?_
  have hfloor : 99 ≤ ⌊d⌋₊ := Nat.le_floor (by exact_mod_cast h)
  have hmax : max 1 ⌊d⌋₊ = ⌊d⌋₊ := Nat.max_eq_right (by omega)
  have hlt : d < ⌊d⌋₊ + 1 := Nat.lt_floor_add_one d
  have hcast : (99 : ℚ) ≤ ⌊d⌋₊ := by exact_mod_cast hfloor
  rw [hmax]
  linarith

/-- **Dispatcher acceptance and pool acceptance.**  Below `2 ^ 64` the message
gives the dispatcher a target, and every hash that meets it passes the pool's
test exactly when the announced difficulty is within tolerance. -/
theorem announced_accepted_iff (blockTarget : Nat) {v : Json} {d : ℚ} (hv : v.number = some d)
    (hd : 0 < d) :
    ((∃ divisor, readMessage (stratumNotification "mining.set_difficulty".toList [v])
        = .ok (.setDifficulty divisor)) ↔ d < 2 ^ 64) ∧
    ∀ divisor, readMessage (stratumNotification "mining.set_difficulty".toList [v])
        = .ok (.setDifficulty divisor) →
      ((∀ h : ByteArr 32,
          verifyHashVsTarget h (announcedTarget poolBaseDifficulty divisor).fullRep = true →
          poolAccepts blockTarget d h.val) ↔ WithinTolerance blockTarget d) := by
  constructor
  · constructor
    · rintro ⟨divisor, hread⟩
      exact ((readMessage_announced hv hd divisor).mp hread).1
    · intro hlt
      refine ⟨UInt64.ofNat ⌊d⌋₊, (readMessage_announced hv hd _).mpr ⟨hlt, ?_⟩⟩
      rw [UInt64.toNat_ofNat']
      exact Nat.mod_eq_of_lt ((Nat.floor_lt hd.le).mpr (by exact_mod_cast hlt))
  · intro divisor hread
    have hdivisor := ((readMessage_announced hv hd divisor).mp hread).2
    have htarget : (announcedTarget poolBaseDifficulty divisor).fullRep.val
        = baseTarget / max 1 ⌊d⌋₊ := by rw [announcedTarget_val, hdivisor]
    rw [WithinTolerance, ← poolAccepts_iff hd, ← htarget]
    constructor
    · intro h
      -- the target itself is the largest hash that meets it
      exact h _ ((verifyHashVsTarget_iff _ _).mpr (Nat.le_refl _))
    · intro hmax h hmeets
      exact poolAccepts_antitone hd ((verifyHashVsTarget_iff _ _).mp hmeets) hmax

/-- An integer difficulty, and the largest hash that meets its target. -/
theorem announced_accepted_iff_integer :
    verifyHashVsTarget (announcedTarget poolBaseDifficulty 65536).fullRep
        (announcedTarget poolBaseDifficulty 65536).fullRep = true ∧
      poolAccepts 0 65536 (announcedTarget poolBaseDifficulty 65536).fullRep.val := by
  have hread : readMessage (stratumNotification "mining.set_difficulty".toList [.unsigned 65536])
      = .ok (.setDifficulty 65536) := rfl
  have hmeets := (verifyHashVsTarget_iff (announcedTarget poolBaseDifficulty 65536).fullRep
    (announcedTarget poolBaseDifficulty 65536).fullRep).mpr (Nat.le_refl _)
  exact ⟨hmeets, ((announced_accepted_iff 0 (v := .unsigned 65536) (d := 65536) rfl
    (by norm_num)).2 65536 hread).mpr (withinTolerance_natCast 0 (n := 65536) (by decide)) _ hmeets⟩

/-- At difficulty 1.5 the base target is still taken, and the pool wants two
thirds of it. -/
theorem announced_fraction_refused :
    readMessage (stratumNotification "mining.set_difficulty".toList [.float (3 / 2)])
      = .ok (.setDifficulty 1) ∧
    verifyHashVsTarget poolBaseDifficulty.fullRep (announcedTarget poolBaseDifficulty 1).fullRep
      = true ∧
    ¬ poolAccepts (0x2a848a * 2 ^ 176) (3 / 2) poolBaseDifficulty.fullRep.val := by
  refine ⟨?_, by decide, ?_⟩
  · have hfloor : ⌊(3 / 2 : ℚ)⌋₊ = 1 := (Nat.floor_eq_iff (by norm_num)).mpr (by norm_num)
    exact (readMessage_announced rfl (by norm_num) 1).mpr ⟨by norm_num, hfloor.symm⟩
  · rw [poolAccepts_iff (by norm_num), poolBaseDifficulty_val, baseTarget]
    norm_num

end DogeConnect
