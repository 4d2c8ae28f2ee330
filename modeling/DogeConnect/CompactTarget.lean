/-
The compact form of a target, as a rounding of the 256-bit number.

`calculateCompactRepFromFullRep` keeps the three leading bytes of a target and
the number of bytes below them; if the top one has its sign bit set it keeps
two.  In both cases, and for targets of at most three bytes, what it keeps is a
cut of the number at radix 256 with a mantissa below `2 ^ 23`, and no longer
mantissa would fit: the normal cut of `Lib.RoundDown`.  The decoder writes the
mantissa bytes one by one and drops those outside the array, which is the
shifted mantissa modulo `2 ^ 256`.

    decode c = mantissa * 256 ^ exponent / 256 ^ 3 mod 256 ^ 32     (`calculateFullRep_val`)
    encode t = compact (t / 256 ^ k) (k + 3), a normal cut          (`calculateCompactRep_eq`)
-/
import Mathlib.Data.Rat.Floor
import DogeConnect.Difficulty
import DogeConnect.Lib.RoundDown

namespace DogeConnect

open Digits RoundDown

/-! ## Single bytes of an array -/

theorem leVal_getD : ∀ (bs : List UInt8) (i : Nat),
    (bs.getD i 0).toNat = leVal bs / 256 ^ i % 256
  | [], i => by simp
  | b :: bs, 0 => by
      have hb : b.toNat < 256 := b.toNat_lt
      simp [Nat.mod_eq_of_lt hb]
  | b :: bs, i + 1 => by
      have hb : b.toNat < 256 := b.toNat_lt
      have htail : leVal (b :: bs) / 256 = leVal bs := by rw [leVal_cons]; omega
      rw [List.getD_cons_succ, leVal_getD bs i, pow_succ', ← Nat.div_div_eq_div_mul, htail]

theorem leVal_set (b : UInt8) : ∀ {bs : List UInt8} {i : Nat}, i < bs.length → bs.getD i 0 = 0 →
    leVal (bs.set i b) = leVal bs + b.toNat * 256 ^ i
  | c :: bs, 0, _, h0 => by
      have hc : c = 0 := by simpa using h0
      rw [List.set_cons_zero, leVal_cons, leVal_cons, hc]
      simp [Nat.add_comm]
  | c :: bs, i + 1, hi, h0 => by
      have hi' : i < bs.length := by simpa using hi
      have h0' : bs.getD i 0 = 0 := by simpa using h0
      rw [List.set_cons_succ, leVal_cons, leVal_cons, leVal_set b hi' h0', pow_succ]
      ring

namespace ByteArr

variable {n : Nat}

theorem byte_toNat (a : ByteArr n) (i : Nat) : (a.byte i).toNat = a.val / 256 ^ i % 256 :=
  leVal_getD a.toList i

theorem val_set {a : ByteArr n} {i : Nat} (b : UInt8) (hi : i < n) (h0 : a.byte i = 0) :
    (a.set i b).val = a.val + b.toNat * 256 ^ i :=
  leVal_set b (by rw [a.length]; exact hi) h0

theorem byte_set_ne (a : ByteArr n) {i j : Nat} (b : UInt8) (h : i ≠ j) :
    (a.set i b).byte j = a.byte j := by
  simp [byte, set, List.getD_eq_getElem?_getD, List.getElem?_set_ne h]

theorem byte_fill_zero (i : Nat) : (fill n 0).byte i = 0 := by
  simp only [byte, fill, List.getD_eq_getElem?_getD, List.getElem?_replicate]
  split <;> rfl

end ByteArr

/-! ## Reading the compact form -/

/-- The number in bytes 0 to 2. -/
def mantissa (compactRep : ByteArr 4) : Nat :=
  (compactRep.byte 0).toNat + 256 * (compactRep.byte 1).toNat + 65536 * (compactRep.byte 2).toNat

def exponent (compactRep : ByteArr 4) : Nat := (compactRep.byte 3).toNat

/-- The loop body of `calculateFullRepFromCompactRep`. -/
def placeByte (compactRep : ByteArr 4) (fullRep : ByteArr 32) (i : Nat) : ByteArr 32 :=
  let target_idx : Int := (exponent compactRep : Int) - 3 + i
  if 0 ≤ target_idx ∧ target_idx < 32 then fullRep.set target_idx.toNat (compactRep.byte i)
  else fullRep

/-- What that round adds to the number. -/
def placedVal (compactRep : ByteArr 4) (i : Nat) : Nat :=
  let target_idx : Int := (exponent compactRep : Int) - 3 + i
  if 0 ≤ target_idx ∧ target_idx < 32 then (compactRep.byte i).toNat * 256 ^ target_idx.toNat
  else 0

/-- After `n` rounds: the bytes placed so far, and zeros from the next index on. -/
theorem placeByte_loop (c : ByteArr 4) : ∀ n : Nat,
    ((List.range n).foldl (placeByte c) (ByteArr.fill 32 0)).val
      = ((List.range n).map (placedVal c)).sum ∧
    ∀ j : Nat, (exponent c : Int) - 3 + n ≤ j →
      ((List.range n).foldl (placeByte c) (ByteArr.fill 32 0)).byte j = 0
  | 0 => by
      have hzero : (ByteArr.fill 32 0).val = 0 := by decide
      exact ⟨hzero, fun j _ => ByteArr.byte_fill_zero j⟩
  | n + 1 => by
      obtain ⟨hval, hzero⟩ := placeByte_loop c n
      rw [List.range_succ, List.foldl_append, List.map_append, List.sum_append, ← hval]
      simp only [List.foldl_cons, List.foldl_nil, List.map_cons, List.map_nil, List.sum_cons,
        List.sum_nil, placeByte, placedVal, Nat.add_zero]
      split
      next hidx =>
        have hself : (((exponent c : Int) - 3 + n).toNat : Int) = (exponent c : Int) - 3 + n :=
          Int.toNat_of_nonneg hidx.1
        refine ⟨ByteArr.val_set _ (by omega) (hzero _ hself.ge), fun j hj => ?_⟩
        rw [ByteArr.byte_set_ne _ _ (by omega)]
        exact hzero j (by omega)
      next => exact ⟨rfl, fun j hj => hzero j (by omega)⟩

theorem calculateFullRep_sum (c : ByteArr 4) : (calculateFullRepFromCompactRep c).val
    = placedVal c 0 + placedVal c 1 + placedVal c 2 := by
  have h := (placeByte_loop c 3).1
  simp only [List.range, List.range.loop, List.map_cons, List.map_nil, List.sum_cons, List.sum_nil,
    Nat.add_zero, ← Nat.add_assoc] at h
  exact h

/-- Above exponent 2 a byte is placed where its weight is, modulo the array. -/
theorem placedVal_modEq {c : ByteArr 4} {k : Nat} (hk : exponent c = k + 3) (i : Nat) :
    placedVal c i ≡ (c.byte i).toNat * 256 ^ (k + i) [MOD 256 ^ 32] := by
  have hidx : (exponent c : Int) - 3 + i = ((k + i : Nat) : Int) := by rw [hk]; push_cast; ring
  rw [placedVal, hidx]
  split
  next => rw [Int.toNat_natCast]
  next hout =>
    obtain ⟨d, hd⟩ := Nat.exists_eq_add_of_le (show 32 ≤ k + i by omega)
    rw [hd, pow_add]
    exact ((Nat.modEq_zero_iff_dvd.mpr ⟨(c.byte i).toNat * 256 ^ d, by ring⟩)).symm

/-- The decoder shifts the mantissa and drops what falls off either end. -/
theorem calculateFullRep_val (c : ByteArr 4) : (calculateFullRepFromCompactRep c).val
    = mantissa c * 256 ^ exponent c / 256 ^ 3 % 256 ^ 32 := by
  have h0 : (c.byte 0).toNat < 256 := (c.byte 0).toNat_lt
  have h1 : (c.byte 1).toNat < 256 := (c.byte 1).toNat_lt
  have h2 : (c.byte 2).toNat < 256 := (c.byte 2).toNat_lt
  by_cases he : 3 ≤ exponent c
  · obtain ⟨k, hk⟩ := Nat.exists_eq_add_of_le' he
    have hshift : mantissa c * 256 ^ exponent c / 256 ^ 3 = mantissa c * 256 ^ k := by
      rw [hk, pow_add, ← Nat.mul_assoc]
      exact Nat.mul_div_cancel _ (by decide)
    have hsum : mantissa c * 256 ^ k = (c.byte 0).toNat * 256 ^ (k + 0)
        + (c.byte 1).toNat * 256 ^ (k + 1) + (c.byte 2).toNat * 256 ^ (k + 2) := by
      rw [mantissa]; ring
    have hmod : (calculateFullRepFromCompactRep c).val ≡ mantissa c * 256 ^ k [MOD 256 ^ 32] := by
      rw [calculateFullRep_sum, hsum]
      exact ((placedVal_modEq hk 0).add (placedVal_modEq hk 1)).add (placedVal_modEq hk 2)
    rw [hshift, ← hmod, Nat.mod_eq_of_lt (ByteArr.val_lt _)]
  · -- below exponent 3 the low bytes fall off and nothing reaches the top
    have hcases : exponent c = 0 ∨ exponent c = 1 ∨ exponent c = 2 := by omega
    rw [calculateFullRep_sum]
    rcases hcases with h | h | h <;> simp [placedVal, h, mantissa] <;> omega

theorem calculateFullRep_floor (c : ByteArr 4) : ((calculateFullRepFromCompactRep c).val : Int)
    = ⌊(mantissa c : ℚ) * 256 ^ ((exponent c : Int) - 3)⌋ % 2 ^ 256 := by
  have hratio : (mantissa c : ℚ) * 256 ^ ((exponent c : Int) - 3)
      = ((mantissa c * 256 ^ exponent c : Nat) : ℚ) / ((256 ^ 3 : Nat) : ℚ) := by
    rw [zpow_sub₀ (by norm_num), zpow_natCast]
    push_cast
    rw [mul_div_assoc]
  rw [hratio, Rat.floor_natCast_div_natCast, calculateFullRep_val]
  norm_cast

/-! ## Writing the compact form -/

/-- A compact form from its two numbers. -/
def compact (m e : Nat) : ByteArr 4 :=
  ⟨[UInt8.ofNat m, UInt8.ofNat (m / 256), UInt8.ofNat (m / 65536), UInt8.ofNat e], rfl⟩

theorem mantissa_compact {m e : Nat} (h : m < 2 ^ 24) : mantissa (compact m e) = m := by
  have hb (v : Nat) : (UInt8.ofNat v).toNat = v % 256 := by rw [UInt8.toNat_ofNat']
  simp only [mantissa, compact, ByteArr.byte, List.getD_cons_zero, List.getD_cons_succ, hb]
  omega

theorem exponent_compact {m e : Nat} (h : e < 256) : exponent (compact m e) = e := by
  simp only [exponent, compact, ByteArr.byte, List.getD_cons_zero, List.getD_cons_succ,
    UInt8.toNat_ofNat']
  omega

theorem calculateFullRep_compact {m k : Nat} (hm : m < 2 ^ 24) (hk : k + 3 < 256)
    (hfit : m * 256 ^ k < 256 ^ 32) :
    (calculateFullRepFromCompactRep (compact m (k + 3))).val = m * 256 ^ k := by
  rw [calculateFullRep_val, mantissa_compact hm, exponent_compact hk, pow_add, ← Nat.mul_assoc,
    Nat.mul_div_cancel _ (by decide), Nat.mod_eq_of_lt hfit]

theorem exponentFrom_spec (t : ByteArr 32) : ∀ n : Nat, t.val < 256 ^ n →
    exponentFrom t n ≤ n ∧ t.val < 256 ^ exponentFrom t n ∧
    (exponentFrom t n = 0 ∨ 256 ^ (exponentFrom t n - 1) ≤ t.val)
  | 0, h => ⟨Nat.le_refl 0, h, Or.inl rfl⟩
  | n + 1, h => by
      have hdigit : (t.byte n).toNat = t.val / 256 ^ n := by
        rw [ByteArr.byte_toNat, Nat.mod_eq_of_lt]
        rw [Nat.div_lt_iff_lt_mul (Nat.pow_pos (by decide)), Nat.mul_comm, ← pow_succ]
        exact h
      unfold exponentFrom
      split
      next hne =>
        refine ⟨Nat.le_refl _, h, Or.inr ?_⟩
        have hpos : 1 ≤ t.val / 256 ^ n := by
          rw [← hdigit]
          exact Nat.one_le_iff_ne_zero.mpr (fun h0 => hne (UInt8.toNat_inj.mp h0))
        simpa using (Nat.le_div_iff_mul_le (Nat.pow_pos (by decide))).mp hpos
      next heq =>
        have hz : t.val / 256 ^ n = 0 := by
          rw [← hdigit, not_not.mp heq]
          rfl
        have hlt : t.val < 256 ^ n := by
          rcases (Nat.div_eq_zero_iff).mp hz with h0 | h0
          · exact absurd h0 (pow_ne_zero n (by decide))
          · exact h0
        obtain ⟨hle, hrest⟩ := exponentFrom_spec t n hlt
        exact ⟨Nat.le_succ_of_le hle, hrest⟩

/-- Three bytes or-ed together are the three digits from `j` on. -/
theorem or_bytes_eq (t : ByteArr 32) {j : Nat} (h : t.val < 256 ^ (j + 3)) :
    (t.byte j).toNat ||| ((t.byte (j + 1)).toNat <<< 8) ||| ((t.byte (j + 2)).toNat <<< 16)
      = t.val / 256 ^ j := by
  have h0 : (t.byte j).toNat < 256 := (t.byte j).toNat_lt
  have h1 : (t.byte (j + 1)).toNat < 256 := (t.byte (j + 1)).toNat_lt
  have hlt : t.val / 256 ^ j < 256 ^ 3 := by
    rw [Nat.div_lt_iff_lt_mul (Nat.pow_pos (by decide)), Nat.mul_comm, ← pow_add]
    exact h
  have hlow : (t.byte j).toNat ||| ((t.byte (j + 1)).toNat <<< 8)
      = (t.byte j).toNat + (t.byte (j + 1)).toNat * 2 ^ 8 := or_shiftLeft_of_lt h0
  have hdigit (i : Nat) : (t.byte (j + i)).toNat = t.val / 256 ^ j / 256 ^ i % 256 := by
    rw [ByteArr.byte_toNat, pow_add, Nat.div_div_eq_div_mul]
  have hd0 : (t.byte j).toNat = t.val / 256 ^ j % 256 := ByteArr.byte_toNat t j
  have hd1 : (t.byte (j + 1)).toNat = t.val / 256 ^ j / 256 % 256 := hdigit 1
  have hd2 : (t.byte (j + 2)).toNat = t.val / 256 ^ j / 256 / 256 % 256 := by
    rw [hdigit 2, Nat.div_div_eq_div_mul (t.val / 256 ^ j) 256 256, pow_two]
  rw [hlow, or_shiftLeft_of_lt (by omega), hd0, hd1, hd2]
  generalize t.val / 256 ^ j = v at hlt
  omega

theorem signBit_iff {m : Nat} (h : m < 2 ^ 24) : m &&& 0x00800000 ≠ 0 ↔ 2 ^ 23 ≤ m := by
  rw [show (0x00800000 : Nat) = 2 ^ 23 by rfl, Nat.and_two_pow, Nat.testBit_eq_decide_div_mod_eq]
  have htop : m / 2 ^ 23 % 2 = 1 ↔ 2 ^ 23 ≤ m := by omega
  rw [← htop]
  by_cases hm : m / 2 ^ 23 % 2 = 1
  · simp only [hm, decide_true, Bool.toNat_true, one_mul, ne_eq, iff_true]
    decide
  · simp only [hm, decide_false, Bool.toNat_false, zero_mul, ne_eq, not_true_eq_false]

theorem stored_eq_compact (m e : Nat) :
    ([UInt8.ofNat (m &&& 0xFF), UInt8.ofNat ((m >>> 8) &&& 0xFF),
      UInt8.ofNat ((m >>> 16) &&& 0xFF), UInt8.ofNat e] : List UInt8) = (compact m e).toList := by
  have hmask (v : Nat) : UInt8.ofNat (v &&& 0xFF) = UInt8.ofNat v := by
    apply UInt8.toNat_inj.mp
    rw [UInt8.toNat_ofNat', UInt8.toNat_ofNat', show (0xFF : Nat) = 2 ^ 8 - 1 by rfl,
      Nat.and_two_pow_sub_one_eq_mod, Nat.mod_mod]
  rw [hmask, hmask, hmask, Nat.shiftRight_eq_div_pow, Nat.shiftRight_eq_div_pow]
  rfl

/-- The mantissa before the sign rule: the digits from `j` on, where `j + 3` is
the exponent. -/
theorem leading_mantissa (t : ByteArr 32) : ∃ j, j + 3 ≤ 32 ∧
    t.val / 256 ^ j < 2 ^ 24 ∧ (j = 0 ∨ 2 ^ 16 ≤ t.val / 256 ^ j) ∧
    (if exponentFrom t 32 ≤ 3 then
      ((t.byte 0).toNat ||| ((t.byte 1).toNat <<< 8) ||| ((t.byte 2).toNat <<< 16), 3)
    else ((t.byte (exponentFrom t 32 - 3)).toNat
        ||| ((t.byte (exponentFrom t 32 - 2)).toNat <<< 8)
        ||| ((t.byte (exponentFrom t 32 - 1)).toNat <<< 16), exponentFrom t 32))
      = (t.val / 256 ^ j, j + 3) := by
  obtain ⟨hle, hlt, hge⟩ := exponentFrom_spec t 32 t.val_lt
  have hmant {j : Nat} (h : t.val < 256 ^ (j + 3)) : t.val / 256 ^ j < 2 ^ 24 := by
    rw [Nat.div_lt_iff_lt_mul (Nat.pow_pos (by decide)), Nat.mul_comm]
    rw [pow_add] at h
    exact h
  split
  next hshort =>
    have hval : t.val < 256 ^ (0 + 3) :=
      lt_of_lt_of_le hlt (Nat.pow_le_pow_right (by decide) hshort)
    exact ⟨0, by decide, hmant hval, Or.inl rfl, by rw [← or_bytes_eq t hval]⟩
  next hlong =>
    obtain ⟨j, hj⟩ := Nat.exists_eq_add_of_le' (show 3 ≤ exponentFrom t 32 by omega)
    rw [hj] at hle hlt hge ⊢
    refine ⟨j, hle, hmant hlt, Or.inr ?_, ?_⟩
    · have htop : 256 ^ (j + 2) ≤ t.val := by
        rcases hge with h0 | h0
        · exact absurd h0 (Nat.succ_ne_zero (j + 2))
        · exact h0
      rw [Nat.le_div_iff_mul_le (Nat.pow_pos (by decide))]
      calc 2 ^ 16 * 256 ^ j = 256 ^ (j + 2) := by rw [pow_add]; ring
        _ ≤ t.val := htop
    · rw [← or_bytes_eq t hlt]
      rfl

theorem calculateCompactRep_eq (t : ByteArr 32) : ∃ k, k + 3 ≤ 33 ∧
    Normal 256 (2 ^ 23) t.val k ∧
    calculateCompactRepFromFullRep t = compact (t.val / 256 ^ k) (k + 3) := by
  obtain ⟨j, hj, hlt, hfull, hpair⟩ := leading_mantissa t
  have hstored : calculateCompactRepFromFullRep t
      = if t.val / 256 ^ j &&& 0x00800000 ≠ 0 then compact ((t.val / 256 ^ j) >>> 8) (j + 3 + 1)
        else compact (t.val / 256 ^ j) (j + 3) := by
    unfold calculateCompactRepFromFullRep
    simp only [hpair]
    split
    all_goals exact ByteArr.ext (stored_eq_compact _ _)
  by_cases hsign : 2 ^ 23 ≤ t.val / 256 ^ j
  · -- the sign rule drops one more byte
    have hnext : t.val / 256 ^ (j + 1) = t.val / 256 ^ j / 256 := by
      rw [pow_succ, Nat.div_div_eq_div_mul]
    refine ⟨j + 1, by omega, ⟨by omega, Or.inr (by omega)⟩, ?_⟩
    rw [hstored, if_pos ((signBit_iff hlt).mpr hsign), Nat.shiftRight_eq_div_pow, hnext]
  · refine ⟨j, by omega, ⟨by omega, ?_⟩, ?_⟩
    · rcases hfull with h0 | hge
      · exact Or.inl h0
      · exact Or.inr (by omega)
    · rw [hstored, if_neg (fun h => hsign ((signBit_iff hlt).mp h))]

/-! ## There and back -/

/-- The target a miner works with: what the compact form of `t` expands to. -/
def expanded (t : ByteArr 32) : ByteArr 32 :=
  calculateFullRepFromCompactRep (calculateCompactRepFromFullRep t)

theorem expanded_val (t : ByteArr 32) : ∃ k, Normal 256 (2 ^ 23) t.val k ∧
    calculateCompactRepFromFullRep t = compact (t.val / 256 ^ k) (k + 3) ∧
    (expanded t).val = cut 256 k t.val := by
  obtain ⟨k, hk, hnormal, heq⟩ := calculateCompactRep_eq t
  refine ⟨k, hnormal, heq, ?_⟩
  have hm : t.val / 256 ^ k < 2 ^ 24 := hnormal.mantissa_lt.trans (by decide)
  have hfit : t.val / 256 ^ k * 256 ^ k < 256 ^ 32 := (cut_le 256 k t.val).trans_lt t.val_lt
  rw [expanded, heq, calculateFullRep_compact hm (by omega) hfit]
  rfl

theorem expanded_isGreatest (t : ByteArr 32) :
    IsGreatest (shortBelow 256 (2 ^ 23) t.val) (expanded t).val := by
  obtain ⟨k, hnormal, -, hval⟩ := expanded_val t
  rw [hval]
  exact isGreatest_cut (by decide) hnormal

theorem calculateCompactRep_expanded (t : ByteArr 32) :
    calculateCompactRepFromFullRep (expanded t) = calculateCompactRepFromFullRep t := by
  obtain ⟨k, hnormal, heq, hval⟩ := expanded_val t
  obtain ⟨j, -, hnormal', heq'⟩ := calculateCompactRep_eq (expanded t)
  rw [hval] at hnormal' heq'
  have hjk : j = k := hnormal'.unique (hnormal.cut (by decide))
  rw [heq', heq, hjk, cut_div (by decide)]

theorem expanded_mono {s t : ByteArr 32} (h : s.val ≤ t.val) :
    (expanded s).val ≤ (expanded t).val :=
  isGreatest_mono h (expanded_isGreatest s) (expanded_isGreatest t)

namespace DifficultyTarget

/-- `div`: both representations of the quotient. -/
def div (target : DifficultyTarget) (divisor : UInt64) : DifficultyTarget :=
  .ofFullRep (divideTarget target.fullRep divisor)

/-- What the constructors and `div` can build. -/
inductive Built : DifficultyTarget → Prop
  | ofCompactRep (compactRep : ByteArr 4) : Built (.ofCompactRep compactRep)
  | ofFullRep (fullRep : ByteArr 32) : Built (.ofFullRep fullRep)
  | div {target : DifficultyTarget} (divisor : UInt64) : Built target → Built (target.div divisor)

theorem Built.expand_le {target : DifficultyTarget} (h : Built target) :
    (calculateFullRepFromCompactRep target.compactRep).val ≤ target.fullRep.val := by
  have hfull (t : ByteArr 32) : (expanded t).val ≤ t.val := by
    obtain ⟨-, -, -, -, hle⟩ := (expanded_isGreatest t).1
    exact hle
  cases h with
  | ofCompactRep c => exact Nat.le_refl _
  | ofFullRep t => exact hfull t
  | div divisor _ => exact hfull _

end DifficultyTarget

/-- **Compact targets round down canonically.** -/
theorem compactTarget_roundsDown :
    (∀ t : ByteArr 32,
      IsGreatest {x | ∃ m k, m < 2 ^ 23 ∧ x = m * 256 ^ k ∧ x ≤ t.val}
        (calculateFullRepFromCompactRep (calculateCompactRepFromFullRep t)).val) ∧
    (∀ t : ByteArr 32,
      calculateCompactRepFromFullRep
          (calculateFullRepFromCompactRep (calculateCompactRepFromFullRep t))
        = calculateCompactRepFromFullRep t) ∧
    (∀ s t : ByteArr 32, s.val ≤ t.val →
      (calculateFullRepFromCompactRep (calculateCompactRepFromFullRep s)).val
        ≤ (calculateFullRepFromCompactRep (calculateCompactRepFromFullRep t)).val) ∧
    (∀ c : ByteArr 4, ((calculateFullRepFromCompactRep c).val : Int)
      = ⌊(mantissa c : ℚ) * 256 ^ ((exponent c : Int) - 3)⌋ % 2 ^ 256) ∧
    ∀ (target : DifficultyTarget) (h : ByteArr 32), target.Built →
      verifyHashVsTarget h (calculateFullRepFromCompactRep target.compactRep) = true →
      verifyHashVsTarget h target.fullRep = true := by
  refine ⟨expanded_isGreatest, calculateCompactRep_expanded, fun _ _ => expanded_mono,
    calculateFullRep_floor, ?_⟩
  intro target h hbuilt hmeets
  rw [verifyHashVsTarget_iff] at hmeets ⊢
  exact hmeets.trans hbuilt.expand_le

/-- A top byte of 0x80 moves the exponent to 33; the expanded target is still
above that of 0x7f and bounds the hash. -/
theorem compactTarget_roundsDown_top :
    (calculateCompactRepFromFullRep (ByteArr.fill 32 0x80)).toList = [0x80, 0x80, 0x00, 33] ∧
    (expanded (ByteArr.fill 32 0x7f)).val ≤ (expanded (ByteArr.fill 32 0x80)).val ∧
    verifyHashVsTarget (ByteArr.fill 32 0x7f) (ByteArr.fill 32 0x80) = true := by
  obtain ⟨-, -, hmono, -, hmeets⟩ := compactTarget_roundsDown
  refine ⟨by decide, hmono _ _ (by decide), ?_⟩
  exact hmeets (.ofFullRep (ByteArr.fill 32 0x80)) (ByteArr.fill 32 0x7f) (.ofFullRep _) (by decide)

end DogeConnect
