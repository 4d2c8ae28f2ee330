/-
`difficulty.cpp` and `difficulty.h`: targets as 256-bit numbers.

A target is a 32-byte little-endian array.  `divideTarget` reads it as four
64-bit words and divides by a 64-bit difficulty, most significant word first,
through 128-bit intermediates.  What makes the truncating cast of the quotient
(and `_udiv128` on the other compiler) safe is the loop invariant that the
remainder in hand stays below the divisor; it comes from the general fact about
long division, `Digits.longDiv_rounds`.

    (divideTarget T D).val = T.val / D                                (`divideTarget_val`)
    verifyHashVsTarget h (divideTarget T D)  ↔  h.val * D ≤ T.val     (`verifyHash_divideTarget`)
-/
import DogeConnect.HashUtil

namespace DogeConnect

open Digits

/-! ## The compact representation -/

/-- `compactRep[0..2]` is the mantissa, `compactRep[3]` the exponent; mantissa
byte `i` lands at index `exponent - 3 + i` if that is inside the array. -/
def calculateFullRepFromCompactRep (compactRep : ByteArr 4) : ByteArr 32 :=
  let start_index : Int := (compactRep.byte 3).toNat - 3
  (List.range 3).foldl (fun fullRep (i : Nat) =>
    let target_idx := start_index + i
    if 0 ≤ target_idx ∧ target_idx < 32 then fullRep.set target_idx.toNat (compactRep.byte i)
    else fullRep) (ByteArr.fill 32 0)

/-- Index of the most significant non-zero byte below `k`, plus one; 0 if none. -/
def exponentFrom (fullRep : ByteArr 32) : Nat → Nat
  | 0 => 0
  | i + 1 => if fullRep.byte i ≠ 0 then i + 1 else exponentFrom fullRep i

def calculateCompactRepFromFullRep (fullRep : ByteArr 32) : ByteArr 4 :=
  let at' (i : Nat) : Nat := (fullRep.byte i).toNat
  let exponent := exponentFrom fullRep 32
  let (mantissa, exponent) :=
    if exponent ≤ 3 then (at' 0 ||| (at' 1 <<< 8) ||| (at' 2 <<< 16), 3)
    else (at' (exponent - 3) ||| (at' (exponent - 2) <<< 8) ||| (at' (exponent - 1) <<< 16), exponent)
  -- the high mantissa bit would be read as a sign
  let (mantissa, exponent) :=
    if mantissa &&& 0x00800000 ≠ 0 then (mantissa >>> 8, exponent + 1) else (mantissa, exponent)
  ⟨[UInt8.ofNat (mantissa &&& 0xFF), UInt8.ofNat ((mantissa >>> 8) &&& 0xFF),
    UInt8.ofNat ((mantissa >>> 16) &&& 0xFF), UInt8.ofNat exponent], rfl⟩

/-! ## `divideTarget` -/

/-- `words[i]`: bytes `8 i` to `8 i + 7`, or-ed together. -/
def targetWord (baseTarget : ByteArr 32) (i : Nat) : Nat :=
  (List.range 8).foldl (fun w j => w ||| ((baseTarget.byte (i * 8 + j)).toNat <<< (8 * j))) 0

/-- The division loop over words given most significant first, each round
recorded: the remainder on entry, the 128-bit dividend, the quotient after the
cast to 64 bits and the remainder carried on. -/
def divideLoop (difficulty : Nat) : Nat → List Nat → List DivRound
  | _, [] => []
  | remainder, word :: words =>
      let current := (remainder <<< 64) ||| word
      let next := current % difficulty % 2 ^ 64
      ⟨remainder, current, current / difficulty % 2 ^ 64, next⟩ :: divideLoop difficulty next words

/-- The four rounds, for `i = 3` down to `0`. -/
def divideRounds (baseTarget : ByteArr 32) (difficulty : UInt64) : List DivRound :=
  divideLoop difficulty.toNat 0 ((List.range 4).map (targetWord baseTarget)).reverse

/-- The bytes of a result word, least significant first. -/
def wordToBytes (w : Nat) : List UInt8 :=
  (List.range 8).map fun j => UInt8.ofNat ((w >>> (8 * j)) &&& 0xFF)

theorem divideLoop_length (d : Nat) : ∀ (r : Nat) (ws : List Nat),
    (divideLoop d r ws).length = ws.length
  | _, [] => rfl
  | r, w :: ws => by simp [divideLoop, divideLoop_length d _ ws]

theorem flatMap_wordToBytes_length (ws : List Nat) :
    (ws.flatMap wordToBytes).length = 8 * ws.length := by
  induction ws with
  | nil => rfl
  | cons w ws ih => simp only [List.flatMap_cons, List.length_append, ih, wordToBytes,
      List.length_map, List.length_range, List.length_cons]; omega

def divideTarget (baseTarget : ByteArr 32) (difficulty : UInt64) : ByteArr 32 :=
  if difficulty ≤ 1 then baseTarget
  else
    let resultWords := ((divideRounds baseTarget difficulty).map DivRound.quotient).reverse
    ⟨resultWords.flatMap wordToBytes, by
      rw [flatMap_wordToBytes_length]
      simp [resultWords, divideRounds, divideLoop_length]⟩

/-! ### Words and bytes -/

theorem wordToBytes_eq (w : Nat) : wordToBytes w = leBytes 8 w := by
  have hmask : ∀ v : Nat, UInt8.ofNat (v &&& 255) = UInt8.ofNat v := by
    intro v
    apply UInt8.toNat_inj.mp
    rw [UInt8.toNat_ofNat', UInt8.toNat_ofNat', show (255 : Nat) = 2 ^ 8 - 1 by rfl,
      Nat.and_two_pow_sub_one_eq_mod, Nat.mod_mod]
  simp [wordToBytes, List.range, List.range.loop, hmask, leBytes, Nat.shiftRight_eq_div_pow,
    Nat.div_div_eq_div_mul]

theorem leVal_wordToBytes {w : Nat} (h : w < 2 ^ 64) : leVal (wordToBytes w) = w := by
  rw [wordToBytes_eq, leVal_leBytes_of_lt]
  exact lt_of_lt_of_le h (by decide)

theorem leVal_flatMap_wordToBytes : ∀ {ws : List Nat}, (∀ w ∈ ws, w < 2 ^ 64) →
    leVal (ws.flatMap wordToBytes) = Nat.ofDigits (2 ^ 64) ws
  | [], _ => rfl
  | w :: ws, h => by
      have hlen : (wordToBytes w).length = 8 := by simp [wordToBytes]
      rw [List.flatMap_cons, leVal_append, hlen, Nat.ofDigits_cons,
        leVal_wordToBytes (h w List.mem_cons_self),
        leVal_flatMap_wordToBytes (fun v hv => h v (List.mem_cons_of_mem _ hv))]
      simp

theorem targetWord_eq (T : ByteArr 32) (i : Nat) :
    targetWord T i = leVal ((T.toList.drop (8 * i)).take 8) := by
  have hbyte : ∀ j, (T.byte (i * 8 + j)).toNat
      = ((T.toList.drop (8 * i)).map UInt8.toNat).getD j 0 := by
    intro j
    simp only [ByteArr.byte, List.getD_eq_getElem?_getD, List.getElem?_map, List.getElem?_drop,
      Nat.mul_comm i 8]
    cases T.toList[8 * i + j]? <;> rfl
  simp only [targetWord, hbyte]
  rw [foldl_or_digits 8 _ (digits_lt _) 8, ← List.map_take]
  rfl

/-- Cutting a byte list into 8-byte words does not change its value. -/
theorem ofDigits_words (bs : List UInt8) : ∀ k, 8 * k ≤ bs.length →
    Nat.ofDigits (2 ^ 64) ((List.range k).map fun i => leVal ((bs.drop (8 * i)).take 8))
      = leVal (bs.take (8 * k))
  | 0, _ => by simp
  | k + 1, hk => by
      have hlen : (bs.take (8 * k)).length = 8 * k := by simp; omega
      rw [List.range_succ, List.map_append, Nat.ofDigits_append, ofDigits_words bs k (by omega),
        Nat.mul_succ, List.take_add, leVal_append, hlen]
      simp [pow_mul]

theorem targetWords_val (T : ByteArr 32) :
    Nat.ofDigits (2 ^ 64) ((List.range 4).map (targetWord T)) = T.val := by
  have h : targetWord T = fun i => leVal ((T.toList.drop (8 * i)).take 8) :=
    funext (targetWord_eq T)
  rw [h, ofDigits_words T.toList 4 (by simp), List.take_of_length_le (by simp)]
  rfl

theorem targetWord_lt (T : ByteArr 32) (i : Nat) : targetWord T i < 2 ^ 64 := by
  rw [targetWord_eq]
  calc leVal ((T.toList.drop (8 * i)).take 8)
      < 256 ^ ((T.toList.drop (8 * i)).take 8).length := leVal_lt _
    _ ≤ 256 ^ 8 := Nat.pow_le_pow_right (by decide) (by simp)
    _ = 2 ^ 64 := by decide

theorem targetWords_lt (T : ByteArr 32) :
    ∀ w ∈ ((List.range 4).map (targetWord T)).reverse, w < 2 ^ 64 := by
  intro w hw
  obtain ⟨i, -, rfl⟩ := List.mem_map.mp (List.mem_reverse.mp hw)
  exact targetWord_lt T i

/-! ### The loop is long division -/

/-- While the remainder is below the divisor, neither cast loses a bit and the
loop is long division at radix `2 ^ 64`. -/
theorem divideLoop_eq {d : Nat} (hd : 0 < d) (hd64 : d < 2 ^ 64) : ∀ (ws : List Nat) {r : Nat},
    r < d → (∀ w ∈ ws, w < 2 ^ 64) → divideLoop d r ws = longDiv (2 ^ 64) d r ws
  | [], _, _, _ => rfl
  | w :: ws, r, hr, hw => by
      have hw64 : w < 2 ^ 64 := hw w List.mem_cons_self
      have hcur : (r <<< 64) ||| w = r * 2 ^ 64 + w := by
        rw [Nat.lor_comm, or_shiftLeft_of_lt hw64, Nat.add_comm]
      have hround := longDiv_rounds (B := 2 ^ 64) (w :: ws) hd hr hw _ List.mem_cons_self
      have hquot : (r * 2 ^ 64 + w) / d % 2 ^ 64 = (r * 2 ^ 64 + w) / d :=
        Nat.mod_eq_of_lt hround.2
      have hnext : (r * 2 ^ 64 + w) % d < d := Nat.mod_lt _ hd
      have hcast : (r * 2 ^ 64 + w) % d % 2 ^ 64 = (r * 2 ^ 64 + w) % d :=
        Nat.mod_eq_of_lt (hnext.trans hd64)
      simp only [divideLoop, longDiv, hcur, hquot, hcast]
      rw [divideLoop_eq hd hd64 ws hnext (fun v hv => hw v (List.mem_cons_of_mem _ hv))]

theorem divideRounds_eq (T : ByteArr 32) {D : UInt64} (hD : 0 < D.toNat) :
    divideRounds T D
      = longDiv (2 ^ 64) D.toNat 0 ((List.range 4).map (targetWord T)).reverse :=
  divideLoop_eq hD D.toNat_lt _ hD (targetWords_lt T)

/-- In each of the four rounds the remainder is below the divisor and the
128-by-64-bit quotient fits in 64 bits. -/
theorem divideRounds_fit (T : ByteArr 32) {D : UInt64} (hD : 0 < D.toNat) :
    ∀ s ∈ divideRounds T D, s.remainder < D.toNat ∧ s.current / D.toNat < 2 ^ 64 := by
  rw [divideRounds_eq T hD]
  exact longDiv_rounds _ hD hD (targetWords_lt T)

/-- `divideTarget` is the floor of the quotient. -/
theorem divideTarget_val (T : ByteArr 32) {D : UInt64} (hD : 0 < D.toNat) :
    (divideTarget T D).val = T.val / D.toNat := by
  unfold divideTarget
  split_ifs with h1
  · -- only `D = 1` is left of the early return
    have : D.toNat = 1 := by
      have := UInt64.le_iff_toNat_le.mp h1
      simp at this
      omega
    rw [this, Nat.div_one]
  · have hq : ∀ q ∈ ((divideRounds T D).map DivRound.quotient).reverse, q < 2 ^ 64 := by
      intro q hq
      obtain ⟨s, hs, rfl⟩ := List.mem_map.mp (List.mem_reverse.mp hq)
      have hfit := divideRounds_fit T hD s hs
      rw [divideRounds_eq T hD] at hs
      rw [longDiv_quotient hs]
      exact hfit.2
    simp only [ByteArr.val]
    rw [leVal_flatMap_wordToBytes hq, ← horner_reverse, List.reverse_reverse, divideRounds_eq T hD,
      longDiv_spec hD, horner_reverse, targetWords_val]
    rfl

/-! ### The difficulty check -/

/-- The check at a divided target is exact, the division never leaves 64 bits,
and difficulty 0 gives the base target itself. -/
theorem verifyHash_divideTarget (T : ByteArr 32) (D : UInt64) (h : ByteArr 32) :
    (1 ≤ D.toNat →
      (verifyHashVsTarget h (divideTarget T D) = true ↔ h.val * D.toNat ≤ T.val) ∧
      (divideTarget T D).val = T.val / D.toNat ∧
      ∀ s ∈ divideRounds T D, s.remainder < D.toNat ∧ s.current / D.toNat < 2 ^ 64) ∧
    divideTarget T 0 = T := by
  refine ⟨fun hD => ⟨?_, divideTarget_val T hD, divideRounds_fit T hD⟩, rfl⟩
  rw [verifyHashVsTarget_iff, divideTarget_val T hD]
  exact Nat.le_div_iff_mul_le hD

/-- At difficulty 3 the third of the largest target passes, exactly. -/
theorem verifyHash_divideTarget_third :
    verifyHashVsTarget (ByteArr.fill 32 0x55) (divideTarget (ByteArr.fill 32 0xff) 3) = true :=
  ((verifyHash_divideTarget (ByteArr.fill 32 0xff) 3 (ByteArr.fill 32 0x55)).1 (by decide)).1.mpr
    (by decide)

/-! ## `DifficultyTarget` -/

/-- The class of `difficulty.h`: a target in both representations. -/
structure DifficultyTarget where
  compactRep : ByteArr 4
  fullRep : ByteArr 32
  deriving DecidableEq, Repr

namespace DifficultyTarget

/-- Constructor from the compact representation. -/
def ofCompactRep (compactRep : ByteArr 4) : DifficultyTarget :=
  ⟨compactRep, calculateFullRepFromCompactRep compactRep⟩

/-- Constructor from the full representation. -/
def ofFullRep (fullRep : ByteArr 32) : DifficultyTarget :=
  ⟨calculateCompactRepFromFullRep fullRep, fullRep⟩

end DifficultyTarget

/-- `poolBaseDifficulty` of `dispatcher.cpp`: 0x1f00ffff. -/
def poolBaseDifficulty : DifficultyTarget :=
  .ofCompactRep ⟨[0xff, 0xff, 0x00, 0x1f], rfl⟩

end DogeConnect
