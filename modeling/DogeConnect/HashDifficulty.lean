/-
`hashDifficulty` of `share_valid_thread.cpp`: the difficulty reported in the log.

The function divides the top eight bytes of the base target by the top eight
bytes of the hash and scales the quotient by 256 for each byte the hash is
shorter.  Its constant for the base target starts with a zero byte, though the
hash is read from its first byte that is not zero:

    hashTop_lower             the top of a hash is at least 2^56
    hashDifficulty_eq_zero    so the quotient is 0, and with it the result
    hashDifficulty_approximates_iff   only where 0 is meant is 0 right
-/
import DogeConnect.Difficulty
import DogeConnect.CompactTarget

namespace DogeConnect

/-! ## The code -/

/-- `baseMsb`, the position of the base target's most significant byte. -/
def baseMsb : Int := 29

def UINT64_MAX : UInt64 := 0xFFFFFFFFFFFFFFFF

/-- Index of the most significant byte that is not zero; -1 if there is none. -/
def hashMsb (hash : ByteArr 32) : Int := exponentFrom hash 32 - 1

/-- A byte of the hash, 0 below its end. -/
def hashByte (hash : ByteArr 32) (idx : Int) : UInt8 := if 0 ≤ idx then hash.byte idx.toNat else 0

def pushByte (top : UInt64) (b : UInt8) : UInt64 := (top <<< 8) ||| b.toUInt64

/-- The top eight bytes of the hash from its MSB. -/
def hashTop (hash : ByteArr 32) (hashMsb : Int) : UInt64 :=
  (List.range 8).foldl (fun top (i : Nat) => pushByte top (hashByte hash (hashMsb - i))) 0

/-- The multiplications by 256, with their overflow guard. -/
def scaleDiff : Nat → UInt64 → UInt64
  | 0, diff => diff
  | i + 1, diff => if diff > UINT64_MAX / 256 then UINT64_MAX else scaleDiff i (diff * 256)

/-- "Base target top 8 bytes from MSB". -/
def baseTop : UInt64 := 0x00FFFF0000000000

def hashDifficulty (hash : ByteArr 32) : UInt64 :=
  let hashMsb := hashMsb hash
  if hashMsb < 0 then 0
  else if hashMsb > baseMsb then 0
  else
    let hashTop := hashTop hash hashMsb
    if hashTop = 0 then 0
    else
      let byteShift := baseMsb - hashMsb
      if byteShift > 0 then scaleDiff byteShift.toNat (baseTop / hashTop) else baseTop / hashTop

/-! ## The top of the hash -/

theorem pushByte_toNat {top : UInt64} (b : UInt8) (h : top.toNat < 2 ^ 56) :
    (pushByte top b).toNat = top.toNat * 256 + b.toNat := by
  have hb : b.toNat < 2 ^ 8 := b.toNat_lt
  rw [pushByte, UInt64.toNat_or, UInt64.toNat_shiftLeft, UInt8.toNat_toUInt64,
    show (8 : UInt64).toNat % 64 = 8 from rfl, Nat.shiftLeft_eq, Nat.mod_eq_of_lt (by omega),
    Nat.lor_comm, ← Nat.shiftLeft_eq, Digits.or_shiftLeft_of_lt hb]
  omega

theorem foldl_pushByte_lower (f : Nat → UInt8) (is : List Nat) (top : UInt64)
    (h : (top.toNat + 1) * 256 ^ is.length ≤ 2 ^ 64) :
    top.toNat * 256 ^ is.length ≤ (is.foldl (fun top i => pushByte top (f i)) top).toNat := by
  induction is generalizing top with
  | nil => simp
  | cons i is ih =>
      have hb : (f i).toNat < 256 := (f i).toNat_lt
      rw [List.length_cons, Nat.pow_succ, ← Nat.mul_assoc, Nat.mul_right_comm] at h
      have hpos : 0 < 256 ^ is.length := Nat.pow_pos (by decide)
      have hroom : (top.toNat + 1) * 256 ≤ 2 ^ 64 :=
        Nat.le_trans (Nat.le_mul_of_pos_right _ hpos) h
      have hnext := pushByte_toNat (f i) (show top.toNat < 2 ^ 56 by omega)
      have hrest := ih (pushByte top (f i)) (by
        rw [hnext]
        exact Nat.le_trans (Nat.mul_le_mul_right _ (by omega)) h)
      rw [hnext] at hrest
      calc top.toNat * 256 ^ (is.length + 1)
          = top.toNat * 256 * 256 ^ is.length := by rw [Nat.pow_succ]; ring
        _ ≤ (top.toNat * 256 + (f i).toNat) * 256 ^ is.length :=
            Nat.mul_le_mul_right _ (Nat.le_add_right _ _)
        _ ≤ _ := hrest

theorem exponentFrom_byte {t : ByteArr 32} {n : Nat} (h : exponentFrom t n ≠ 0) :
    t.byte (exponentFrom t n - 1) ≠ 0 := by
  induction n with
  | zero => exact absurd rfl h
  | succ n ih =>
      rw [exponentFrom] at h ⊢
      split at h
      next hbyte =>
        rw [if_pos hbyte, Nat.add_sub_cancel]
        exact hbyte
      next hbyte =>
        rw [if_neg hbyte]
        exact ih h

theorem hashTop_lower (hash : ByteArr 32) (h : 0 ≤ hashMsb hash) :
    2 ^ 56 ≤ (hashTop hash (hashMsb hash)).toNat := by
  rw [hashMsb] at h ⊢
  have hbyte := exponentFrom_byte (t := hash) (n := 32) (by omega)
  have hpos : 1 ≤ (hash.byte (exponentFrom hash 32 - 1)).toNat :=
    Nat.one_le_iff_ne_zero.mpr fun h0 => hbyte (UInt8.toNat_inj.mp h0)
  have hlt : (hash.byte (exponentFrom hash 32 - 1)).toNat < 256 := UInt8.toNat_lt _
  -- the first of the eight bytes is not zero, the other seven are shifted in below it
  have hfirst : (pushByte 0 (hashByte hash ((exponentFrom hash 32 : Int) - 1 - (0 : Nat)))).toNat
      = (hash.byte (exponentFrom hash 32 - 1)).toNat := by
    rw [pushByte_toNat _ (by decide), hashByte, if_pos (by omega),
      show ((exponentFrom hash 32 : Int) - 1 - (0 : Nat)).toNat = exponentFrom hash 32 - 1 by omega]
    simp
  have hrest := foldl_pushByte_lower
    (fun i => hashByte hash ((exponentFrom hash 32 : Int) - 1 - (i : Nat)))
    [1, 2, 3, 4, 5, 6, 7] (pushByte 0 (hashByte hash ((exponentFrom hash 32 : Int) - 1 - (0 : Nat))))
    (by rw [hfirst]; simp only [List.length_cons, List.length_nil]; omega)
  rw [hfirst] at hrest
  refine Nat.le_trans ?_ hrest
  simp only [List.length_cons, List.length_nil]
  omega

/-! ## The result -/

theorem scaleDiff_zero (n : Nat) : scaleDiff n 0 = 0 := by
  induction n with
  | zero => rfl
  | succ n ih => exact ih

theorem hashDifficulty_eq_zero (hash : ByteArr 32) : hashDifficulty hash = 0 := by
  unfold hashDifficulty
  dsimp only
  split
  · rfl
  next hfound =>
    split
    · rfl
    split
    · rfl
    have htop := hashTop_lower hash (by omega)
    have hquotient : baseTop / hashTop hash (hashMsb hash) = 0 := by
      rw [← UInt64.toNat_inj, UInt64.toNat_div, Nat.div_eq_of_lt]
      · rfl
      · exact Nat.lt_of_lt_of_le (by decide) htop
    rw [hquotient, scaleDiff_zero, ite_self]

/-- The base target, `0xffff * 2^224`. -/
def scryptBase : Nat := 0xffff * 2 ^ 224

/-- What the difficulty of a hash is to be: 0 for a zero hash and for one above
the base target, else the quotient up to a factor of 2, capped at 2^64 - 1. -/
def Approximates (hash : ByteArr 32) (difficulty : Nat) : Prop :=
  if hash.val = 0 ∨ scryptBase < hash.val then difficulty = 0
  else
    1 ≤ difficulty ∧
    min (scryptBase / (2 * hash.val)) (2 ^ 64 - 1) ≤ difficulty ∧
    difficulty ≤ min ((2 * scryptBase + hash.val - 1) / hash.val) (2 ^ 64 - 1)

/-- The reported difficulty is right only where it is to be 0. -/
theorem hashDifficulty_approximates_iff (hash : ByteArr 32) :
    Approximates hash (hashDifficulty hash).toNat ↔ hash.val = 0 ∨ scryptBase < hash.val := by
  rw [hashDifficulty_eq_zero, Approximates]
  split
  next hzero => exact iff_of_true rfl hzero
  next hpositive => exact iff_of_false (fun h => absurd h.1 (by decide)) hpositive

/-- The base target as a hash, whose difficulty is to be 1 or 2. -/
def baseHash : ByteArr 32 := ((ByteArr.fill 32 0).set 28 0xff).set 29 0xff

theorem baseHash_not_approximated :
    ¬ ∀ hash : ByteArr 32, Approximates hash (hashDifficulty hash).toNat := by
  intro hall
  have hbase := hall baseHash
  rw [hashDifficulty_eq_zero, Approximates, if_neg (by decide)] at hbase
  exact absurd hbase.1 (by decide)

end DogeConnect
