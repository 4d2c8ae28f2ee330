/-
SHA-256, as the standard describes it.

The message is padded to complete blocks of 64 bytes and absorbed by a
compression function that shifts eight words down a register.  The constants
are the first 32 bits of the fractional parts of square roots (initial value)
and cube roots (rounds) of the first primes, and are computed so.

    primes      the primes below 312, in order (`mem_primes`, `primes_sorted`)
    compress    schedule, sixty-four rounds, feed forward
    hash        absorb the padded message, write the words out
-/
import DogeConnect.Lib.Absorb
import Mathlib.Data.Nat.NthRoot.Defs
import Mathlib.Data.Nat.Prime.Defs
import Mathlib.Data.Nat.Digits.Lemmas
import Mathlib.Tactic.Ring

namespace Sha2

/-! ## Words -/

/-- The word that four bytes stand for, most significant first. -/
def word (bs : List UInt8) : UInt32 := UInt32.ofNat (Nat.ofDigits 256 (bs.reverse.map UInt8.toNat))

/-- The four bytes of a word, most significant first. -/
def wordBytes (w : UInt32) : List UInt8 :=
  [(w >>> 24).toUInt8, (w >>> 16).toUInt8, (w >>> 8).toUInt8, w.toUInt8]

@[simp] theorem length_wordBytes (w : UInt32) : (wordBytes w).length = 4 := rfl

/-- The eight bytes of a message length in bits, most significant first. -/
def lengthBytes (bits : Nat) : List UInt8 :=
  wordBytes (UInt32.ofNat (bits / 2 ^ 32)) ++ wordBytes (UInt32.ofNat bits)

@[simp] theorem length_lengthBytes (bits : Nat) : (lengthBytes bits).length = 8 := rfl

def rotr (n : Nat) (x : UInt32) : UInt32 := ⟨x.toBitVec.rotateRight n⟩

/-! ## The functions of a round -/

def ch (x y z : UInt32) : UInt32 := (x &&& y) ^^^ (~~~x &&& z)

def maj (x y z : UInt32) : UInt32 := (x &&& y) ^^^ (x &&& z) ^^^ (y &&& z)

def bigSigma0 (x : UInt32) : UInt32 := rotr 2 x ^^^ rotr 13 x ^^^ rotr 22 x

def bigSigma1 (x : UInt32) : UInt32 := rotr 6 x ^^^ rotr 11 x ^^^ rotr 25 x

def sigma0 (x : UInt32) : UInt32 := rotr 7 x ^^^ rotr 18 x ^^^ (x >>> 3)

def sigma1 (x : UInt32) : UInt32 := rotr 17 x ^^^ rotr 19 x ^^^ (x >>> 10)

/-! ## The constants -/

/-- The first 32 bits of the fractional part of the `n`-th root of a number. -/
@[irreducible] def rootBits (n p : Nat) : UInt32 := UInt32.ofNat (Nat.nthRoot n (p * 2 ^ (32 * n)))

/-- The primes the constants come from. -/
def primes : List Nat :=
  [2, 3, 5, 7, 11, 13, 17, 19, 23, 29, 31, 37, 41, 43, 47, 53, 59, 61, 67, 71, 73, 79, 83, 89, 97,
    101, 103, 107, 109, 113, 127, 131, 137, 139, 149, 151, 157, 163, 167, 173, 179, 181, 191, 193,
    197, 199, 211, 223, 227, 229, 233, 239, 241, 251, 257, 263, 269, 271, 277, 281, 283, 293, 307,
    311]

theorem primes_sorted : primes.Pairwise (· < ·) := by
  decide

theorem mem_primes_sieve :
    ∀ n < 312, n ∈ primes ↔ 2 ≤ n ∧ ∀ m < 18, 2 ≤ m → m < n → ¬ m ∣ n := by
  decide +kernel

theorem mem_primes {n : Nat} (h : n < 312) : n ∈ primes ↔ Nat.Prime n := by
  have hsqrt : Nat.sqrt n < 18 := Nat.sqrt_lt.mpr (by omega)
  rw [mem_primes_sieve n h, Nat.prime_def_le_sqrt]
  refine and_congr_right fun hn => ⟨fun hall m hm hle => ?_, fun hall m hlt hm hmn hdvd => ?_⟩
  · have hself : Nat.sqrt n < n := Nat.sqrt_lt_self (by omega)
    exact hall m (by omega) hm (by omega)
  · -- of a factor and its cofactor the smaller one is below the square root
    obtain ⟨k, rfl⟩ := hdvd
    rcases Nat.le_total m k with hmk | hmk
    · exact hall m hm (Nat.le_sqrt.mpr (Nat.mul_le_mul_left m hmk)) (Nat.dvd_mul_right m k)
    · have hk : 2 ≤ k := by
        rcases k with _ | _ | k
        · omega
        · omega
        · omega
      exact hall k hk (Nat.le_sqrt.mpr (Nat.mul_le_mul_right k hmk)) (Nat.dvd_mul_left k m)

def roundConst (t : Nat) : UInt32 := rootBits 3 (primes.getD t 0)

def initConst (i : Nat) : UInt32 := rootBits 2 (primes.getD i 0)

/-! ## The compression function -/

/-- The working variables, and a chaining value. -/
@[ext] structure Vars where
  a : UInt32
  b : UInt32
  c : UInt32
  d : UInt32
  e : UInt32
  f : UInt32
  g : UInt32
  h : UInt32
  deriving DecidableEq

def Vars.add (v w : Vars) : Vars :=
  ⟨v.a + w.a, v.b + w.b, v.c + w.c, v.d + w.d, v.e + w.e, v.f + w.f, v.g + w.g, v.h + w.h⟩

def Vars.toList (v : Vars) : List UInt32 := [v.a, v.b, v.c, v.d, v.e, v.f, v.g, v.h]

/-- The initial chaining value. -/
def init : Vars :=
  ⟨initConst 0, initConst 1, initConst 2, initConst 3, initConst 4, initConst 5, initConst 6,
    initConst 7⟩

/-- One round: everything moves down a place, two places get something new. -/
def round (k w : UInt32) (v : Vars) : Vars :=
  let t1 := v.h + bigSigma1 v.e + ch v.e v.f v.g + k + w
  let t2 := bigSigma0 v.a + maj v.a v.b v.c
  ⟨t1 + t2, v.a, v.b, v.c, v.d + t1, v.e, v.f, v.g⟩

/-- The first sixteen words are the block, the others come from earlier ones. -/
def schedule (block : List UInt8) (t : Nat) : UInt32 :=
  if t < 16 then word ((block.drop (4 * t)).take 4)
  else sigma1 (schedule block (t - 2)) + schedule block (t - 7) + sigma0 (schedule block (t - 15))
    + schedule block (t - 16)
termination_by t

/-- The working variables before round `t`. -/
def rounds (block : List UInt8) (v : Vars) : Nat → Vars
  | 0 => v
  | t + 1 => round (roundConst t) (schedule block t) (rounds block v t)

def compress (v : Vars) (block : List UInt8) : Vars := v.add (rounds block v 64)

theorem schedule_of_lt {block : List UInt8} {t : Nat} (h : t < 16) :
    schedule block t = word ((block.drop (4 * t)).take 4) := by
  rw [schedule, if_pos h]

theorem schedule_of_le {block : List UInt8} {t : Nat} (h : 16 ≤ t) :
    schedule block t = sigma1 (schedule block (t - 2)) + schedule block (t - 7)
      + sigma0 (schedule block (t - 15)) + schedule block (t - 16) := by
  rw [schedule, if_neg (by omega)]

theorem schedule_take (block : List UInt8) (t : Nat) :
    schedule (block.take 64) t = schedule block t := by
  induction t using Nat.strongRecOn with
  | ind t ih =>
      rcases Nat.lt_or_ge t 16 with ht | ht
      · rw [schedule_of_lt ht, schedule_of_lt ht, List.drop_take, List.take_take,
          Nat.min_eq_left (by omega)]
      · rw [schedule_of_le ht, schedule_of_le ht, ih _ (by omega), ih _ (by omega),
          ih _ (by omega), ih _ (by omega)]

theorem compress_take (v : Vars) (block : List UInt8) :
    compress v (block.take 64) = compress v block := by
  have hrounds (t : Nat) : rounds (block.take 64) v t = rounds block v t := by
    induction t with
    | zero => rfl
    | succ t ih => rw [rounds, rounds, ih, schedule_take]
  rw [compress, compress, hrounds]

/-! ## The hash -/

/-- The zero bytes that bring a message, its end mark and its length to
complete blocks; the fewest that do. -/
def zeros (len : Nat) : Nat := (119 - len % 64) % 64

def padding (len : Nat) : List UInt8 :=
  0x80 :: List.replicate (zeros len) 0 ++ lengthBytes (8 * len)

/-- The state after the complete blocks of a message. -/
def state (msg : List UInt8) : Vars := Absorb.absorb 64 compress init msg

def hash (msg : List UInt8) : List UInt8 :=
  (state (msg ++ padding msg.length)).toList.flatMap wordBytes

@[simp] theorem length_hash (msg : List UInt8) : (hash msg).length = 32 := rfl

end Sha2
