/-
Keyed hashing and password-based key derivation, over any hash.

    hmac      H(K₁ ‖ H(K₀ ‖ m)), the key brought to one block and masked
    pbkdf2    blocks T₁ ‖ T₂ ‖ …, each the exclusive or of an iterated keyed hash

The hash is a parameter; nothing is assumed of it but its output length, and
that only where blocks are counted.
-/
import Mathlib.Data.List.Basic
import Mathlib.Logic.Function.Iterate

namespace Kdf

def xorBytes (a b : List UInt8) : List UInt8 := List.zipWith (· ^^^ ·) a b

@[simp] theorem length_xorBytes (a b : List UInt8) :
    (xorBytes a b).length = min a.length b.length := List.length_zipWith

/-! ## The keyed hash -/

variable (hash : List UInt8 → List UInt8) (blockLen : Nat)

/-- A key that is too long is hashed first. -/
def shortKey (key : List UInt8) : List UInt8 := if blockLen < key.length then hash key else key

/-- The key filled up to one block and masked with one byte. -/
def maskedKey (mask : UInt8) (key : List UInt8) : List UInt8 :=
  (key ++ List.replicate (blockLen - key.length) 0).map (mask ^^^ ·)

def hmac (key msg : List UInt8) : List UInt8 :=
  hash (maskedKey blockLen 0x5c (shortKey hash blockLen key)
    ++ hash (maskedKey blockLen 0x36 (shortKey hash blockLen key) ++ msg))

theorem length_maskedKey {blockLen : Nat} (mask : UInt8) {key : List UInt8}
    (h : key.length ≤ blockLen) : (maskedKey blockLen mask key).length = blockLen := by
  rw [maskedKey, List.length_map, List.length_append, List.length_replicate]
  omega

/-! ## The derivation -/

variable (prf : List UInt8 → List UInt8)

/-- `u`, `prf u`, `prf (prf u)`, … combined, `n` steps beyond the first. -/
def chain (u : List UInt8) : Nat → List UInt8
  | 0 => u
  | n + 1 => xorBytes (chain u n) (prf^[n + 1] u)

/-- The block of an index; `c` counts the first value of the chain too. -/
def derivedBlock (index : Nat → List UInt8) (salt : List UInt8) (c i : Nat) : List UInt8 :=
  chain prf (prf (salt ++ index i)) (c - 1)

/-- The first `n` blocks, counted from one. -/
def derivedBlocks (index : Nat → List UInt8) (salt : List UInt8) (c n : Nat) : List UInt8 :=
  (List.range n).flatMap fun i => derivedBlock prf index salt c (i + 1)

/-- As many blocks as the length asks for, the last one cut. -/
def pbkdf2 (index : Nat → List UInt8) (hashLen : Nat) (salt : List UInt8) (c dkLen : Nat) :
    List UInt8 :=
  (derivedBlocks prf index salt c ((dkLen + hashLen - 1) / hashLen)).take dkLen

variable {prf} {index : Nat → List UInt8} {salt : List UInt8} {c hashLen : Nat}

theorem derivedBlocks_succ (n : Nat) :
    derivedBlocks prf index salt c (n + 1)
      = derivedBlocks prf index salt c n ++ derivedBlock prf index salt c (n + 1) := by
  rw [derivedBlocks, List.range_succ, List.flatMap_append, List.flatMap_singleton, derivedBlocks]

theorem length_derivedBlock (index : Nat → List UInt8) (salt : List UInt8) (c : Nat)
    (hprf : ∀ m, (prf m).length = hashLen) (i : Nat) :
    (derivedBlock prf index salt c i).length = hashLen := by
  rw [derivedBlock]
  induction c - 1 with
  | zero => exact hprf _
  | succ n ih =>
      rw [chain, length_xorBytes, ih, Function.iterate_succ_apply', hprf, Nat.min_self]

theorem length_derivedBlocks (index : Nat → List UInt8) (salt : List UInt8) (c : Nat)
    (hprf : ∀ m, (prf m).length = hashLen) (n : Nat) :
    (derivedBlocks prf index salt c n).length = hashLen * n := by
  induction n with
  | zero => rfl
  | succ n ih =>
      rw [derivedBlocks_succ, List.length_append, ih, length_derivedBlock index salt c hprf, Nat.mul_succ]

theorem length_pbkdf2 (hprf : ∀ m, (prf m).length = hashLen) (hpos : 0 < hashLen) (dkLen : Nat) :
    (pbkdf2 prf index hashLen salt c dkLen).length = dkLen := by
  have hcover : dkLen ≤ hashLen * ((dkLen + hashLen - 1) / hashLen) := by
    have hdiv := Nat.div_add_mod (dkLen + hashLen - 1) hashLen
    have hmod := Nat.mod_lt (dkLen + hashLen - 1) hpos
    omega
  rw [pbkdf2, List.length_take, length_derivedBlocks index salt c hprf, Nat.min_eq_left hcover]

end Kdf
