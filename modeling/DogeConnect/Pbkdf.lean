/-
`scrypt.c`, the key derivation: `HMAC_SHA256_*` and `PBKDF2_SHA256`.

A keyed context is two digest contexts, the inner one behind the key masked
with 0x36 and the outer one behind the key masked with 0x5c.  The derivation
keeps the context behind password and salt and copies it for every block.

    Keyed                   what a keyed context holds after a message
    HMAC_SHA256_of_pieces   the keyed hash of any number of updates
    PBKDF2_SHA256_eq        the buffer is `Kdf.pbkdf2`, for every length and count
-/
import DogeConnect.Sha256
import DogeConnect.Lib.Kdf

namespace DogeConnect.Scrypt

/-! ## The keyed hash -/

structure HMAC_SHA256_CTX where
  ictx : SHA256_CTX
  octx : SHA256_CTX

/-- What `SHA256_Final` leaves of a context. -/
def SHA256_CTX.cleared : SHA256_CTX := ⟨.replicate 8 0, (0, 0), .fill 64 0⟩

/-- `memset(pad, mask, 64)` and the loop over the key. -/
def maskKey (mask : UInt8) (K : List UInt8) : Vector UInt8 64 :=
  Loop.run (fun i pad => pad.set! i (pad[i]! ^^^ K.getD i 0)) 0 1 K.length (.replicate 64 mask)

def HMAC_SHA256_Init (ctx : HMAC_SHA256_CTX) (K : List UInt8) : HMAC_SHA256_CTX :=
  let (K, ictx) := if 64 < K.length then (SHA256 ctx.ictx [K], .cleared) else (K, ctx.ictx)
  { ictx := SHA256_Update (SHA256_Init ictx) (maskKey 0x36 K).toList
    octx := SHA256_Update (SHA256_Init ctx.octx) (maskKey 0x5c K).toList }

def HMAC_SHA256_Update (ctx : HMAC_SHA256_CTX) (src : List UInt8) : HMAC_SHA256_CTX :=
  { ctx with ictx := SHA256_Update ctx.ictx src }

def HMAC_SHA256_Final (ctx : HMAC_SHA256_CTX) : List UInt8 :=
  SHA256_Final (SHA256_Update ctx.octx (SHA256_Final ctx.ictx))

/-- Both contexts are cleared by the finalization. -/
def HMAC_SHA256_CTX.cleared : HMAC_SHA256_CTX := ⟨.cleared, .cleared⟩

/-- HMAC-SHA256. -/
def hmac (K m : List UInt8) : List UInt8 := Kdf.hmac Sha2.hash 64 K m

@[simp] theorem length_hmac (K m : List UInt8) : (hmac K m).length = 32 := Sha2.length_hash _

theorem maskKey_eq (mask : UInt8) {K : List UInt8} (h : K.length ≤ 64) :
    (maskKey mask K).toList = Kdf.maskedKey 64 mask K := by
  apply List.ext_getElem
  · rw [Vector.length_toList, Kdf.length_maskedKey mask h]
  · intro i hi hi'
    rw [Vector.length_toList] at hi
    have hcell := Loop.get_run_set (fun i x => x ^^^ K.getD i 0) (.replicate 64 mask) i h
    have hinit : (Vector.replicate 64 mask)[i]! = mask := by
      rw [getElem!_pos _ i hi, Vector.getElem_replicate]
    rw [hinit] at hcell
    rw [Vector.getElem_toList, ← getElem!_pos _ i hi, maskKey, hcell]
    simp only [Kdf.maskedKey, List.getElem_map]
    split
    · next hlt => rw [List.getElem_append_left hlt, List.getD_eq_getElem _ _ hlt]
    · next hge => rw [List.getElem_append_right (by omega), List.getElem_replicate, UInt8.xor_zero]

/-- A keyed context after a message. -/
structure Keyed (ctx : HMAC_SHA256_CTX) (K m : List UInt8) : Prop where
  inner : Digesting ctx.ictx (Kdf.maskedKey 64 0x36 (Kdf.shortKey Sha2.hash 64 K) ++ m)
  outer : Digesting ctx.octx (Kdf.maskedKey 64 0x5c (Kdf.shortKey Sha2.hash 64 K))

theorem keyed_init (ctx : HMAC_SHA256_CTX) (K : List UInt8) :
    Keyed (HMAC_SHA256_Init ctx K) K [] := by
  have digest (c : SHA256_CTX) : SHA256 c [K] = Sha2.hash K := by
    rw [SHA256, SHA256_Final_eq (digesting_updates (digesting_init c) [K]), List.nil_append,
      List.flatten_singleton]
  have start (c : SHA256_CTX) (mask : UInt8) {key : List UInt8} (h : key.length ≤ 64) :
      Digesting (SHA256_Update (SHA256_Init c) (maskKey mask key).toList)
        (Kdf.maskedKey 64 mask key) := by
    rw [maskKey_eq mask h]
    exact digesting_update (digesting_init c) _
  rw [HMAC_SHA256_Init]
  by_cases hlong : 64 < K.length
  · have hkey : Kdf.shortKey Sha2.hash 64 K = Sha2.hash K := if_pos hlong
    have hlen : (Sha2.hash K).length = 32 := Sha2.length_hash K
    rw [if_pos hlong, digest]
    refine ⟨?_, ?_⟩ <;> rw [hkey] <;> generalize Sha2.hash K = key at hlen
    · rw [List.append_nil]
      exact start .cleared 0x36 (by omega)
    · exact start ctx.octx 0x5c (by omega)
  · rw [if_neg hlong]
    have hkey : Kdf.shortKey Sha2.hash 64 K = K := if_neg hlong
    refine ⟨?_, ?_⟩
    · rw [hkey, List.append_nil]
      exact start ctx.ictx 0x36 (by omega)
    · rw [hkey]
      exact start ctx.octx 0x5c (by omega)

theorem keyed_update {ctx : HMAC_SHA256_CTX} {K m : List UInt8} (h : Keyed ctx K m)
    (src : List UInt8) : Keyed (HMAC_SHA256_Update ctx src) K (m ++ src) where
  inner := by
    rw [← List.append_assoc]
    exact digesting_update h.inner src
  outer := h.outer

theorem keyed_updates {ctx : HMAC_SHA256_CTX} {K m : List UInt8} (h : Keyed ctx K m)
    (pieces : List (List UInt8)) :
    Keyed (pieces.foldl HMAC_SHA256_Update ctx) K (m ++ pieces.flatten) := by
  induction pieces generalizing ctx m with
  | nil => simpa using h
  | cons piece pieces ih =>
      rw [List.foldl_cons, List.flatten_cons, ← List.append_assoc]
      exact ih (keyed_update h piece)

theorem HMAC_SHA256_Final_eq {ctx : HMAC_SHA256_CTX} {K m : List UInt8} (h : Keyed ctx K m) :
    HMAC_SHA256_Final ctx = hmac K m := by
  rw [HMAC_SHA256_Final, SHA256_Final_eq h.inner, SHA256_Final_eq (digesting_update h.outer _),
    hmac, Kdf.hmac]

/-- However the message is cut, and for keys of any length. -/
theorem HMAC_SHA256_of_pieces (ctx : HMAC_SHA256_CTX) (K : List UInt8)
    (pieces : List (List UInt8)) :
    HMAC_SHA256_Final (pieces.foldl HMAC_SHA256_Update (HMAC_SHA256_Init ctx K))
      = hmac K pieces.flatten :=
  HMAC_SHA256_Final_eq (keyed_updates (keyed_init ctx K) pieces)

/-! ## The derivation -/

/-- `hctx`, `U` and `T` in the inner loop. -/
structure InnerLoop where
  hctx : HMAC_SHA256_CTX
  U : List UInt8
  T : List UInt8

def innerTurn (passwd : List UInt8) (s : InnerLoop) : InnerLoop :=
  let hctx := HMAC_SHA256_Init s.hctx passwd
  let hctx := HMAC_SHA256_Update hctx s.U
  let U := HMAC_SHA256_Final hctx
  ⟨.cleared, U, List.zipWith (· ^^^ ·) s.T U⟩

/-- The block of one turn of the outer loop, as `T` holds it. -/
def blockT (PShctx : HMAC_SHA256_CTX) (passwd : List UInt8) (c i : Nat) : List UInt8 :=
  let ivec := be32enc (UInt32.ofNat (i + 1))
  let hctx := HMAC_SHA256_Update PShctx ivec
  let U := HMAC_SHA256_Final hctx
  (Loop.run (fun _ s => innerTurn passwd s) 2 1 (c - 1) ⟨.cleared, U, U⟩).T

/-- The loop over the blocks; `i * 32 < dkLen` holds for as many turns as there
are begun blocks. -/
def outerLoop (PShctx : HMAC_SHA256_CTX) (passwd : List UInt8) (c : Nat) (buf : List UInt8)
    (dkLen : Nat) : List UInt8 :=
  Loop.run (fun i buf =>
      let clen := min (dkLen - i * 32) 32
      Writes.writeAt buf (i * 32, (blockT PShctx passwd c i).take clen))
    0 1 ((dkLen + 31) / 32) buf

/-- `PShctx` is not initialised.  The count is a `uint64_t` there, and the loop over it ends for
every count below 2^64 - 1. -/
def PBKDF2_SHA256 (PShctx : HMAC_SHA256_CTX) (passwd salt : List UInt8) (c : Nat)
    (buf : List UInt8) (dkLen : Nat) : List UInt8 :=
  let PShctx := HMAC_SHA256_Init PShctx passwd
  let PShctx := HMAC_SHA256_Update PShctx salt
  outerLoop PShctx passwd c buf dkLen

/-- The four bytes of a block's index. -/
def blockIndex (i : Nat) : List UInt8 := Sha2.wordBytes (UInt32.ofNat i)

/-- PBKDF2 with HMAC-SHA256. -/
def pbkdf2 (passwd salt : List UInt8) (c dkLen : Nat) : List UInt8 :=
  Kdf.pbkdf2 (hmac passwd) blockIndex 32 salt c dkLen

theorem innerTurn_eq (passwd : List UInt8) (s : InnerLoop) :
    innerTurn passwd s = ⟨.cleared, hmac passwd s.U, Kdf.xorBytes s.T (hmac passwd s.U)⟩ := by
  have hfinal := HMAC_SHA256_Final_eq (keyed_update (keyed_init s.hctx passwd) s.U)
  rw [List.nil_append] at hfinal
  rw [innerTurn, hfinal]
  rfl

theorem blockT_eq {PShctx : HMAC_SHA256_CTX} {passwd salt : List UInt8}
    (h : Keyed PShctx passwd salt) (c i : Nat) :
    blockT PShctx passwd c i = Kdf.derivedBlock (hmac passwd) blockIndex salt c (i + 1) := by
  rw [blockT, HMAC_SHA256_Final_eq (keyed_update h _), be32enc_eq, Kdf.derivedBlock, blockIndex]
  generalize hmac passwd (salt ++ Sha2.wordBytes (UInt32.ofNat (i + 1))) = u
  let P (k : Nat) (s : InnerLoop) : Prop :=
    s.U = (hmac passwd)^[k] u ∧ s.T = Kdf.chain (hmac passwd) u k
  refine (Loop.run_invariant (P := P) ⟨rfl, rfl⟩ ?_).2
  rintro k s - ⟨hU, hT⟩
  rw [innerTurn_eq, hU, hT, ← Function.iterate_succ_apply' (hmac passwd)]
  exact ⟨rfl, rfl⟩

theorem outerLoop_eq {PShctx : HMAC_SHA256_CTX} {passwd salt : List UInt8}
    (h : Keyed PShctx passwd salt) (c : Nat) {buf : List UInt8} {dkLen : Nat}
    (hbuf : buf.length = dkLen) :
    outerLoop PShctx passwd c buf dkLen = pbkdf2 passwd salt c dkLen := by
  have hlen (n : Nat) := Kdf.length_derivedBlocks blockIndex salt c (length_hmac passwd) n
  -- after `k` turns the buffer begins with the first `k` blocks
  let P (k : Nat) (buf : List UInt8) : Prop := buf.length = dkLen ∧
    buf.take (32 * k) = (Kdf.derivedBlocks (hmac passwd) blockIndex salt c k).take dkLen
  have hall : P ((dkLen + 31) / 32) (outerLoop PShctx passwd c buf dkLen) := by
    refine Loop.run_invariant (P := P) ⟨hbuf, by simp [Kdf.derivedBlocks]⟩ ?_
    rintro k b hk ⟨hsize, hfront⟩
    have hblock := Kdf.length_derivedBlock blockIndex salt c (length_hmac passwd) (k + 1)
    simp only [Nat.zero_add, Nat.one_mul, blockT_eq h]
    generalize hT : Kdf.derivedBlock (hmac passwd) blockIndex salt c (k + 1) = T at hblock
    generalize hclen : min (dkLen - k * 32) 32 = clen
    generalize hD : Kdf.derivedBlocks (hmac passwd) blockIndex salt c k = D at hfront
    have hDlen : D.length = 32 * k := hD ▸ hlen k
    rw [List.take_of_length_le (show D.length ≤ dkLen by omega)] at hfront
    have hcut : T.take (dkLen - D.length) = T.take clen := by
      rw [hDlen]
      rcases Nat.le_total (dkLen - 32 * k) 32 with h | h
      · rw [show clen = dkLen - 32 * k by omega]
      · rw [List.take_of_length_le (by omega), List.take_of_length_le (by omega)]
    have hwrite : Writes.writeAt b (k * 32, T.take clen) = D ++ T.take clen ++ b.drop (k * 32 + clen) := by
      rw [Writes.writeAt, List.length_take, hblock, Nat.mul_comm k, hfront,
        Nat.min_eq_left (by omega)]
    have hfull : (D ++ T.take clen).length = 32 * k + clen := by
      rw [List.length_append, List.length_take, hDlen, hblock]
      omega
    rw [hwrite]
    refine ⟨?_, ?_⟩
    · rw [List.length_append, hfull, List.length_drop]
      omega
    · -- behind the new block is the rest of the buffer, or nothing
      have hbehind : (b.drop (k * 32 + clen)).take (32 * (k + 1) - (32 * k + clen)) = [] := by
        apply List.eq_nil_of_length_eq_zero
        rw [List.length_take, List.length_drop]
        omega
      have hleft : (D ++ T.take clen ++ b.drop (k * 32 + clen)).take (32 * (k + 1))
          = D ++ T.take clen := by
        rw [List.take_append, hfull, hbehind, List.append_nil, List.take_of_length_le (by omega)]
      rw [Kdf.derivedBlocks_succ, hT, hD, hleft, List.take_append, hcut,
        List.take_of_length_le (show D.length ≤ dkLen by omega)]
  obtain ⟨hsize, hfront⟩ := hall
  rw [List.take_of_length_le (by omega)] at hfront
  exact hfront

theorem keyed_start (ctx : HMAC_SHA256_CTX) (K m : List UInt8) :
    Keyed (HMAC_SHA256_Update (HMAC_SHA256_Init ctx K) m) K m :=
  keyed_update (keyed_init ctx K) m

/-- For every count, length, password and salt. -/
theorem PBKDF2_SHA256_eq (PShctx : HMAC_SHA256_CTX) (passwd salt : List UInt8) (c : Nat)
    (buf : List UInt8) :
    PBKDF2_SHA256 PShctx passwd salt c buf buf.length = pbkdf2 passwd salt c buf.length :=
  outerLoop_eq (keyed_start PShctx passwd salt) c rfl

end DogeConnect.Scrypt
