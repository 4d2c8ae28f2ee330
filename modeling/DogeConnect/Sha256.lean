/-
`scrypt.c`, the SHA-256 part: `SHA256_Init`, `SHA256_Update`, `SHA256_Final`.

The compression function turns the working variables in place, through
indices that go backwards modulo eight, and the context buffers what does not
fill a block.  Both are implementation: against the standard's description in
`Sha2`,

    SHA256_Transform_vars    the compression function
    Digesting                what a context holds after a message
    digesting_update         it holds the longer message after an update
    SHA256_of_pieces         the digest of any number of updates

The length in bits is kept in two 32-bit halves and counts modulo 2^64.
Clearing the stack and the context is left out.
-/
import DogeConnect.Bytes
import DogeConnect.Lib.Loop
import DogeConnect.Lib.Sha2
import DogeConnect.Lib.Writes

namespace DogeConnect.Scrypt

/-! ## Bytes and words -/

/-- The byte at an index of a pointer. -/
def byteAt (p : List UInt8) (i : Nat) : UInt32 := (p.getD i 0).toUInt32

def be32dec (p : List UInt8) : UInt32 :=
  byteAt p 3 + (byteAt p 2 <<< 8) + (byteAt p 1 <<< 16) + (byteAt p 0 <<< 24)

def be32enc (x : UInt32) : List UInt8 :=
  [((x >>> 24) &&& 0xff).toUInt8, ((x >>> 16) &&& 0xff).toUInt8, ((x >>> 8) &&& 0xff).toUInt8,
    (x &&& 0xff).toUInt8]

def le32dec (p : List UInt8) : UInt32 :=
  byteAt p 0 + (byteAt p 1 <<< 8) + (byteAt p 2 <<< 16) + (byteAt p 3 <<< 24)

def le32enc (x : UInt32) : List UInt8 :=
  [(x &&& 0xff).toUInt8, ((x >>> 8) &&& 0xff).toUInt8, ((x >>> 16) &&& 0xff).toUInt8,
    ((x >>> 24) &&& 0xff).toUInt8]

/-- The words of an array are written one behind the other. -/
def be32enc_vect (src : List UInt32) : List UInt8 := src.flatMap be32enc

/-! ## The compression function -/

def Ch (x y z : UInt32) : UInt32 := (x &&& (y ^^^ z)) ^^^ z
def Maj (x y z : UInt32) : UInt32 := (x &&& (y ||| z)) ||| (y &&& z)
def SHR (x n : UInt32) : UInt32 := x >>> n
def ROTR (x n : UInt32) : UInt32 := (x >>> n) ||| (x <<< (32 - n))
def S0 (x : UInt32) : UInt32 := ROTR x 2 ^^^ ROTR x 13 ^^^ ROTR x 22
def S1 (x : UInt32) : UInt32 := ROTR x 6 ^^^ ROTR x 11 ^^^ ROTR x 25
def s0 (x : UInt32) : UInt32 := ROTR x 7 ^^^ ROTR x 18 ^^^ SHR x 3
def s1 (x : UInt32) : UInt32 := ROTR x 17 ^^^ ROTR x 19 ^^^ SHR x 10

/-- The round function, on the cells of the working array. -/
def RND (S : Vector UInt32 8) (a b c d e f g h : Nat) (k : UInt32) : Vector UInt32 8 :=
  let t0 := S[h]! + S1 S[e]! + Ch S[e]! S[f]! S[g]! + k
  let t1 := S0 S[a]! + Maj S[a]! S[b]! S[c]!
  let S := S.set! d (S[d]! + t0)
  S.set! h (t0 + t1)

/-- The round function for the rotating state. -/
def RNDr (S : Vector UInt32 8) (W : Vector UInt32 64) (i : Nat) (k : UInt32) : Vector UInt32 8 :=
  RND S ((64 - i) % 8) ((65 - i) % 8) ((66 - i) % 8) ((67 - i) % 8) ((68 - i) % 8)
    ((69 - i) % 8) ((70 - i) % 8) ((71 - i) % 8) (W[i]! + k)

/-- The constants of the sixty-four calls of `RNDr`. -/
def roundConstants : Vector UInt32 64 := #v[
  0x428a2f98, 0x71374491, 0xb5c0fbcf, 0xe9b5dba5, 0x3956c25b, 0x59f111f1, 0x923f82a4, 0xab1c5ed5,
  0xd807aa98, 0x12835b01, 0x243185be, 0x550c7dc3, 0x72be5d74, 0x80deb1fe, 0x9bdc06a7, 0xc19bf174,
  0xe49b69c1, 0xefbe4786, 0x0fc19dc6, 0x240ca1cc, 0x2de92c6f, 0x4a7484aa, 0x5cb0a9dc, 0x76f988da,
  0x983e5152, 0xa831c66d, 0xb00327c8, 0xbf597fc7, 0xc6e00bf3, 0xd5a79147, 0x06ca6351, 0x14292967,
  0x27b70a85, 0x2e1b2138, 0x4d2c6dfc, 0x53380d13, 0x650a7354, 0x766a0abb, 0x81c2c92e, 0x92722c85,
  0xa2bfe8a1, 0xa81a664b, 0xc24b8b70, 0xc76c51a3, 0xd192e819, 0xd6990624, 0xf40e3585, 0x106aa070,
  0x19a4c116, 0x1e376c08, 0x2748774c, 0x34b0bcb5, 0x391c0cb3, 0x4ed8aa4a, 0x5b9cca4f, 0x682e6ff3,
  0x748f82ee, 0x78a5636f, 0x84c87814, 0x8cc70208, 0x90befffa, 0xa4506ceb, 0xbef9a3f7, 0xc67178f2]

/-- `be32dec_vect(W, block, 64)`. -/
def be32dec_vect (W : Vector UInt32 64) (block : List UInt8) : Vector UInt32 64 :=
  Loop.run (fun i W => W.set! i (be32dec (block.drop (i * 4)))) 0 1 16 W

/-- The message schedule; the array is not initialised. -/
def prepare (block : List UInt8) : Vector UInt32 64 :=
  Loop.run (fun i W => W.set! i (s1 W[i - 2]! + W[i - 7]! + s0 W[i - 15]! + W[i - 16]!)) 16 1 48
    (be32dec_vect (Vector.replicate 64 0) block)

def mix (S : Vector UInt32 8) (W : Vector UInt32 64) : Vector UInt32 8 :=
  Loop.run (fun i S => RNDr S W i roundConstants[i]!) 0 1 64 S

/-- `block` is the pointer; sixty-four bytes are read from it. -/
def SHA256_Transform (state : Vector UInt32 8) (block : List UInt8) : Vector UInt32 8 :=
  let S := mix state (prepare block)
  Loop.run (fun i state => state.set! i (state[i]! + S[i]!)) 0 1 8 state

/-! ### Against the description -/

theorem be32dec_eq {p : List UInt8} (h : 4 ≤ p.length) : be32dec p = Sha2.word (p.take 4) := by
  obtain ⟨b0, b1, b2, b3, rest, rfl⟩ : ∃ b0 b1 b2 b3 rest, p = b0 :: b1 :: b2 :: b3 :: rest := by
    match p, h with
    | b0 :: b1 :: b2 :: b3 :: rest, _ => exact ⟨b0, b1, b2, b3, rest, rfl⟩
  have h0 := b0.toNat_lt
  have h1 := b1.toNat_lt
  have h2 := b2.toNat_lt
  have h3 := b3.toNat_lt
  apply UInt32.toNat_inj.mp
  simp [be32dec, byteAt, Sha2.word, Nat.ofDigits_cons, Nat.shiftLeft_eq]
  omega

theorem be32enc_eq (x : UInt32) : be32enc x = Sha2.wordBytes x := by
  have low (y : UInt32) : (y &&& 0xff).toUInt8 = y.toUInt8 := by
    apply UInt8.toNat_inj.mp
    have hmask : y.toNat &&& 255 = y.toNat % 256 := Nat.and_two_pow_sub_one_eq_mod y.toNat 8
    rw [UInt32.toNat_toUInt8, UInt32.toNat_toUInt8, UInt32.toNat_and]
    change (y.toNat &&& 255) % 256 = y.toNat % 256
    rw [hmask, Nat.mod_mod]
  simp only [be32enc, low, Sha2.wordBytes]

theorem be32enc_vect_eq (src : List UInt32) : be32enc_vect src = src.flatMap Sha2.wordBytes := by
  rw [be32enc_vect, funext be32enc_eq]

theorem ROTR_eq (x : UInt32) {n : Nat} (h0 : 0 < n) (h : n < 32) :
    ROTR x (no_index (OfNat.ofNat n)) = Sha2.rotr n x := by
  have hn : (UInt32.ofNat n).toBitVec % 32 = BitVec.ofNat 32 n := by
    apply BitVec.eq_of_toNat_eq
    simp
    omega
  have hm : (32 - UInt32.ofNat n).toBitVec % 32 = BitVec.ofNat 32 (32 - n) := by
    apply BitVec.eq_of_toNat_eq
    simp
    omega
  change ROTR x (UInt32.ofNat n) = Sha2.rotr n x
  apply UInt32.toBitVec_inj.mp
  rw [ROTR, Sha2.rotr, BitVec.rotateRight_def, UInt32.toBitVec_or, UInt32.toBitVec_shiftRight,
    UInt32.toBitVec_shiftLeft, hn, hm, Nat.mod_eq_of_lt h]
  simp only [BitVec.ushiftRight_eq', BitVec.shiftLeft_eq', BitVec.toNat_ofNat]
  rw [Nat.mod_eq_of_lt (by omega), Nat.mod_eq_of_lt (by omega)]

theorem S0_eq (x : UInt32) : S0 x = Sha2.bigSigma0 x := by
  simp (disch := decide) only [S0, Sha2.bigSigma0, ROTR_eq]

theorem S1_eq (x : UInt32) : S1 x = Sha2.bigSigma1 x := by
  simp (disch := decide) only [S1, Sha2.bigSigma1, ROTR_eq]

theorem s0_eq (x : UInt32) : s0 x = Sha2.sigma0 x := by
  simp (disch := decide) only [s0, Sha2.sigma0, ROTR_eq, SHR]

theorem s1_eq (x : UInt32) : s1 x = Sha2.sigma1 x := by
  simp (disch := decide) only [s1, Sha2.sigma1, ROTR_eq, SHR]

theorem Ch_eq (x y z : UInt32) : Ch x y z = Sha2.ch x y z := by
  apply UInt32.toBitVec_inj.mp
  ext i hi
  simp only [Ch, Sha2.ch, UInt32.toBitVec_xor, UInt32.toBitVec_and, UInt32.toBitVec_not,
    BitVec.getElem_xor, BitVec.getElem_and, BitVec.getElem_not]
  cases x.toBitVec[i] <;> cases y.toBitVec[i] <;> cases z.toBitVec[i] <;> rfl

theorem Maj_eq (x y z : UInt32) : Maj x y z = Sha2.maj x y z := by
  apply UInt32.toBitVec_inj.mp
  ext i hi
  simp only [Maj, Sha2.maj, UInt32.toBitVec_xor, UInt32.toBitVec_and, UInt32.toBitVec_or,
    BitVec.getElem_xor, BitVec.getElem_and, BitVec.getElem_or]
  cases x.toBitVec[i] <;> cases y.toBitVec[i] <;> cases z.toBitVec[i] <;> rfl

theorem roundConstants_eq : ∀ t < 64, roundConstants[t]! = Sha2.roundConst t := by
  decide +kernel

/-! The schedule array is right as far as it has been filled. -/

theorem get_be32dec_vect (W : Vector UInt32 64) {block : List UInt8} (h : 64 ≤ block.length)
    {t : Nat} (ht : t < 16) : (be32dec_vect W block)[t]! = Sha2.schedule block t := by
  rw [be32dec_vect, Loop.get_run_set (fun i _ => be32dec (block.drop (i * 4))) _ _ (by decide),
    if_pos ht, Sha2.schedule_of_lt ht, be32dec_eq (by rw [List.length_drop]; omega), Nat.mul_comm]

theorem get_prepare {block : List UInt8} (h : 64 ≤ block.length) :
    ∀ t < 64, (prepare block)[t]! = Sha2.schedule block t := by
  let P (k : Nat) (W : Vector UInt32 64) : Prop := ∀ t < 16 + k, W[t]! = Sha2.schedule block t
  change P 48 (prepare block)
  refine Loop.run_invariant (P := P) ?_ ?_
  · intro t ht
    exact get_be32dec_vect _ h ht
  · intro k W hk hW t ht
    rw [Nat.one_mul, Loop.get_set _ _ _ (by omega)]
    rcases Nat.lt_or_ge t (16 + k) with hlt | hge
    · rw [if_neg (by omega), hW t hlt]
    · obtain rfl : t = 16 + k := by omega
      rw [if_pos rfl, Sha2.schedule_of_le (by omega), s1_eq, s0_eq, hW _ (by omega),
        hW _ (by omega), hW _ (by omega), hW _ (by omega)]

/-! The working variables rotate through the array: before round `i` the
variable at place `p` is in the cell `(64 - i + p) % 8`. -/

def place (S : Vector UInt32 8) (i p : Nat) : UInt32 := S[(64 - i + p) % 8]!

def workingVars (S : Vector UInt32 8) (i : Nat) : Sha2.Vars :=
  ⟨place S i 0, place S i 1, place S i 2, place S i 3, place S i 4, place S i 5, place S i 6,
    place S i 7⟩

/-- A chaining value, as the standard names its words. -/
def chaining (state : Vector UInt32 8) : Sha2.Vars :=
  ⟨state[0]!, state[1]!, state[2]!, state[3]!, state[4]!, state[5]!, state[6]!, state[7]!⟩

theorem get_RNDr (S : Vector UInt32 8) (W : Vector UInt32 64) {i : Nat} (j : Nat) (k : UInt32)
    (h : i < 64) :
    (RNDr S W i k)[j]! = if (71 - i) % 8 = j then (Sha2.round k W[i]! (workingVars S i)).a
      else if (67 - i) % 8 = j then (Sha2.round k W[i]! (workingVars S i)).e else S[j]! := by
  have hcell (p : Nat) : S[(64 + p - i) % 8]! = place S i p := by
    rw [place, show 64 + p - i = 64 - i + p by omega]
  have hsum (a b c : UInt32) : a + b + c + (W[i]! + k) = a + b + c + k + W[i]! := by
    rw [UInt32.add_comm W[i]!, UInt32.add_assoc (a + b + c)]
  rw [RNDr, RND, Loop.get_set _ _ _ (by omega), Loop.get_set _ _ _ (by omega)]
  simp only [hcell 0, hcell 1, hcell 2, hcell 3, hcell 4, hcell 5, hcell 6, hcell 7, S0_eq, S1_eq,
    Ch_eq, Maj_eq, hsum, Sha2.round, workingVars]

theorem place_RNDr (S : Vector UInt32 8) (W : Vector UInt32 64) {i p : Nat} (k : UInt32)
    (h : i < 64) (hp : p < 8) :
    place (RNDr S W i k) (i + 1) p = if p = 0 then (Sha2.round k W[i]! (workingVars S i)).a
      else if p = 4 then (Sha2.round k W[i]! (workingVars S i)).e else place S i (p - 1) := by
  rw [place, get_RNDr S W _ k h]
  by_cases h0 : p = 0
  · rw [if_pos h0, if_pos (by omega)]
  · by_cases h4 : p = 4
    · rw [if_neg h0, if_pos h4, if_neg (by omega), if_pos (by omega)]
    · rw [if_neg h0, if_neg h4, if_neg (by omega), if_neg (by omega), place]
      congr 1
      omega

theorem workingVars_RNDr (S : Vector UInt32 8) (W : Vector UInt32 64) {i : Nat} (k : UInt32)
    (h : i < 64) :
    workingVars (RNDr S W i k) (i + 1) = Sha2.round k W[i]! (workingVars S i) := by
  rw [workingVars, place_RNDr S W k h (by decide), place_RNDr S W k h (by decide),
    place_RNDr S W k h (by decide), place_RNDr S W k h (by decide), place_RNDr S W k h (by decide),
    place_RNDr S W k h (by decide), place_RNDr S W k h (by decide), place_RNDr S W k h (by decide)]
  rfl

theorem workingVars_mix (S : Vector UInt32 8) {block : List UInt8} (h : 64 ≤ block.length) :
    workingVars (mix S (prepare block)) 64 = Sha2.rounds block (workingVars S 0) 64 := by
  let P (k : Nat) (T : Vector UInt32 8) : Prop :=
    workingVars T k = Sha2.rounds block (workingVars S 0) k
  change P 64 (mix S (prepare block))
  refine Loop.run_invariant (P := P) rfl ?_
  intro k T hk hT
  rw [Nat.zero_add, Nat.one_mul]
  change workingVars _ (k + 1) = Sha2.rounds block (workingVars S 0) (k + 1)
  rw [workingVars_RNDr _ _ _ hk, hT, get_prepare h k hk, roundConstants_eq k hk, Sha2.rounds]

theorem SHA256_Transform_vars (state : Vector UInt32 8) {block : List UInt8}
    (h : 64 ≤ block.length) :
    chaining (SHA256_Transform state block) = Sha2.compress (chaining state) block := by
  have hget (S : Vector UInt32 8) (j : Nat) (hj : j < 8) :
      (Loop.run (fun i state => state.set! i (state[i]! + S[i]!)) 0 1 8 state)[j]!
        = state[j]! + S[j]! := by
    rw [Loop.get_run_set (fun i x => x + S[i]!) _ _ (Nat.le_refl 8), if_pos hj]
  have hfeed (S : Vector UInt32 8) :
      chaining (Loop.run (fun i state => state.set! i (state[i]! + S[i]!)) 0 1 8 state)
        = (chaining state).add (chaining S) := by
    rw [chaining, hget S 0 (by decide), hget S 1 (by decide), hget S 2 (by decide),
      hget S 3 (by decide), hget S 4 (by decide), hget S 5 (by decide), hget S 6 (by decide),
      hget S 7 (by decide)]
    rfl
  -- the first and the last round see the array unrotated
  have hfirst : workingVars state 0 = chaining state := rfl
  have hlast (S : Vector UInt32 8) : workingVars S 64 = chaining S := rfl
  rw [SHA256_Transform, hfeed, ← hlast (mix state (prepare block)), workingVars_mix state h, hfirst, Sha2.compress]

/-! ## The context -/

structure SHA256_CTX where
  state : Vector UInt32 8
  /-- The number of bits, upper half first. -/
  count : UInt32 × UInt32
  buf : ByteArr 64

/-- `memcpy(&buf[r], src, n)` into a buffer with room for it. -/
def copyAt (buf : ByteArr 64) (r : Nat) (src : List UInt8) : ByteArr 64 :=
  .copy 64 (Writes.writeAt buf.toList (r, src))

/-- The initialization constants. -/
def initialState : Vector UInt32 8 := #v[
  0x6A09E667, 0xBB67AE85, 0x3C6EF372, 0xA54FF53A, 0x510E527F, 0x9B05688C, 0x1F83D9AB, 0x5BE0CD19]

/-- The buffer is left as it is. -/
def SHA256_Init (ctx : SHA256_CTX) : SHA256_CTX := { ctx with count := (0, 0), state := initialState }

/-- `while (len >= 64)`; the first argument bounds the turns. -/
def completeBlocks : Nat → Vector UInt32 8 → List UInt8 → Vector UInt32 8 × List UInt8
  | 0, state, src => (state, src)
  | fuel + 1, state, src =>
      if 64 ≤ src.length then completeBlocks fuel (SHA256_Transform state src) (src.drop 64)
      else (state, src)

/-- The bytes in the buffer. -/
def SHA256_CTX.buffered (ctx : SHA256_CTX) : Nat := ((ctx.count.2 >>> 3) &&& 0x3f).toNat

/-- The new bit count. -/
def addLength (count : UInt32 × UInt32) (len : Nat) : UInt32 × UInt32 :=
  let bitlen1 := UInt32.ofNat len <<< 3
  let bitlen0 := UInt32.ofNat (len >>> 29)
  let count1 := count.2 + bitlen1
  let count0 := if count1 < bitlen1 then count.1 + 1 else count.1
  (count0 + bitlen0, count1)

def SHA256_Update (ctx : SHA256_CTX) (src : List UInt8) : SHA256_CTX :=
  let r := ctx.buffered
  let ctx := { ctx with count := addLength ctx.count src.length }
  if src.length < 64 - r then
    { ctx with buf := copyAt ctx.buf r src }
  else
    let buf := copyAt ctx.buf r (src.take (64 - r))
    let src := src.drop (64 - r)
    let (state, left) := completeBlocks src.length (SHA256_Transform ctx.state buf.toList) src
    { ctx with state := state, buf := copyAt buf 0 left }

def PAD : List UInt8 := 0x80 :: List.replicate 63 0

def SHA256_Pad (ctx : SHA256_CTX) : SHA256_CTX :=
  let len := be32enc_vect [ctx.count.1, ctx.count.2]
  let r := ctx.buffered
  let plen := if r < 56 then 56 - r else 120 - r
  SHA256_Update (SHA256_Update ctx (PAD.take plen)) len

def SHA256_Final (ctx : SHA256_CTX) : List UInt8 :=
  be32enc_vect (SHA256_Pad ctx).state.toList

/-! ### What a context holds -/

theorem addLength_val (count : UInt32 × UInt32) (len : Nat) :
    (addLength count len).1.toNat * 2 ^ 32 + (addLength count len).2.toNat
      = (count.1.toNat * 2 ^ 32 + count.2.toNat + 8 * len) % 2 ^ 64 := by
  have h0 := count.1.toNat_lt
  have h1 := count.2.toNat_lt
  have hlow : (UInt32.ofNat len <<< 3).toNat = 8 * len % 2 ^ 32 := by
    rw [UInt32.toNat_shiftLeft, UInt32.toNat_ofNat', Nat.shiftLeft_eq]
    change len % 2 ^ 32 * 2 ^ 3 % 2 ^ 32 = 8 * len % 2 ^ 32
    omega
  have hhigh : (UInt32.ofNat (len >>> 29)).toNat = 8 * len / 2 ^ 32 % 2 ^ 32 := by
    rw [UInt32.toNat_ofNat', Nat.shiftRight_eq_div_pow]
    omega
  simp only [addLength, UInt32.lt_iff_toNat_lt, UInt32.toNat_add, hlow]
  split
  · rw [UInt32.toNat_add, hhigh, UInt32.toNat_one]
    omega
  · rw [hhigh]
    omega

/-- A context after a message: the complete blocks are absorbed, their number
of bits is counted, and the rest is in front of the buffer. -/
structure Digesting (ctx : SHA256_CTX) (msg : List UInt8) : Prop where
  state : chaining ctx.state = Sha2.state msg
  count : ctx.count.1.toNat * 2 ^ 32 + ctx.count.2.toNat = 8 * msg.length % 2 ^ 64
  buf : ctx.buf.toList.take (msg.length % 64) = Absorb.rest 64 msg

namespace Digesting

variable {ctx : SHA256_CTX} {msg : List UInt8}

theorem buffered (h : Digesting ctx msg) : ctx.buffered = msg.length % 64 := by
  have hcount := h.count
  have h1 := ctx.count.2.toNat_lt
  have hmask (n : Nat) : n &&& 0x3f = n % 64 := Nat.and_two_pow_sub_one_eq_mod n 6
  rw [SHA256_CTX.buffered, UInt32.toNat_and, UInt32.toNat_shiftRight]
  change (ctx.count.2.toNat >>> 3) &&& 0x3f = msg.length % 64
  rw [hmask, Nat.shiftRight_eq_div_pow]
  omega

theorem halves (h : Digesting ctx msg) :
    be32enc_vect [ctx.count.1, ctx.count.2] = Sha2.lengthBytes (8 * msg.length) := by
  have hcount := h.count
  have h0 := ctx.count.1.toNat_lt
  have h1 := ctx.count.2.toNat_lt
  have hhigh : ctx.count.1 = UInt32.ofNat (8 * msg.length / 2 ^ 32) := by
    apply UInt32.toNat_inj.mp
    rw [UInt32.toNat_ofNat']
    omega
  have hlow : ctx.count.2 = UInt32.ofNat (8 * msg.length) := by
    apply UInt32.toNat_inj.mp
    rw [UInt32.toNat_ofNat']
    omega
  rw [be32enc_vect_eq, hhigh, hlow]
  rfl

end Digesting

theorem chaining_initialState : chaining initialState = Sha2.init := by
  decide +kernel

theorem digesting_init (ctx : SHA256_CTX) : Digesting (SHA256_Init ctx) [] where
  state := by
    rw [Sha2.state, Absorb.absorb_of_lt _ (by decide)]
    exact chaining_initialState
  count := by simp [SHA256_Init]
  buf := rfl

theorem completeBlocks_eq {fuel : Nat} {src : List UInt8} (state : Vector UInt32 8)
    (h : src.length ≤ fuel) :
    chaining (completeBlocks fuel state src).1
        = Absorb.absorb 64 Sha2.compress (chaining state) src ∧
      (completeBlocks fuel state src).2 = Absorb.rest 64 src := by
  induction fuel generalizing state src with
  | zero =>
      have hnil : src = [] := List.eq_nil_of_length_eq_zero (by omega)
      subst hnil
      exact ⟨rfl, rfl⟩
  | succ fuel ih =>
      rw [completeBlocks]
      split
      · next hle =>
          have hfuel : (src.drop 64).length ≤ fuel := by
            rw [List.length_drop]
            omega
          obtain ⟨hstate, hleft⟩ := ih (SHA256_Transform state src) hfuel
          rw [hstate, hleft, SHA256_Transform_vars state hle, ← Sha2.compress_take,
            ← Absorb.absorb_of_le (by decide) _ hle, ← Absorb.rest_of_le (by decide) hle]
          exact ⟨rfl, rfl⟩
      · next hlt =>
          rw [Absorb.absorb_of_lt _ (by omega), Absorb.rest_of_lt (by omega)]
          exact ⟨rfl, rfl⟩

theorem take_copyAt (buf : ByteArr 64) {r : Nat} (src : List UInt8) (h : r + src.length ≤ 64) :
    (copyAt buf r src).toList.take (r + src.length) = buf.toList.take r ++ src := by
  have hbuf := buf.length
  have hfront : (buf.toList.take r ++ src).length = r + src.length := by
    rw [List.length_append, List.length_take]
    omega
  rw [copyAt, ByteArr.copy_toList, Writes.writeAt, ← hfront, List.take_left]
  rw [Writes.writeAt, List.length_append, hfront, List.length_drop]
  dsimp only
  omega

theorem digesting_update {ctx : SHA256_CTX} {msg : List UInt8} (h : Digesting ctx msg)
    (src : List UInt8) : Digesting (SHA256_Update ctx src) (msg ++ src) := by
  have hr := h.buffered
  have hcount : (addLength ctx.count src.length).1.toNat * 2 ^ 32
      + (addLength ctx.count src.length).2.toNat = 8 * (msg ++ src).length % 2 ^ 64 := by
    rw [addLength_val, h.count, List.length_append]
    omega
  have hrest : (Absorb.rest 64 msg).length = msg.length % 64 := Absorb.length_rest msg
  have hstate : Sha2.state (msg ++ src)
      = Absorb.absorb 64 Sha2.compress (Sha2.state msg) (Absorb.rest 64 msg ++ src) :=
    Absorb.absorb_append (by decide) msg src Sha2.init
  have hbuf : Absorb.rest 64 (msg ++ src) = Absorb.rest 64 (Absorb.rest 64 msg ++ src) :=
    Absorb.rest_append (by decide) msg src
  rw [SHA256_Update, hr]
  dsimp only
  split
  · next hlt =>
      have hshort : (Absorb.rest 64 msg ++ src).length < 64 := by
        rw [List.length_append, hrest]
        omega
      refine ⟨?_, hcount, ?_⟩
      · rw [hstate, Absorb.absorb_of_lt _ hshort]
        exact h.state
      · have hmod : (msg ++ src).length % 64 = msg.length % 64 + src.length := by
          rw [List.length_append]
          omega
        dsimp only
        rw [hmod, take_copyAt _ _ (by omega), h.buf, hbuf, Absorb.rest_of_lt hshort]
  · next hge =>
      have htake : (src.take (64 - msg.length % 64)).length = 64 - msg.length % 64 := by
        rw [List.length_take]
        omega
      -- the buffer is filled up to one block
      have hblock : (copyAt ctx.buf (msg.length % 64) (src.take (64 - msg.length % 64))).toList
          = Absorb.rest 64 msg ++ src.take (64 - msg.length % 64) := by
        have hcopy := take_copyAt ctx.buf (r := msg.length % 64)
          (src.take (64 - msg.length % 64)) (by omega)
        rwa [h.buf, List.take_of_length_le (by rw [ByteArr.length]; omega)] at hcopy
      have hlen : (Absorb.rest 64 msg ++ src.take (64 - msg.length % 64)).length = 64 := by
        rw [List.length_append, hrest, htake]
        omega
      have hsplit : Absorb.rest 64 msg ++ src
          = (Absorb.rest 64 msg ++ src.take (64 - msg.length % 64))
            ++ src.drop (64 - msg.length % 64) := by
        rw [List.append_assoc, List.take_append_drop]
      rw [hblock]
      generalize Absorb.rest 64 msg ++ src.take (64 - msg.length % 64) = block at hlen hsplit
      generalize src.drop (64 - msg.length % 64) = more at hsplit
      obtain ⟨hdone, hleft⟩ :=
        completeBlocks_eq (SHA256_Transform ctx.state block) (Nat.le_refl more.length)
      refine ⟨?_, hcount, ?_⟩
      · dsimp only
        rw [hdone, SHA256_Transform_vars _ (by omega), h.state, hstate, hsplit,
          Absorb.absorb_block (by decide) _ hlen]
      · dsimp only
        have hmod : (Absorb.rest 64 more).length = (msg ++ src).length % 64 := by
          rw [← Absorb.length_rest, hbuf, hsplit, Absorb.rest_block (by decide) hlen]
        have hlt := Absorb.length_rest_lt (n := 64) (by decide) more
        have hcopy := take_copyAt (copyAt ctx.buf (msg.length % 64) (src.take (64 - msg.length % 64)))
          (r := 0) (Absorb.rest 64 more) (by omega)
        rw [Nat.zero_add, List.take_zero, List.nil_append, hmod] at hcopy
        rw [hleft, hcopy, hbuf, hsplit, Absorb.rest_block (by decide) hlen]

/-- Of `PAD` the end mark and the zeros are taken. -/
theorem take_PAD (len : Nat) :
    PAD.take (if len % 64 < 56 then 56 - len % 64 else 120 - len % 64)
      = 0x80 :: List.replicate (Sha2.zeros len) 0 := by
  have hcount : (if len % 64 < 56 then 56 - len % 64 else 120 - len % 64)
      = Sha2.zeros len + 1 := by
    rw [Sha2.zeros]
    split <;> omega
  have hle : Sha2.zeros len ≤ 63 := by
    rw [Sha2.zeros]
    omega
  rw [hcount, PAD, List.take_succ_cons, List.take_replicate, Nat.min_eq_left hle]

theorem SHA256_Final_eq {ctx : SHA256_CTX} {msg : List UInt8} (h : Digesting ctx msg) :
    SHA256_Final ctx = Sha2.hash msg := by
  have hpadded := digesting_update
    (digesting_update h (0x80 :: List.replicate (Sha2.zeros msg.length) 0))
    (Sha2.lengthBytes (8 * msg.length))
  rw [List.append_assoc] at hpadded
  have hwords (state : Vector UInt32 8) : state.toList = (chaining state).toList := by
    obtain ⟨⟨words⟩, hsize⟩ := state
    match words, hsize with
    | [a, b, c, d, e, f, g, k], _ => rfl
  rw [SHA256_Final, SHA256_Pad, h.buffered, h.halves, be32enc_vect_eq, take_PAD, hwords,
    hpadded.state, Sha2.hash, Sha2.padding]

/-! ### Digests -/

/-- Any number of updates between initialization and finalization. -/
def SHA256 (ctx : SHA256_CTX) (pieces : List (List UInt8)) : List UInt8 :=
  SHA256_Final (pieces.foldl SHA256_Update (SHA256_Init ctx))

theorem digesting_updates {ctx : SHA256_CTX} {msg : List UInt8} (h : Digesting ctx msg)
    (pieces : List (List UInt8)) :
    Digesting (pieces.foldl SHA256_Update ctx) (msg ++ pieces.flatten) := by
  induction pieces generalizing ctx msg with
  | nil => simpa using h
  | cons piece pieces ih =>
      rw [List.foldl_cons, List.flatten_cons, ← List.append_assoc]
      exact ih (digesting_update h piece)

/-- However the message is cut, and whatever the context held before. -/
theorem SHA256_of_pieces (ctx : SHA256_CTX) (pieces : List (List UInt8)) :
    SHA256 ctx pieces = Sha2.hash pieces.flatten :=
  SHA256_Final_eq (digesting_updates (digesting_init ctx) pieces)

example : SHA256 ⟨.replicate 8 7, (1, 2), .fill 64 3⟩ [[97], [98, 99]]
    = [0xba, 0x78, 0x16, 0xbf, 0x8f, 0x01, 0xcf, 0xea, 0x41, 0x41, 0x40, 0xde, 0x5d, 0xae, 0x22,
      0x23, 0xb0, 0x03, 0x61, 0xa3, 0x96, 0x17, 0x7a, 0x9c, 0xb4, 0x10, 0xff, 0x61, 0xf2, 0x00,
      0x15, 0xad] := by
  decide +kernel

end DogeConnect.Scrypt
