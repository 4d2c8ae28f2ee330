/-
`scrypt.c`, the hash itself: `salsa20_8`, `blockmix_salsa8`, `smix` and the entry points.

Everything is mixed in one scratchpad: the core turns sixteen words in place, and blocks are
copied to where the next round reads them.  Against the descriptions in `Salsa` and `RoMix`,

    grid_salsa20_8         the core
    blockmix_salsa8_eq     the mixing of a chunk, its odd blocks behind the even ones
    smix_write             sequential mixing, two rounds a turn
    scrypt_N_R_1_256_eq    the hash, for every power of two `N` and every `R` that does not wrap
-/
import DogeConnect.Pbkdf
import DogeConnect.Lib.Salsa
import DogeConnect.Lib.RoMix
import DogeConnect.Lib.ArrayLayout
import Mathlib.Tactic.FinCases

namespace DogeConnect.Scrypt

/-! ## The core -/

def R (a b : UInt32) : UInt32 := (a <<< b) ||| (a >>> (32 - b))

/-- `x[d] ^= R(x[a]+x[b], n)`. -/
def xorRot (x : Vector UInt32 16) (d a b : Nat) (n : UInt32) : Vector UInt32 16 :=
  x.set! d (x[d]! ^^^ R (x[a]! + x[b]!) n)

/-- The four statements of one line pair: `x[b]`, `x[c]`, `x[d]`, `x[a]` in turn. -/
def quarter (x : Vector UInt32 16) (a b c d : Nat) : Vector UInt32 16 :=
  let x := xorRot x b a d 7
  let x := xorRot x c b a 9
  let x := xorRot x d c b 13
  xorRot x a d c 18

def columns (x : Vector UInt32 16) : Vector UInt32 16 :=
  let x := quarter x 0 4 8 12
  let x := quarter x 5 9 13 1
  let x := quarter x 10 14 2 6
  quarter x 15 3 7 11

def rows (x : Vector UInt32 16) : Vector UInt32 16 :=
  let x := quarter x 0 1 2 3
  let x := quarter x 5 6 7 4
  let x := quarter x 10 11 8 9
  quarter x 15 12 13 14

def salsa20_8 (B : Vector UInt32 16) : Vector UInt32 16 :=
  let x := Loop.run (fun _ x => rows (columns x)) 0 2 4 B
  Loop.run (fun i B => B.set! i (B[i]! + x[i]!)) 0 1 16 B

theorem R_eq (x : UInt32) {n : Nat} (h0 : 0 < n) (h : n < 32) :
    R x (no_index (OfNat.ofNat n)) = Salsa.rotl n x := by
  have hn : (UInt32.ofNat n).toBitVec % 32 = BitVec.ofNat 32 n := by
    apply BitVec.eq_of_toNat_eq
    simp
    omega
  have hm : (32 - UInt32.ofNat n).toBitVec % 32 = BitVec.ofNat 32 (32 - n) := by
    apply BitVec.eq_of_toNat_eq
    simp
    omega
  change R x (UInt32.ofNat n) = Salsa.rotl n x
  apply UInt32.toBitVec_inj.mp
  rw [R, Salsa.rotl, BitVec.rotateLeft_def, UInt32.toBitVec_or, UInt32.toBitVec_shiftRight,
    UInt32.toBitVec_shiftLeft, hn, hm, Nat.mod_eq_of_lt h]
  simp only [BitVec.ushiftRight_eq', BitVec.shiftLeft_eq', BitVec.toNat_ofNat]
  rw [Nat.mod_eq_of_lt (by omega), Nat.mod_eq_of_lt (by omega)]

/-! A pass is four quarter rounds on cells of their own: `cell i` are those of
the `i`-th, in the order in which they are mixed. -/

/-- A quarter round changes its four cells as the description says. -/
theorem get_quarter (x : Vector UInt32 16) {cell : Fin 4 → Nat} (hlt : ∀ k, cell k < 16)
    (hinj : Function.Injective cell) (k : Fin 4) :
    (quarter x (cell 0) (cell 1) (cell 2) (cell 3))[cell k]!
      = Salsa.quarterRound x[cell 0]! x[cell 1]! x[cell 2]! x[cell 3]! k := by
  have hne {i j : Fin 4} (h : i ≠ j) : cell i ≠ cell j := fun he => h (hinj he)
  have h10 := hne (show (1 : Fin 4) ≠ 0 by decide)
  have h20 := hne (show (2 : Fin 4) ≠ 0 by decide)
  have h30 := hne (show (3 : Fin 4) ≠ 0 by decide)
  have h21 := hne (show (2 : Fin 4) ≠ 1 by decide)
  have h31 := hne (show (3 : Fin 4) ≠ 1 by decide)
  have h32 := hne (show (3 : Fin 4) ≠ 2 by decide)
  simp (disch := decide) only [quarter, xorRot, R_eq]
  simp only [Loop.get_set _ _ _ (hlt _), if_neg h10, if_neg h20, if_neg h30, if_neg h21,
    if_neg h21.symm, if_neg h31.symm, if_neg h32, if_neg h32.symm, if_true]
  fin_cases k <;> simp [*, Ne.symm, Salsa.quarterRound]

theorem get_quarter_other (x : Vector UInt32 16) {cell : Fin 4 → Nat} (hlt : ∀ k, cell k < 16)
    {j : Nat} (h : ∀ k, cell k ≠ j) :
    (quarter x (cell 0) (cell 1) (cell 2) (cell 3))[j]! = x[j]! := by
  simp only [quarter, xorRot, Loop.get_set _ _ _ (hlt _), if_neg (h _)]

theorem get_pass (cell : Fin 4 → Fin 4 → Nat) (hlt : ∀ i k, cell i k < 16)
    (hinj : ∀ i i' k k', cell i k = cell i' k' → i = i' ∧ k = k') {is : List (Fin 4)}
    (hnodup : is.Nodup) (x : Vector UInt32 16) (i k : Fin 4) :
    (is.foldl (fun x i => quarter x (cell i 0) (cell i 1) (cell i 2) (cell i 3)) x)[cell i k]! =
      if i ∈ is then Salsa.quarterRound x[cell i 0]! x[cell i 1]! x[cell i 2]! x[cell i 3]! k
      else x[cell i k]! := by
  induction is generalizing x with
  | nil => rfl
  | cons i' is ih =>
      obtain ⟨hnew, hnodup⟩ := List.nodup_cons.mp hnodup
      have hother {i : Fin 4} (h : i ≠ i') (k : Fin 4) :
          (quarter x (cell i' 0) (cell i' 1) (cell i' 2) (cell i' 3))[cell i k]! = x[cell i k]! :=
        get_quarter_other x (hlt i') fun k' he => h (hinj i' i k' k he).1.symm
      rw [List.foldl_cons, ih hnodup]
      by_cases hi : i = i'
      · subst hi
        rw [if_neg hnew, if_pos List.mem_cons_self]
        exact get_quarter x (hlt i) (fun k k' he => (hinj i i k k' he).2) k
      · simp only [hother hi, List.mem_cons, hi, false_or]

/-- The array as a matrix, row by row. -/
def grid (x : Vector UInt32 16) : Salsa.Matrix := fun i j => x[4 * i.val + j.val]!

/-- The cells of row `i`, from the diagonal on. -/
def rowCell (i k : Fin 4) : Nat := 4 * i.val + (i + k).val

/-- The cells of column `j`, from the diagonal on. -/
def columnCell (j k : Fin 4) : Nat := 4 * (j + k).val + j.val

theorem rowCell_sub : ∀ i j : Fin 4, rowCell i (j - i) = 4 * i.val + j.val := by decide

theorem columnCell_sub : ∀ i j : Fin 4, columnCell j (i - j) = 4 * i.val + j.val := by decide

theorem grid_rows (x : Vector UInt32 16) : grid (rows x) = Salsa.rowRound (grid x) := by
  have hpass : rows x = (List.finRange 4).foldl (fun x i =>
    quarter x (rowCell i 0) (rowCell i 1) (rowCell i 2) (rowCell i 3)) x := rfl
  funext i j
  have hget := get_pass rowCell (by decide) (by decide) (List.nodup_finRange 4) x i (j - i)
  rw [if_pos (List.mem_finRange i), rowCell_sub] at hget
  rw [grid, hpass, hget, Salsa.rowRound, rowCell, Fin.add_zero]
  rfl

theorem grid_columns (x : Vector UInt32 16) : grid (columns x) = Salsa.columnRound (grid x) := by
  have hpass : columns x = (List.finRange 4).foldl (fun x j =>
    quarter x (columnCell j 0) (columnCell j 1) (columnCell j 2) (columnCell j 3)) x := rfl
  funext i j
  have hget := get_pass columnCell (by decide) (by decide) (List.nodup_finRange 4) x j (i - j)
  rw [if_pos (List.mem_finRange j), columnCell_sub] at hget
  rw [grid, hpass, hget, Salsa.columnRound, Salsa.transpose, Salsa.rowRound, columnCell,
    Fin.add_zero]
  rfl

theorem grid_salsa20_8 (B : Vector UInt32 16) : grid (salsa20_8 B) = Salsa.core 4 (grid B) := by
  let P (k : Nat) (x : Vector UInt32 16) : Prop := grid x = Salsa.doubleRound^[k] (grid B)
  have hrounds : P 4 (Loop.run (fun _ x => rows (columns x)) 0 2 4 B) := by
    refine Loop.run_invariant (P := P) rfl ?_
    intro k x _ hx
    change grid (rows (columns x)) = Salsa.doubleRound^[k + 1] (grid B)
    rw [grid_rows, grid_columns, hx, Function.iterate_succ_apply', Salsa.doubleRound]
  funext i j
  rw [grid, salsa20_8, Loop.get_run_set (fun i b => b + _) B _ (Nat.le_refl 16),
    if_pos (by omega), Salsa.core, ← hrounds, grid, grid]

/-! ## Copies

Lengths are in bytes and multiples of 64; a word has four. -/

/-- `blkcpy(&dest[off], src, len)`. -/
def blkcpy (dest : List UInt32) (off : Nat) (src : List UInt32) (len : Nat) : List UInt32 :=
  Writes.writeAt dest (off, src.take (len / 4))

/-- `blkxor(dest, src, len)`. -/
def blkxor (dest src : List UInt32) (len : Nat) : List UInt32 :=
  List.zipWith (· ^^^ ·) (dest.take (len / 4)) (src.take (len / 4)) ++ dest.drop (len / 4)

/-- Sixteen words. -/
abbrev Block := Vector UInt32 16

def blockLayout : Layout UInt32 Block := (Layout.symbol 0).vec 16

/-- `salsa20_8(X)` on the words at a pointer. -/
def salsaAt (X : List UInt32) : List UInt32 := blockLayout.write (salsa20_8 (blockLayout.read X))

/-! ## Block mixing -/

/-- One turn, for the blocks `i` and `i + 1`; the state is `Bout` and `X`. -/
def mixTurn (Bin : List UInt32) (r i : Nat) (s : List UInt32 × List UInt32) :
    List UInt32 × List UInt32 :=
  let X := blkxor s.2 (Bin.drop (i * 16)) 64
  let X := salsaAt X
  let Bout := blkcpy s.1 (i * 8) X 64
  let X := blkxor X (Bin.drop (i * 16 + 16)) 64
  let X := salsaAt X
  (blkcpy Bout (i * 8 + r * 16) X 64, X)

/-- `Bout` and `X` afterwards. -/
def blockmix_salsa8 (Bin Bout X : List UInt32) (r : Nat) : List UInt32 × List UInt32 :=
  Loop.run (mixTurn Bin r) 0 2 r (Bout, blkcpy X 0 (Bin.drop ((2 * r - 1) * 16)) 64)

/-- The blocks of a chunk. -/
abbrev Chunk (r : Nat) := Vector Block (2 * r)

def chunkLayout (r : Nat) : Layout UInt32 (Chunk r) := blockLayout.vec (2 * r)

/-- A block whose words are the entries of a matrix. -/
def ofGrid (M : Salsa.Matrix) : Block :=
  Vector.ofFn fun k => M ⟨k.val / 4, by omega⟩ ⟨k.val % 4, by omega⟩

def salsaBlock (B : Block) : Block := ofGrid (Salsa.core 4 (grid B))

def xorBlock (a b : Block) : Block := Vector.zipWith (· ^^^ ·) a b

def blockMix (r : Nat) (B : Chunk r) : Chunk r := RoMix.blockMix salsaBlock xorBlock r B

theorem ofGrid_grid (B : Block) : ofGrid (grid B) = B := by
  apply Vector.ext
  intro k hk
  have hindex : 4 * (k / 4) + k % 4 = k := Nat.div_add_mod k 4
  rw [ofGrid, Vector.getElem_ofFn, grid]
  dsimp only
  rw [hindex, getElem!_pos B k hk]

theorem salsa20_8_eq (B : Block) : salsa20_8 B = salsaBlock B := by
  rw [salsaBlock, ← grid_salsa20_8, ofGrid_grid]

theorem salsaAt_write (B : Block) :
    salsaAt (blockLayout.write B) = blockLayout.write (salsaBlock B) := by
  have hread : blockLayout.read (blockLayout.write B) = B := by
    have := blockLayout.read_write B []
    rwa [List.append_nil] at this
  rw [salsaAt, hread, salsa20_8_eq]

theorem zipWith_block (a b : Block) :
    List.zipWith (· ^^^ ·) (blockLayout.write a) (blockLayout.write b)
      = blockLayout.write (xorBlock a b) :=
  Layout.zipWith_vec (fun _ _ => rfl) a b

/-- Mixing block `i` of a chunk into the scratch block. -/
theorem blkxor_block {r : Nat} (x : Block) (B : Chunk r) {i : Nat} (h : i < 2 * r) :
    blkxor (blockLayout.write x) (((chunkLayout r).write B).drop (i * 16)) 64
      = blockLayout.write (xorBlock x B[i]!) := by
  have hx : (blockLayout.write x).length = 16 := blockLayout.write_length x
  have hsrc : (((chunkLayout r).write B).drop (i * 16)).take 16 = blockLayout.write B[i]! := by
    rw [Nat.mul_comm]
    exact blockLayout.take_vec B h
  have hdrop : (blockLayout.write x).drop 16 = [] := List.drop_eq_nil_of_le (by omega)
  change List.zipWith _ ((blockLayout.write x).take 16) ((List.drop _ _).take 16) ++ _ = _
  rw [hsrc, List.take_of_length_le (by omega), zipWith_block]
  change _ ++ (blockLayout.write x).drop 16 = _
  rw [hdrop, List.append_nil]

/-- Storing the scratch block as block `k` of a chunk. -/
theorem blkcpy_block {r : Nat} (B : Chunk r) (x : Block) {k off : Nat} (h : k < 2 * r)
    (hoff : off = 16 * k) :
    blkcpy ((chunkLayout r).write B) off (blockLayout.write x) 64
      = (chunkLayout r).write (B.set! k x) := by
  have hx : (blockLayout.write x).take 16 = blockLayout.write x :=
    List.take_of_length_le (Nat.le_of_eq (blockLayout.write_length x))
  subst hoff
  change Writes.writeAt _ (16 * k, (blockLayout.write x).take 16) = _
  rw [hx]
  exact blockLayout.writeAt_vec B x h

theorem get_blockMix {r : Nat} (B : Chunk r) {k : Nat} (h : k < 2 * r) :
    (blockMix r B)[k]! =
      RoMix.chained salsaBlock xorBlock B[2 * r - 1]! (fun i => B[i]!)
        (if k < r then 2 * k else 2 * (k - r) + 1) := by
  rw [blockMix, RoMix.blockMix, getElem!_pos _ k h, Vector.getElem_ofFn]
  dsimp only
  split <;> rfl

/-- A turn mixes in two blocks and stores the results in the two halves. -/
theorem mixTurn_eq {r : Nat} (B O : Chunk r) (x : Block) {k : Nat} (h : k < r) :
    let y := salsaBlock (xorBlock x B[2 * k]!)
    let z := salsaBlock (xorBlock y B[2 * k + 1]!)
    mixTurn ((chunkLayout r).write B) r (2 * k) ((chunkLayout r).write O, blockLayout.write x)
      = ((chunkLayout r).write ((O.set! k y).set! (k + r) z), blockLayout.write z) := by
  intro y z
  have hnext : 2 * k * 16 + 16 = (2 * k + 1) * 16 := by omega
  rw [mixTurn]
  dsimp only
  rw [blkxor_block x B (by omega), salsaAt_write, hnext, blkxor_block _ B (by omega), salsaAt_write,
    blkcpy_block O _ (show k < 2 * r by omega) (by omega),
    blkcpy_block _ _ (show k + r < 2 * r by omega) (by omega)]

theorem blockmix_salsa8_eq {r : Nat} (hr : 1 ≤ r) (B O : Chunk r) {X : List UInt32}
    (hX : X.length = 16) :
    ∃ x : Block, blockmix_salsa8 ((chunkLayout r).write B) ((chunkLayout r).write O) X r
      = ((chunkLayout r).write (blockMix r B), blockLayout.write x) := by
  let Y := RoMix.chained salsaBlock xorBlock B[2 * r - 1]! fun i => B[i]!
  let before := RoMix.before salsaBlock xorBlock B[2 * r - 1]! fun i => B[i]!
  have hstart : blkcpy X 0 (((chunkLayout r).write B).drop ((2 * r - 1) * 16)) 64
      = blockLayout.write B[2 * r - 1]! := by
    have hlast : (((chunkLayout r).write B).drop ((2 * r - 1) * 16)).take 16
        = blockLayout.write B[2 * r - 1]! := by
      rw [Nat.mul_comm]
      exact blockLayout.take_vec B (by omega)
    have hlen : (blockLayout.write B[2 * r - 1]!).length = 16 := blockLayout.write_length _
    change Writes.writeAt X (0, (List.drop _ _).take 16) = _
    rw [hlast, Writes.writeAt]
    dsimp only
    rw [hlen, List.take_zero, List.nil_append, List.drop_eq_nil_of_le (by omega), List.append_nil]
  -- after `k` turns the first `k` places of both halves hold their results
  let P (k : Nat) (s : List UInt32 × List UInt32) : Prop := ∃ O : Chunk r,
    s = ((chunkLayout r).write O, blockLayout.write (before (2 * k))) ∧
      ∀ j < k, O[j]! = Y (2 * j) ∧ O[j + r]! = Y (2 * j + 1)
  have hall : P r (blockmix_salsa8 ((chunkLayout r).write B) ((chunkLayout r).write O) X r) := by
    refine Loop.run_invariant (P := P) ⟨O, by rw [hstart]; rfl, fun j hj => absurd hj (by omega)⟩ ?_
    rintro k s hk ⟨T, rfl, hT⟩
    have hodd (i : Nat) : salsaBlock (xorBlock (before i) B[i]!) = Y i :=
      (RoMix.chained_eq salsaBlock xorBlock _ _ i).symm
    have heven : salsaBlock (xorBlock (Y (2 * k)) B[2 * k + 1]!) = Y (2 * k + 1) := rfl
    rw [Nat.zero_add, mixTurn_eq B T (before (2 * k)) hk, hodd, heven]
    refine ⟨_, rfl, fun j hj => ?_⟩
    rw [Loop.get_set _ _ _ (by omega), Loop.get_set _ _ _ (by omega), Loop.get_set _ _ _ (by omega),
      Loop.get_set _ _ _ (by omega)]
    rcases Nat.lt_or_ge j k with hlt | hge
    · rw [if_neg (by omega), if_neg (by omega), if_neg (by omega), if_neg (by omega)]
      exact hT j hlt
    · obtain rfl : j = k := by omega
      rw [if_neg (by omega), if_pos rfl, if_pos rfl]
      exact ⟨rfl, rfl⟩
  obtain ⟨T, heq, hT⟩ := hall
  have hTB : T = blockMix r B := by
    refine Loop.get_ext fun k hk => ?_
    rw [get_blockMix B hk]
    split
    · next hlt => exact (hT k hlt).1
    · next hge =>
        have hhalf := (hT (k - r) (by omega)).2
        rwa [Nat.sub_add_cancel (by omega)] at hhalf
  exact ⟨before (2 * r), by rw [heq, hTB]⟩

/-! ## Sequential mixing -/

/-- The first two words of the last block, as a 64-bit number. -/
def integerify (B : List UInt32) (r : Nat) : UInt64 :=
  let X := B.drop ((2 * r - 1) * 16)
  ((X.getD 1 0).toUInt64 <<< 32) + (X.getD 0 0).toUInt64

/-- `V` and the three parts of `XY`. -/
structure Scratch where
  V : List UInt32
  X : List UInt32
  Y : List UInt32
  Z : List UInt32

/-- One turn of the first loop, for the entries `i` and `i + 1` of `V`. -/
def fillTurn (r i : Nat) (s : Scratch) : Scratch :=
  let V := blkcpy s.V (i * (32 * r)) s.X (128 * r)
  let (Y, Z) := blockmix_salsa8 s.X s.Y s.Z r
  let V := blkcpy V ((i + 1) * (32 * r)) Y (128 * r)
  let (X, Z) := blockmix_salsa8 Y s.X Z r
  ⟨V, X, Y, Z⟩

/-- One turn of the second loop. -/
def mixInTurn (r : Nat) (N : UInt64) (s : Scratch) : Scratch :=
  let j := (integerify s.X r &&& (N - 1)).toNat
  let X := blkxor s.X (s.V.drop (j * (32 * r))) (128 * r)
  let (Y, Z) := blockmix_salsa8 X s.Y s.Z r
  let j := (integerify Y r &&& (N - 1)).toNat
  let Y := blkxor Y (s.V.drop (j * (32 * r))) (128 * r)
  let (X, Z) := blockmix_salsa8 Y X Z r
  ⟨s.V, X, Y, Z⟩

/-- `B` is overwritten with the result; `s` is what the scratch memory held. -/
def smix (B : List UInt8) (r : Nat) (N : UInt64) (s : Scratch) : List UInt8 :=
  let X := (List.range (32 * r)).map fun k => le32dec (B.drop (4 * k))
  let s := Loop.run (fillTurn r) 0 2 ((N.toNat + 1) / 2) { s with X }
  let s := Loop.run (fun _ => mixInTurn r N) 0 2 ((N.toNat + 1) / 2) s
  s.X.flatMap le32enc

/-- The last block as a little-endian number. -/
def lastBlock {r : Nat} (B : Chunk r) : Nat :=
  Nat.ofDigits (2 ^ 32) (B[2 * r - 1]!.toList.map UInt32.toNat)

def xorChunk {r : Nat} (a b : Chunk r) : Chunk r := Vector.zipWith xorBlock a b

/-- ROMix on chunks of `2 * r` blocks. -/
def roMix (r N : Nat) (B : Chunk r) : Chunk r := RoMix.roMix (blockMix r) xorChunk lastBlock N B

theorem le32dec_toNat (b0 b1 b2 b3 : UInt8) (rest : List UInt8) :
    (le32dec (b0 :: b1 :: b2 :: b3 :: rest)).toNat
      = b0.toNat + 2 ^ 8 * b1.toNat + 2 ^ 16 * b2.toNat + 2 ^ 24 * b3.toNat := by
  have h0 := b0.toNat_lt
  have h1 := b1.toNat_lt
  have h2 := b2.toNat_lt
  have h3 := b3.toNat_lt
  simp [le32dec, byteAt, Nat.shiftLeft_eq]
  omega

theorem le32enc_eq (w : UInt32) :
    le32enc w = [UInt8.ofNat w.toNat, UInt8.ofNat (w.toNat / 2 ^ 8), UInt8.ofNat (w.toNat / 2 ^ 16),
      UInt8.ofNat (w.toNat / 2 ^ 24)] := by
  have low (y : UInt32) : (y &&& 0xff).toUInt8 = UInt8.ofNat y.toNat := by
    have hmask : y.toNat &&& 255 = y.toNat % 256 := Nat.and_two_pow_sub_one_eq_mod y.toNat 8
    apply UInt8.toNat_inj.mp
    rw [UInt32.toNat_toUInt8, UInt32.toNat_and, UInt8.toNat_ofNat']
    change (y.toNat &&& 255) % 256 = y.toNat % 256
    rw [hmask, Nat.mod_mod]
  simp [le32enc, low, Nat.shiftRight_eq_div_pow]

/-- A word, least significant byte first. -/
def wordLayout : Layout UInt8 UInt32 where
  width := 4
  write := le32enc
  read := le32dec
  write_length _ := rfl
  read_write w rest := by
    have hw := w.toNat_lt
    apply UInt32.toNat_inj.mp
    rw [le32enc_eq]
    change (le32dec (_ :: _ :: _ :: _ :: rest)).toNat = w.toNat
    simp only [le32dec_toNat, UInt8.toNat_ofNat']
    omega
  read_append buf more h := by
    obtain ⟨b0, b1, b2, b3, rest, rfl⟩ : ∃ b0 b1 b2 b3 rest, buf = b0 :: b1 :: b2 :: b3 :: rest := by
      match buf, h with
      | b0 :: b1 :: b2 :: b3 :: rest, _ => exact ⟨b0, b1, b2, b3, rest, rfl⟩
    rfl

theorem wordLayout_write_read (buf : List UInt8) (h : buf.length = wordLayout.width) :
    wordLayout.write (wordLayout.read buf) = buf := by
  obtain ⟨b0, b1, b2, b3, rfl⟩ : ∃ b0 b1 b2 b3, buf = [b0, b1, b2, b3] := by
    match buf, h with
    | [b0, b1, b2, b3], _ => exact ⟨b0, b1, b2, b3, rfl⟩
  have h0 := b0.toNat_lt
  have h1 := b1.toNat_lt
  have h2 := b2.toNat_lt
  have h3 := b3.toNat_lt
  have byte {n : Nat} {b : UInt8} (hb : n % 256 = b.toNat) : UInt8.ofNat n = b := by
    apply UInt8.toNat_inj.mp
    rw [UInt8.toNat_ofNat', ← hb]
  change le32enc (le32dec [b0, b1, b2, b3]) = _
  rw [le32enc_eq, le32dec_toNat, byte (b := b0) (by omega), byte (b := b1) (by omega),
    byte (b := b2) (by omega), byte (b := b3) (by omega)]

def chunkBytes (r : Nat) : Layout UInt8 (Chunk r) := (wordLayout.vec 16).vec (2 * r)

theorem chunkBytes_write {r : Nat} (c : Chunk r) :
    (chunkBytes r).write c = wordLayout.writeAll ((chunkLayout r).write c) := by
  have hwords : (chunkLayout r).write c = c.toList.flatMap Vector.toList := by
    change c.toList.flatMap (fun b => b.toList.flatMap fun w => [w]) = _
    simp only [List.flatMap_singleton']
  rw [hwords, Layout.writeAll, List.flatMap_assoc]
  rfl

/-- Entry `j` of the memory of a loop begins here. -/
theorem chunk_offset (r j : Nat) : j * (32 * r) = (chunkLayout r).width * j := by
  change j * (32 * r) = 1 * 16 * (2 * r) * j
  rw [Nat.mul_comm, Nat.one_mul, ← Nat.mul_assoc]

theorem length_chunk {r : Nat} (x : Chunk r) : ((chunkLayout r).write x).length = 128 * r / 4 := by
  rw [(chunkLayout r).write_length]
  change 1 * 16 * (2 * r) = 128 * r / 4
  omega

/-- Mixing entry `j` of the remembered chunks into a chunk. -/
theorem blkxor_chunk {r N : Nat} (x : Chunk r) (V : Vector (Chunk r) N) {j : Nat} (h : j < N) :
    blkxor ((chunkLayout r).write x) ((((chunkLayout r).vec N).write V).drop (j * (32 * r))) (128 * r)
      = (chunkLayout r).write (xorChunk x V[j]!) := by
  have hwidth : (chunkLayout r).width = 128 * r / 4 := by
    rw [← (chunkLayout r).write_length x, length_chunk]
  have hx := length_chunk x
  have hsrc := (chunkLayout r).take_vec V h
  rw [hwidth] at hsrc
  rw [blkxor, chunk_offset, hwidth, hsrc, List.take_of_length_le (by omega),
    List.drop_eq_nil_of_le (by omega), List.append_nil]
  exact Layout.zipWith_vec zipWith_block x V[j]!

/-- Remembering a chunk as entry `j`. -/
theorem blkcpy_chunk {r N : Nat} (V : Vector (Chunk r) N) (x : Chunk r) {j : Nat} (h : j < N) :
    blkcpy (((chunkLayout r).vec N).write V) (j * (32 * r)) ((chunkLayout r).write x) (128 * r)
      = ((chunkLayout r).vec N).write (V.set! j x) := by
  rw [blkcpy, List.take_of_length_le (by rw [length_chunk]), chunk_offset]
  exact (chunkLayout r).writeAt_vec V x h

/-- The index into a power of two many entries is the last block modulo their number. -/
theorem integerify_eq {r n : Nat} (hr : 1 ≤ r) (hn : n < 64) (B : Chunk r) {N : UInt64}
    (hN : N.toNat = 2 ^ n) :
    (integerify ((chunkLayout r).write B) r &&& (N - 1)).toNat = lastBlock B % 2 ^ n := by
  generalize hlast : B[2 * r - 1]! = last
  obtain ⟨w0, w1, ws, hws⟩ : ∃ w0 w1 ws, last.toList = w0 :: w1 :: ws := by
    obtain ⟨⟨words⟩, hsize⟩ := last
    match words, hsize with
    | w0 :: w1 :: ws, _ => exact ⟨w0, w1, ws, rfl⟩
  have hfront : (((chunkLayout r).write B).drop ((2 * r - 1) * 16)).take 16 = last.toList := by
    have := blockLayout.take_vec B (i := 2 * r - 1) (by omega)
    rw [hlast] at this
    rw [Nat.mul_comm]
    refine this.trans ?_
    change last.toList.flatMap (fun w => [w]) = _
    rw [List.flatMap_singleton']
  have hwords : ((chunkLayout r).write B).drop ((2 * r - 1) * 16)
      = w0 :: w1 :: (ws ++ (((chunkLayout r).write B).drop ((2 * r - 1) * 16)).drop 16) := by
    conv => lhs; rw [← List.take_append_drop 16 (List.drop _ _), hfront, hws]
    rfl
  have hvalue : (integerify ((chunkLayout r).write B) r).toNat = w0.toNat + 2 ^ 32 * w1.toNat := by
    have h0 := w0.toNat_lt
    have h1 := w1.toNat_lt
    rw [integerify, hwords]
    simp [Nat.shiftLeft_eq]
    omega
  have hmask : (N - 1).toNat = 2 ^ n - 1 := by
    have hpos : 0 < N.toNat := by rw [hN]; exact Nat.two_pow_pos n
    rw [UInt64.toNat_sub_of_le N 1 (UInt64.le_iff_toNat_le.mpr hpos), hN, UInt64.toNat_one]
  have hdvd : (2 : Nat) ^ n ∣ 2 ^ 64 := Nat.pow_dvd_pow 2 (by omega)
  rw [UInt64.toNat_and, hmask, Nat.and_two_pow_sub_one_eq_mod, hvalue, lastBlock, hlast, hws]
  simp only [List.map_cons, Nat.ofDigits_cons]
  generalize Nat.ofDigits (2 ^ 32) (ws.map UInt32.toNat) = high
  obtain ⟨k, hk⟩ := hdvd
  have hsplit : w0.toNat + 2 ^ 32 * (w1.toNat + 2 ^ 32 * high)
      = w0.toNat + 2 ^ 32 * w1.toNat + 2 ^ n * (k * high) := by
    rw [← Nat.mul_assoc (2 ^ n), ← hk, Nat.mul_add, ← Nat.mul_assoc]
    omega
  rw [hsplit, Nat.add_mul_mod_self_left]

theorem fillTurn_eq {r N : Nat} (hr : 1 ≤ r) (V : Vector (Chunk r) N) (x y : Chunk r)
    {Z : List UInt32} (hZ : Z.length = 16) {i : Nat} (hi : i + 1 < N) :
    ∃ z : Block, fillTurn r i
        ⟨((chunkLayout r).vec N).write V, (chunkLayout r).write x, (chunkLayout r).write y, Z⟩
      = ⟨((chunkLayout r).vec N).write ((V.set! i x).set! (i + 1) (blockMix r x)),
          (chunkLayout r).write (blockMix r (blockMix r x)), (chunkLayout r).write (blockMix r x), blockLayout.write z⟩ := by
  obtain ⟨z, hfirst⟩ := blockmix_salsa8_eq hr x y hZ
  obtain ⟨z', hsecond⟩ := blockmix_salsa8_eq hr (blockMix r x) x (blockLayout.write_length z)
  refine ⟨z', ?_⟩
  rw [fillTurn]
  dsimp only
  rw [hfirst]
  dsimp only
  rw [hsecond, blkcpy_chunk V x (show i < N by omega), blkcpy_chunk _ _ hi]

theorem mixInTurn_eq {r n : Nat} (hr : 1 ≤ r) (hn : n < 64) {N : UInt64} (hN : N.toNat = 2 ^ n)
    (V : Vector (Chunk r) (2 ^ n)) (x : Chunk r) (hV : ∀ j < 2 ^ n, V[j]! = (blockMix r)^[j] x)
    (y y' : Chunk r) {Z : List UInt32} (hZ : Z.length = 16) :
    ∃ (z : Block) (w : Chunk r), mixInTurn r N
        ⟨((chunkLayout r).vec (2 ^ n)).write V, (chunkLayout r).write y, (chunkLayout r).write y', Z⟩
      = ⟨((chunkLayout r).vec (2 ^ n)).write V,
          (chunkLayout r).write ((RoMix.mixStep (blockMix r) xorChunk lastBlock (2 ^ n) x)^[2] y),
          (chunkLayout r).write w, blockLayout.write z⟩ := by
  have hlt (c : Chunk r) : lastBlock c % 2 ^ n < 2 ^ n := Nat.mod_lt _ (Nat.two_pow_pos n)
  have hstep (c : Chunk r) : blockMix r (xorChunk c V[lastBlock c % 2 ^ n]!)
      = RoMix.mixStep (blockMix r) xorChunk lastBlock (2 ^ n) x c := by
    rw [hV _ (hlt c), RoMix.mixStep]
  obtain ⟨z, hfirst⟩ := blockmix_salsa8_eq hr (xorChunk y V[lastBlock y % 2 ^ n]!) y' hZ
  generalize hw : blockMix r (xorChunk y V[lastBlock y % 2 ^ n]!) = w at hfirst
  obtain ⟨z', hsecond⟩ := blockmix_salsa8_eq hr (xorChunk w V[lastBlock w % 2 ^ n]!)
    (xorChunk y V[lastBlock y % 2 ^ n]!) (blockLayout.write_length z)
  refine ⟨z', xorChunk w V[lastBlock w % 2 ^ n]!, ?_⟩
  rw [mixInTurn]
  dsimp only
  rw [integerify_eq hr hn y hN, blkxor_chunk y V (hlt y), hfirst]
  dsimp only
  rw [integerify_eq hr hn w hN, blkxor_chunk w V (hlt w), hsecond]
  have hy : w = RoMix.mixStep (blockMix r) xorChunk lastBlock (2 ^ n) x y := hw ▸ hstep y
  have hx : blockMix r (xorChunk w V[lastBlock w % 2 ^ n]!)
      = (RoMix.mixStep (blockMix r) xorChunk lastBlock (2 ^ n) x)^[2] y := by
    rw [hstep w, hy]
    rfl
  rw [hx]

theorem load_words (ws : List UInt32) :
    (List.range ws.length).map (fun k => le32dec ((wordLayout.writeAll ws).drop (4 * k))) = ws := by
  apply List.ext_getElem
  · simp
  · intro i hi hi'
    have hread := wordLayout.read_drop_writeAll [] hi'
    rw [List.append_nil] at hread
    rw [List.getElem_map, List.getElem_range]
    exact hread

theorem exists_chunk {r : Nat} {buf : List UInt32} (h : buf.length = 32 * r) :
    ∃ c : Chunk r, (chunkLayout r).write c = buf := by
  have hsymbol (buf : List UInt32) (h : buf.length = 1) :
      (Layout.symbol 0).write ((Layout.symbol (0 : UInt32)).read buf) = buf := by
    match buf, h with
    | [w], _ => rfl
  have hblock (buf : List UInt32) (h : buf.length = blockLayout.width) :
      blockLayout.write (blockLayout.read buf) = buf :=
    Layout.write_read_vec _ hsymbol 16 h
  refine ⟨_, blockLayout.write_read_vec hblock (2 * r) ?_⟩
  change buf.length = 1 * 16 * (2 * r)
  omega

theorem exists_chunks {r N : Nat} {buf : List UInt32} (h : buf.length = 32 * r * N) :
    ∃ V : Vector (Chunk r) N, ((chunkLayout r).vec N).write V = buf := by
  have hwidth : (chunkLayout r).width = 32 * r := by
    change 1 * 16 * (2 * r) = 32 * r
    omega
  refine ⟨_, (chunkLayout r).write_read_vec (fun b hb => ?_) N (by rw [h, hwidth])⟩
  obtain ⟨c, rfl⟩ := exists_chunk (r := r) (hwidth ▸ hb)
  have hread := (chunkLayout r).read_write c []
  rw [List.append_nil] at hread
  rw [hread]

/-- `s` is large enough for `N` entries. -/
structure Scratch.Sized (s : Scratch) (r N : Nat) : Prop where
  V : s.V.length = 32 * r * N
  Y : s.Y.length = 32 * r
  Z : s.Z.length = 16

/-- After the first half every iterate is in memory, two of them a turn. -/
theorem fillLoop_eq {r n : Nat} (hr : 1 ≤ r) (m : Nat) (hm : 2 * m = 2 ^ n) {s : Scratch}
    (hs : s.Sized r (2 ^ n)) (c : Chunk r) :
    ∃ (V : Vector (Chunk r) (2 ^ n)) (y : Chunk r) (z : List UInt32),
      Loop.run (fillTurn r) 0 2 m { s with X := (chunkLayout r).write c }
          = ⟨((chunkLayout r).vec (2 ^ n)).write V, (chunkLayout r).write ((blockMix r)^[2 ^ n] c),
              (chunkLayout r).write y, z⟩ ∧
        z.length = 16 ∧ ∀ j < 2 ^ n, V[j]! = (blockMix r)^[j] c := by
  obtain ⟨V₀, hV₀⟩ := exists_chunks hs.V
  obtain ⟨y₀, hy₀⟩ := exists_chunk hs.Y
  let P (k : Nat) (s : Scratch) : Prop :=
    ∃ (V : Vector (Chunk r) (2 ^ n)) (y : Chunk r) (z : List UInt32),
      s = ⟨((chunkLayout r).vec (2 ^ n)).write V, (chunkLayout r).write ((blockMix r)^[2 * k] c),
        (chunkLayout r).write y, z⟩ ∧ z.length = 16 ∧ ∀ j < 2 * k, V[j]! = (blockMix r)^[j] c
  have hall : P m (Loop.run (fillTurn r) 0 2 m { s with X := (chunkLayout r).write c }) := by
    refine Loop.run_invariant (P := P) ⟨V₀, y₀, s.Z, ?_, hs.Z, fun j hj => absurd hj (by omega)⟩ ?_
    · rw [hV₀, hy₀]
      rfl
    rintro k s hk ⟨V, y, z, rfl, hz, hV⟩
    obtain ⟨z', hturn⟩ := fillTurn_eq hr V ((blockMix r)^[2 * k] c) y hz (i := 2 * k) (by omega)
    have hnext : blockMix r (blockMix r ((blockMix r)^[2 * k] c)) = (blockMix r)^[2 * (k + 1)] c := by
      rw [Nat.mul_succ, Function.iterate_succ_apply', Function.iterate_succ_apply']
    rw [Nat.zero_add, hturn, hnext]
    refine ⟨_, _, _, rfl, blockLayout.write_length z', fun j hj => ?_⟩
    rw [Loop.get_set _ _ _ (by omega), Loop.get_set _ _ _ (by omega)]
    rcases Nat.lt_or_ge j (2 * k) with hlt | hge
    · rw [if_neg (by omega), if_neg (by omega)]
      exact hV j hlt
    · split
      · next h => rw [← h, Function.iterate_succ_apply']
      · next h =>
          obtain rfl : j = 2 * k := by omega
          rw [if_pos rfl]
  obtain ⟨V, y, z, heq, hz, hV⟩ := hall
  rw [hm] at heq hV
  exact ⟨V, y, z, heq, hz, hV⟩

/-- The second half makes two steps a turn and leaves the entries as they are. -/
theorem mixInLoop_eq {r n : Nat} (hr : 1 ≤ r) (hn : n < 64) {N : UInt64} (hN : N.toNat = 2 ^ n)
    (V : Vector (Chunk r) (2 ^ n)) (c : Chunk r) (hV : ∀ j < 2 ^ n, V[j]! = (blockMix r)^[j] c)
    (m : Nat) (x y : Chunk r) {Z : List UInt32} (hZ : Z.length = 16) :
    (Loop.run (fun _ => mixInTurn r N) 0 2 m
        ⟨((chunkLayout r).vec (2 ^ n)).write V, (chunkLayout r).write x, (chunkLayout r).write y,
          Z⟩).X
      = (chunkLayout r).write
          ((RoMix.mixStep (blockMix r) xorChunk lastBlock (2 ^ n) c)^[2 * m] x) := by
  let step : Chunk r → Chunk r := RoMix.mixStep (blockMix r) xorChunk lastBlock (2 ^ n) c
  let P (k : Nat) (s : Scratch) : Prop := ∃ (y : Chunk r) (z : List UInt32),
    s = ⟨((chunkLayout r).vec (2 ^ n)).write V, (chunkLayout r).write (step^[2 * k] x),
      (chunkLayout r).write y, z⟩ ∧ z.length = 16
  have hall : P m (Loop.run (fun _ => mixInTurn r N) 0 2 m
      ⟨((chunkLayout r).vec (2 ^ n)).write V, (chunkLayout r).write x, (chunkLayout r).write y,
        Z⟩) := by
    refine Loop.run_invariant (P := P) ⟨y, Z, rfl, hZ⟩ ?_
    rintro k s - ⟨y, z, rfl, hz⟩
    obtain ⟨z', w, hturn⟩ := mixInTurn_eq hr hn hN V c hV (step^[2 * k] x) y hz
    have hnext : step^[2] (step^[2 * k] x) = step^[2 * (k + 1)] x := by
      rw [← Function.iterate_add_apply, Nat.mul_succ, Nat.add_comm]
    rw [hturn]
    exact ⟨w, _, by rw [← hnext], blockLayout.write_length z'⟩
  obtain ⟨_, _, heq, -⟩ := hall
  rw [heq]

/-- Sequential mixing in place, for a number of entries that is a power of two
greater than one. -/
theorem smix_write {r n : Nat} (hr : 1 ≤ r) (hn1 : 1 ≤ n) (hn : n < 64) {N : UInt64}
    (hN : N.toNat = 2 ^ n) {s : Scratch} (hs : s.Sized r (2 ^ n)) (c : Chunk r) :
    smix ((chunkBytes r).write c) r N s = (chunkBytes r).write (roMix r (2 ^ n) c) := by
  obtain ⟨hturns, hm⟩ : (N.toNat + 1) / 2 = 2 ^ (n - 1) ∧ 2 * 2 ^ (n - 1) = 2 ^ n := by
    obtain ⟨m, rfl⟩ : ∃ m, n = m + 1 := ⟨n - 1, by omega⟩
    rw [hN, Nat.pow_succ, Nat.add_sub_cancel]
    omega
  have hload : (List.range (32 * r)).map (fun k => le32dec (((chunkBytes r).write c).drop (4 * k)))
      = (chunkLayout r).write c := by
    have hlen : ((chunkLayout r).write c).length = 32 * r := by
      rw [length_chunk]
      omega
    rw [chunkBytes_write, ← hlen, load_words]
  obtain ⟨V, y, z, hfill, hz, hV⟩ := fillLoop_eq hr (2 ^ (n - 1)) hm hs c
  rw [smix, hload, hturns, hfill, mixInLoop_eq hr hn hN V c hV _ _ y hz, hm, chunkBytes_write,
    roMix, RoMix.roMix]
  rfl

/-! ## The hash -/

/-- The scratch memory, the part of it that holds `B`, and the uninitialised
contexts of the two derivations. -/
structure Scratchpad where
  first : HMAC_SHA256_CTX
  second : HMAC_SHA256_CTX
  B : List UInt8
  mem : Scratch

structure Scratchpad.Sized (pad : Scratchpad) (r N : Nat) : Prop where
  B : pad.B.length = 128 * r
  mem : pad.mem.Sized r N

/-- `p` is one; `input` has the length that is passed. -/
def scrypt_N_R_1_256_sp (pad : Scratchpad) (input output : List UInt8) (N R : UInt32) :
    List UInt8 :=
  let mfLen := (1 * 128 * R).toNat
  let B := PBKDF2_SHA256 pad.first input input 1 pad.B mfLen
  let B := smix B R.toNat N.toUInt64 pad.mem
  PBKDF2_SHA256 pad.second input B 1 output 32

/-- Memory at an address, with what it holds. -/
structure Memory where
  address : UInt64
  bytes : List UInt8

namespace Memory

/-- How far the next multiple of 64 is. -/
def skipped (memory : Memory) : Nat :=
  ((memory.address + 63) &&& ~~~63).toNat - memory.address.toNat

/-- The whole words among the first `4 * count` bytes from an offset on. -/
def words (memory : Memory) (offset count : Nat) : List UInt32 :=
  let region := (memory.bytes.drop offset).take (4 * count)
  (List.range (region.length / 4)).map fun k => le32dec (region.drop (4 * k))

/-- `B`, `XY` and `V` in a scratchpad. -/
def carve (memory : Memory) (first second : HMAC_SHA256_CTX) (N R : Nat) : Scratchpad :=
  let B := memory.skipped
  let XY := B + 128 * R
  let V := B + 128 * R + (256 * R + 64)
  { first, second
    B := (memory.bytes.drop B).take (128 * R)
    mem := {
      X := memory.words XY (32 * R)
      Y := memory.words (XY + 128 * R) (32 * R)
      Z := memory.words (XY + 256 * R) 16
      V := memory.words V (32 * R * N) } }

end Memory

/-- What is allocated, as the product of `uint32_t`s it is. -/
def scratchpadSize (N R : UInt32) : UInt32 := 128 * N * R + (128 * R) + (256 * R) + 64 + 64

/-- The memory of a call: two local contexts and the scratchpad. -/
structure CallMemory where
  first : HMAC_SHA256_CTX
  second : HMAC_SHA256_CTX
  scratchpad : Memory

/-- Enough memory, at addresses there are. -/
structure CallMemory.Holds (m : CallMemory) (n : Nat) : Prop where
  size : m.scratchpad.bytes.length = n
  inSpace : m.scratchpad.address.toNat + n ≤ 2 ^ 64

def scrypt_N_R_1_256 (m : CallMemory) (input output : List UInt8) (N R : UInt32) : List UInt8 :=
  scrypt_N_R_1_256_sp (m.scratchpad.carve m.first m.second N.toNat R.toNat) input output N R

/-- The same body with constants; eighty bytes are read. -/
def scrypt_1024_1_1_256 (m : CallMemory) (input output : List UInt8) : List UInt8 :=
  scrypt_N_R_1_256_sp (m.scratchpad.carve m.first m.second 1024 1) (input.take 80) output 1024 1

/-- The mixing of block `i` of the derived bytes. -/
def mixedPart (B : List UInt8) (r N i : Nat) : List UInt8 :=
  (chunkBytes r).write (roMix r N ((chunkBytes r).read (B.drop (i * (128 * r)))))

/-- The scrypt function: password, salt, cost, block size, parallelization and length. -/
def scrypt (P S : List UInt8) (N r p dkLen : Nat) : List UInt8 :=
  let B := pbkdf2 P S 1 (p * (128 * r))
  pbkdf2 P ((List.range p).flatMap (mixedPart B r N)) 1 dkLen

theorem length_pbkdf2 (P S : List UInt8) (c dkLen : Nat) : (pbkdf2 P S c dkLen).length = dkLen :=
  Kdf.length_pbkdf2 (length_hmac P) (by decide) dkLen

@[simp] theorem length_scrypt (P S : List UInt8) (N r p dkLen : Nat) :
    (scrypt P S N r p dkLen).length = dkLen := length_pbkdf2 _ _ _ _

theorem smix_eq {r n : Nat} (hr : 1 ≤ r) (hn1 : 1 ≤ n) (hn : n < 64) {N : UInt64}
    (hN : N.toNat = 2 ^ n) {s : Scratch} (hs : s.Sized r (2 ^ n)) {B : List UInt8}
    (hB : B.length = 128 * r) : smix B r N s = mixedPart B r (2 ^ n) 0 := by
  have hblock (buf : List UInt8) (h : buf.length = (wordLayout.vec 16).width) :
      (wordLayout.vec 16).write ((wordLayout.vec 16).read buf) = buf :=
    wordLayout.write_read_vec wordLayout_write_read 16 h
  have hwhole : (chunkBytes r).write ((chunkBytes r).read B) = B :=
    Layout.write_read_vec _ hblock (2 * r) (by change B.length = 4 * 16 * (2 * r); omega)
  rw [mixedPart, Nat.zero_mul, List.drop_zero]
  conv => lhs; rw [← hwhole]
  exact smix_write hr hn1 hn hN hs _

theorem scrypt_sp_eq {pad : Scratchpad} {N R : UInt32} {n : Nat} (hR : 1 ≤ R.toNat)
    (hfit : 128 * R.toNat < 2 ^ 32) (hn1 : 1 ≤ n) (hN : N.toNat = 2 ^ n)
    (hpad : pad.Sized R.toNat (2 ^ n)) (input : List UInt8) {output : List UInt8}
    (hout : output.length = 32) :
    scrypt_N_R_1_256_sp pad input output N R = scrypt input input N.toNat R.toNat 1 32 := by
  have hn : n < 32 := by
    have := N.toNat_lt
    rw [hN] at this
    exact (Nat.pow_lt_pow_iff_right (by decide)).mp this
  have hlen : (1 * 128 * R).toNat = 128 * R.toNat := by
    rw [UInt32.toNat_mul]
    change 128 * R.toNat % 2 ^ 32 = 128 * R.toNat
    exact Nat.mod_eq_of_lt hfit
  have hderive (ctx : HMAC_SHA256_CTX) (P S : List UInt8) {buf : List UInt8} {dkLen : Nat}
      (h : buf.length = dkLen) : PBKDF2_SHA256 ctx P S 1 buf dkLen = pbkdf2 P S 1 dkLen :=
    outerLoop_eq (keyed_start ctx P S) 1 h
  rw [scrypt_N_R_1_256_sp, hlen, hderive _ _ _ hpad.B, hderive _ _ _ hout]
  rw [smix_eq hR hn1 (by omega) (by rw [UInt32.toNat_toUInt64, hN]) hpad.mem (length_pbkdf2 _ _ _ _),
    scrypt, Nat.one_mul, List.range_one, List.flatMap_singleton, hN]

/-! ### The scratchpad is large enough -/

namespace Memory

/-- At most 63 bytes are skipped, if the address space does not end there. -/
theorem skipped_le (memory : Memory) (h : memory.address.toNat + 63 < 2 ^ 64) :
    memory.skipped ≤ 63 := by
  have hsum : (memory.address + 63).toNat = memory.address.toNat + 63 := by
    rw [UInt64.toNat_add]
    exact Nat.mod_eq_of_lt h
  have hand : ((memory.address + 63) &&& ~~~63).toNat ≤ (memory.address + 63).toNat := by
    rw [UInt64.toNat_and]
    exact Nat.and_le_left
  rw [skipped]
  omega

theorem length_words (memory : Memory) {offset count : Nat}
    (h : offset + 4 * count ≤ memory.bytes.length) : (memory.words offset count).length = count := by
  have hregion : ((memory.bytes.drop offset).take (4 * count)).length = 4 * count := by
    rw [List.length_take, List.length_drop]
    omega
  rw [words, List.length_map, List.length_range, hregion, Nat.mul_div_cancel_left _ (by decide)]

theorem carve_sized (memory : Memory) (first second : HMAC_SHA256_CTX) {N R : Nat}
    (hspace : memory.address.toNat + 63 < 2 ^ 64)
    (hsize : 63 + 128 * R + (256 * R + 64) + 128 * R * N ≤ memory.bytes.length) :
    (memory.carve first second N R).Sized R N := by
  have hskip := memory.skipped_le hspace
  have hV : 4 * (32 * R * N) = 128 * R * N := by ring
  refine ⟨?_, memory.length_words ?_, memory.length_words ?_, memory.length_words ?_⟩
  · simp only [carve, List.length_take, List.length_drop]
    omega
  all_goals omega

end Memory

theorem scratchpadSize_toNat {N R : UInt32}
    (h : 128 * N.toNat * R.toNat + 384 * R.toNat + 128 < 2 ^ 32) :
    (scratchpadSize N R).toNat = 128 * N.toNat * R.toNat + 384 * R.toNat + 128 := by
  have hsum : scratchpadSize N R
      = UInt32.ofNat (128 * N.toNat * R.toNat + 128 * R.toNat + 256 * R.toNat + 64 + 64) := by
    simp only [UInt32.ofNat_add, UInt32.ofNat_mul, UInt32.ofNat_toNat]
    rfl
  rw [hsum, UInt32.toNat_ofNat_of_lt' (by change _ < 2 ^ 32; omega)]
  omega

/-- **The proof of work**, with the memory the code takes for it: if the size that
is allocated does not wrap, every read and write is inside the allocation, and
the result is the standard's, whatever the memory held and wherever it is. -/
theorem scrypt_N_R_1_256_eq {N R : UInt32} {n : Nat} (hR : 1 ≤ R.toNat) (hn : 1 ≤ n)
    (hN : N.toNat = 2 ^ n) (hfit : 128 * N.toNat * R.toNat + 384 * R.toNat + 128 < 2 ^ 32)
    {m : CallMemory} (hm : m.Holds (scratchpadSize N R).toNat) (input : List UInt8)
    {output : List UInt8} (hout : output.length = 32) :
    (m.scratchpad.carve m.first m.second N.toNat R.toNat).Sized R.toNat N.toNat ∧
    scrypt_N_R_1_256 m input output N R = scrypt input input N.toNat R.toNat 1 32 := by
  have hsize := hm.size
  have hspace := hm.inSpace
  rw [scratchpadSize_toNat hfit] at hsize hspace
  have hV : 128 * R.toNat * N.toNat = 128 * N.toNat * R.toNat := by ring
  have hsized := m.scratchpad.carve_sized m.first m.second
    (show m.scratchpad.address.toNat + 63 < 2 ^ 64 by omega)
    (show 63 + 128 * R.toNat + (256 * R.toNat + 64) + 128 * R.toNat * N.toNat ≤ _ by omega)
  refine ⟨hsized, ?_⟩
  rw [hN] at hsized
  rw [scrypt_N_R_1_256, hN, scrypt_sp_eq hR (by omega) hn hN hsized input hout, hN]

/-- Two entries of `V`, in memory that holds something else. -/
theorem scrypt_N_R_1_256_eq_two :
    scrypt_N_R_1_256 ⟨.cleared, .cleared, ⟨72, List.replicate 768 0xaa⟩⟩ [1, 2, 3]
        (List.replicate 32 0) 2 1
      = scrypt [1, 2, 3] [1, 2, 3] 2 1 1 32 :=
  (@scrypt_N_R_1_256_eq 2 1 1 (by decide) (by decide) (by decide) (by decide)
    ⟨.cleared, .cleared, ⟨72, List.replicate 768 0xaa⟩⟩
    ⟨List.length_replicate, by decide⟩ [1, 2, 3] _ List.length_replicate).2

/-- The array of the dispatcher is exactly as large as the comment asks for. -/
theorem scrypt_1024_1_1_256_eq {m : CallMemory} (hm : m.Holds 131583) (input : List UInt8)
    {output : List UInt8} (hout : output.length = 32) :
    scrypt_1024_1_1_256 m input output
      = scrypt (input.take 80) (input.take 80) 1024 1 1 32 := by
  have hspace := hm.inSpace
  have hsized := m.scratchpad.carve_sized (N := 1024) (R := 1) m.first m.second (by omega)
    (by rw [hm.size])
  exact scrypt_sp_eq (n := 10) (by decide) (by decide) (by decide) rfl hsized _ hout

end DogeConnect.Scrypt
