/-
The bundled pool: a block template's job parameters and header.

`utils.js`, `template.js` and the header path of `manager.js`.  A Node `Buffer`
is a byte list.  The functions of the `Buffer` API that range-check their
arguments return `none` where Node throws.

The pool keeps the header back to front: every field is written most
significant byte first, in reverse order, and the whole is reversed at the end.

    writeFields_zeros     strings written one behind the other
    handleHeader_eq       the header it leaves, field by field
    getMerkleSteps_eq     the steps are the siblings of the coinbase
    fastRoot_eq           folding them over the coinbase hash gives the root

The tree library is a parameter, with what is documented of it as a structure.
-/
import DogeConnect.HashUtil
import DogeConnect.Json
import DogeConnect.Lib.Merkle
import DogeConnect.Lib.Writes

namespace DogeConnect

open Writes

/-! ## Node buffers -/

/-- `Buffer.from(s, 'hex')`: decoding stops at the first pair that is not two
hex digits. -/
def bufferFromHex : Str → List UInt8
  | a :: b :: rest =>
      match hexVal a, hexVal b with
      | some x, some y => UInt8.ofNat (x * 16 + y) :: bufferFromHex rest
      | _, _ => []
  | _ => []

/-- `buffer.toString('hex')`. -/
def toHex (buffer : List UInt8) : Str := buffer.flatMap byteToHex

/-- `buffer.write(s, offset, length, 'hex')`: at most `length` decoded bytes,
and no more than there is room for. -/
def bufferWrite (buffer : List UInt8) (s : Str) (offset length : Nat) : List UInt8 :=
  writeAt buffer (offset, (bufferFromHex s).take (min length (buffer.length - offset)))

/-- The four bytes of an unsigned 32-bit number, most significant first. -/
def bigEndian32 (num : Nat) : List UInt8 := (leBytes 4 num).reverse

/-- `buffer.writeUInt32BE(num, offset)`. -/
def writeUInt32BE (buffer : List UInt8) (num : Int) (offset : Nat) : Option (List UInt8) :=
  if 0 ≤ num ∧ num < 2 ^ 32 ∧ offset + 4 ≤ buffer.length then
    some (writeAt buffer (offset, bigEndian32 num.toNat))
  else none

/-- `packUInt32BE`. -/
def packUInt32BE (num : Int) : Option (List UInt8) :=
  writeUInt32BE (List.replicate 4 0) num 0

/-- `packInt32BE`: `writeInt32BE` takes the signed range and writes two's
complement. -/
def packInt32BE (num : Int) : Option (List UInt8) :=
  if -(2 ^ 31) ≤ num ∧ num < 2 ^ 31 then some (bigEndian32 (num % 2 ^ 32).toNat) else none

def reverseBuffer (buff : List UInt8) : List UInt8 := buff.reverse

/-- The loop of `reverseByteOrder`: `words` times `readUInt32BE`, written back
with `writeUInt32LE`; reading past the end throws. -/
def swapWords : Nat → List UInt8 → Option (List UInt8)
  | 0, bs => some bs
  | words + 1, a :: b :: c :: d :: rest => (swapWords words rest).map ([d, c, b, a] ++ ·)
  | _ + 1, _ => none

def reverseByteOrder (buff : List UInt8) : Option (List UInt8) :=
  (swapWords 8 buff).map reverseBuffer

/-- `uint256BufferFromHash`: short input is padded with zeros, long input cut. -/
def uint256BufferFromHash (hex : Str) : List UInt8 :=
  let fromHex := bufferFromHex hex
  let fromHex := if fromHex.length ≠ 32 then (ByteArr.copy 32 fromHex).toList else fromHex
  reverseBuffer fromHex

/-! ## Templates -/

/-- A transaction of the block template. -/
structure Transaction where
  txid : Option Str
  hash : Str
  deriving DecidableEq, Repr

/-- The fields of `getblocktemplate` that job parameters and header use. -/
structure RpcData where
  previousblockhash : Str
  bits : Str
  version : Int
  curtime : Int
  transactions : List Transaction
  deriving DecidableEq, Repr

/-- `convertHashToBuffer`. -/
def convertHashToBuffer (txs : List Transaction) : List (List UInt8) :=
  txs.map fun tx => match tx.txid with
    | some txid => uint256BufferFromHash txid
    | none => uint256BufferFromHash tx.hash

/-- The functions of `merkle-lib`: a tree of given leaves under a digest, the
proof of a leaf in it (`null` for a node that can be derived), and the root. -/
structure MerkleLib where
  Tree : Type
  merkleTree : List (List UInt8) → (List UInt8 → List UInt8) → Tree
  merkleProof : Tree → List UInt8 → List (Option (List UInt8))
  fastRoot : List (List UInt8) → (List UInt8 → List UInt8) → List UInt8

/-- The parent of two nodes under a digest. -/
def combineWith (digest : List UInt8 → List UInt8) (l r : List UInt8) : List UInt8 := digest (l ++ r)

/-- What is relied on: `fastRoot` is the root of the Bitcoin tree, and the proof
of the first leaf has the documented layout. -/
structure MerkleLib.Correct (lib : MerkleLib) : Prop where
  fastRoot : ∀ digest leaf rest,
    Merkle.rootOf (combineWith digest) (leaf :: rest) = some (lib.fastRoot (leaf :: rest) digest)
  merkleProof : ∀ digest leaf rest,
    lib.merkleProof (lib.merkleTree (leaf :: rest) digest) leaf
      = Merkle.firstProof (combineWith digest) leaf rest

/-- A `Template` after construction.  `generation` is what
`Transactions.handleGeneration` returned: the coinbase before and after the
extra nonces. -/
structure Template where
  jobId : Str
  rpcData : RpcData
  generation : List UInt8 × List UInt8
  deriving DecidableEq, Repr

section
variable (lib : MerkleLib) (doubleSHA256 : List UInt8 → ByteArr 32)

/-- `utils.sha256d` as the digest given to the tree library. -/
def sha256d (buffer : List UInt8) : List UInt8 := (doubleSHA256 buffer).toList

/-- `getMerkleSteps`: an empty buffer stands for the coinbase. -/
def getMerkleSteps (transactions : List Transaction) : List (List UInt8) :=
  let hashes := convertHashToBuffer transactions
  let merkleData := [] :: hashes
  let merkleTreeFull := lib.merkleTree merkleData (sha256d doubleSHA256)
  ((lib.merkleProof merkleTreeFull []).drop 1).dropLast.reduceOption

namespace Template

/-- `this.previous`. -/
def previous (job : Template) : Option Str :=
  (reverseByteOrder (bufferFromHex job.rpcData.previousblockhash)).map toHex

/-- `this.steps`. -/
def steps (job : Template) : List (List UInt8) :=
  getMerkleSteps lib doubleSHA256 job.rpcData.transactions

/-- `handleParameters`: the parameters of `mining.notify`. -/
def handleParameters (job : Template) (cleanJobs : Bool) : Option (List Json) := do
  let previous ← job.previous
  let version ← packInt32BE job.rpcData.version
  let curtime ← packUInt32BE job.rpcData.curtime
  return [
    .string job.jobId,
    .string previous,
    .string (toHex job.generation.1),
    .string (toHex job.generation.2),
    .array ((job.steps lib doubleSHA256).map fun step => .string (toHex step)),
    .string (toHex version),
    .string job.rpcData.bits,
    .string (toHex curtime),
    .boolean cleanJobs]

def handleCoinbase (job : Template) (extraNonce1 extraNonce2 : List UInt8) : List UInt8 :=
  job.generation.1 ++ extraNonce1 ++ extraNonce2 ++ job.generation.2

def handleHeader (job : Template) (version : Int) (merkleRoot : List UInt8) (nTime nonce : Str) :
    Option (List UInt8) := do
  let header := List.replicate 80 0
  let header := bufferWrite header nonce 0 4
  let header := bufferWrite header job.rpcData.bits 4 4
  let header := bufferWrite header nTime 8 4
  let header := bufferWrite header (toHex (reverseBuffer merkleRoot)) 12 32
  let header := bufferWrite header job.rpcData.previousblockhash 44 32
  let header ← writeUInt32BE header version 76
  return reverseBuffer header

end Template

/-! ## Shares -/

/-- The strings of a submission: the client's extraNonce1 and what the message
carried. -/
structure Submission where
  extraNonce1 : Str
  extraNonce2 : Str
  nTime : Str
  nonce : Str
  deriving DecidableEq, Repr

/-- How `pool.js` takes a submission from the message of `mining.submit`. -/
def Submission.ofMessage (extraNonce1 : Str) (message : Json) : Except JsonError Submission := do
  let params ← message.field "params".toList
  return {
    extraNonce1 := extraNonce1
    extraNonce2 := ← (← params.index 2).getString
    nTime := ← (← params.index 3).getString
    nonce := ← (← params.index 4).getString }

/-- `extraNonce2Size` of the manager: a 12-byte placeholder less 4 bytes of extraNonce1. -/
def extraNonce2Size : Nat := 8

/-- The checks of `handleShare` on the shape of a submission; lengths are
counted in characters, two to a byte. -/
def sizeError (submission : Submission) : Option (Nat × Str) :=
  if submission.extraNonce2.length ≠ 2 * extraNonce2Size then
    some (20, "incorrect size of extranonce2".toList)
  else if submission.nTime.length ≠ 8 then some (20, "incorrect size of ntime".toList)
  else if submission.nonce.length ≠ 8 then some (20, "incorrect size of nonce".toList)
  else none

/-- `headerBuffer` of `Manager.handleShare`. -/
def headerBuffer (job : Template) (submission : Submission) : Option (List UInt8) :=
  let version := job.rpcData.version
  let extraNonce1Buffer := bufferFromHex submission.extraNonce1
  let extraNonce2Buffer := bufferFromHex submission.extraNonce2
  let coinbaseBuffer := job.handleCoinbase extraNonce1Buffer extraNonce2Buffer
  let coinbaseHash := sha256d doubleSHA256 coinbaseBuffer
  let hashes := convertHashToBuffer job.rpcData.transactions
  let transactions := coinbaseHash :: hashes
  let merkleRoot := lib.fastRoot transactions (sha256d doubleSHA256)
  job.handleHeader version merkleRoot submission.nTime submission.nonce

end

/-! ## Hex strings -/

@[simp] theorem toHex_length (buffer : List UInt8) : (toHex buffer).length = 2 * buffer.length :=
  bytesToHex_length buffer .BigEndian

@[simp] theorem bigEndian32_length (num : Nat) : (bigEndian32 num).length = 4 := by
  simp [bigEndian32]

theorem packUInt32BE_length {num : Int} {buffer : List UInt8} (h : packUInt32BE num = some buffer) :
    buffer.length = 4 := by
  unfold packUInt32BE writeUInt32BE at h
  split at h
  · cases h
    simp [writeAt]
  · cases h

theorem hexPairs_eq_bufferFromHex : ∀ {s : Str}, IsHex s → hexPairs s = bufferFromHex s
  | [], _ => rfl
  | [_], _ => rfl
  | a :: b :: rest, h => by
      obtain ⟨x, hx⟩ := Option.isSome_iff_exists.mp (h a List.mem_cons_self)
      obtain ⟨y, hy⟩ :=
        Option.isSome_iff_exists.mp (h b (List.mem_cons_of_mem _ List.mem_cons_self))
      have hrest : IsHex rest := fun c hc =>
        h c (List.mem_cons_of_mem _ (List.mem_cons_of_mem _ hc))
      rw [hexPairs, strtolHex_of_hexVal hx hy, toByte_natCast, hexPairs_eq_bufferFromHex hrest,
        bufferFromHex, hx, hy]

theorem hexVal_byteToHex (b : UInt8) : ∀ c ∈ byteToHex b, (hexVal c).isSome := by
  have hb : b.toNat < 256 := b.toNat_lt
  intro c hc
  simp only [byteToHex, List.mem_cons, List.not_mem_nil, or_false] at hc
  rcases hc with rfl | rfl
  · rw [hexVal_hexDigit (by omega)]; rfl
  · rw [hexVal_hexDigit (by omega)]; rfl

theorem isHex_toHex (buffer : List UInt8) : IsHex (toHex buffer) := by
  intro c hc
  obtain ⟨b, -, hb⟩ := List.mem_flatMap.mp hc
  exact hexVal_byteToHex b c hb

@[simp] theorem bufferFromHex_toHex (buffer : List UInt8) :
    bufferFromHex (toHex buffer) = buffer := by
  rw [← hexPairs_eq_bufferFromHex (isHex_toHex buffer)]
  exact hexPairs_flatMap buffer

theorem bufferFromHex_length {s : Str} (h : IsHex s) : (bufferFromHex s).length = s.length / 2 := by
  rw [← hexPairs_eq_bufferFromHex h, hexPairs_length]

/-! ## The header -/

/-- Decoding into a field of zeros: what is missing stays zero. -/
def hexField (n : Nat) (s : Str) : List UInt8 := (ByteArr.copy n (bufferFromHex s)).toList

@[simp] theorem hexField_length (n : Nat) (s : Str) : (hexField n s).length = n :=
  (ByteArr.copy n (bufferFromHex s)).length_toList

/-- A string that decodes to as many bytes as the field has fills it. -/
theorem hexField_eq {n : Nat} {s : Str} {bs : List UInt8} (hs : bufferFromHex s = bs)
    (h : bs.length = n) : hexField n s = bs := by
  rw [hexField, hs, ByteArr.copy_toList h]

theorem bufferWrite_zeros (front : List UInt8) (s : Str) {n k : Nat} (h : n ≤ k) :
    bufferWrite (front ++ List.replicate k 0) s front.length n
      = front ++ hexField n s ++ List.replicate (k - n) 0 := by
  have hmin : min n ((front ++ List.replicate k (0 : UInt8)).length - front.length) = n := by
    simp [h]
  rw [bufferWrite, hmin, hexField]
  generalize bufferFromHex s = bs
  have hzeros : List.replicate (k - (bs.take n).length) (0 : UInt8)
      = List.replicate (n - bs.length) 0 ++ List.replicate (k - n) 0 := by
    rw [← List.replicate_add, List.length_take]
    congr 1
    omega
  rw [writeAt, List.take_left, ← List.drop_drop, List.drop_left, List.drop_replicate, hzeros]
  simp only [ByteArr.copy, List.append_assoc]

/-- Strings written one behind the other, each into a field of its length. -/
def writeFields (buffer : List UInt8) (offset : Nat) : List (Str × Nat) → List UInt8
  | [] => buffer
  | (s, length) :: fields =>
      writeFields (bufferWrite buffer s offset length) (offset + length) fields

theorem writeFields_zeros : ∀ (fields : List (Str × Nat)) (front : List UInt8) {k : Nat},
    (fields.map Prod.snd).sum ≤ k →
    writeFields (front ++ List.replicate k 0) front.length fields
      = front ++ (fields.map fun field => hexField field.2 field.1).flatten
        ++ List.replicate (k - (fields.map Prod.snd).sum) 0
  | [], front, k, _ => by simp [writeFields]
  | (s, length) :: fields, front, k, h => by
      simp only [List.map_cons, List.sum_cons] at h
      have hfront : front.length + length = (front ++ hexField length s).length := by simp
      rw [writeFields, bufferWrite_zeros front s (by omega), hfront,
        writeFields_zeros fields (front ++ hexField length s) (by omega)]
      simp only [List.map_cons, List.flatten_cons, List.sum_cons, List.append_assoc, Nat.sub_sub]

/-- The fields of a header, in the order in which they are written. -/
def headerFields (job : Template) (version : Int) (merkleRoot : List UInt8) (nTime nonce : Str) :
    List (List UInt8) :=
  [hexField 4 nonce, hexField 4 job.rpcData.bits, hexField 4 nTime, merkleRoot.reverse,
    hexField 32 job.rpcData.previousblockhash, bigEndian32 version.toNat]

/-- The header of any strings, as long as the version fits its field. -/
theorem handleHeader_eq_flatten (job : Template) (version : Int) {merkleRoot : List UInt8}
    (hroot : merkleRoot.length = 32) (nTime nonce : Str) :
    job.handleHeader version merkleRoot nTime nonce
      = if 0 ≤ version ∧ version < 2 ^ 32 then
          some (headerFields job version merkleRoot nTime nonce).flatten.reverse
        else none := by
  have hfield : hexField 32 (toHex (reverseBuffer merkleRoot)) = merkleRoot.reverse :=
    hexField_eq (bufferFromHex_toHex _) (by simp [hroot])
  -- what the five strings leave, in front of the version
  obtain ⟨front, hfront⟩ : ∃ front, front = [hexField 4 nonce, hexField 4 job.rpcData.bits,
      hexField 4 nTime, hexField 32 (toHex (reverseBuffer merkleRoot)),
      hexField 32 job.rpcData.previousblockhash].flatten := ⟨_, rfl⟩
  have hwrites := writeFields_zeros [(nonce, 4), (job.rpcData.bits, 4), (nTime, 4),
    (toHex (reverseBuffer merkleRoot), 32), (job.rpcData.previousblockhash, 32)] []
    (show _ ≤ 80 by simp)
  simp only [List.map_cons, List.map_nil, List.sum_cons, List.sum_nil, List.nil_append,
    List.length_nil, Nat.reduceAdd, Nat.reduceSub, ← hfront] at hwrites
  have hheader : job.handleHeader version merkleRoot nTime nonce
      = (writeUInt32BE (front ++ List.replicate 4 0) version 76).map reverseBuffer := by
    rw [← hwrites]
    simp only [Template.handleHeader, writeFields, Nat.reduceAdd, bind_pure_comp,
      Option.map_eq_map]
  have hroom : front.length = 76 := by simp [hfront]
  rw [hheader, writeUInt32BE]
  by_cases hversion : 0 ≤ version ∧ version < 2 ^ 32
  · rw [if_pos ⟨hversion.1, hversion.2, by simp [hroom]⟩, if_pos hversion, writeAt, ← hroom,
      List.take_left, ← List.drop_drop, List.drop_left, hfront, hfield]
    simp [headerFields, reverseBuffer]
  · rw [if_neg (fun h => hversion ⟨h.1, h.2.1⟩), if_neg hversion]
    rfl

/-- A template as the daemon delivers it: the hex fields are hex of their
lengths, the version is not negative. -/
structure Template.WellFormed (job : Template) : Prop where
  previous_hex : IsHex job.rpcData.previousblockhash
  previous_length : job.rpcData.previousblockhash.length = 64
  bits_hex : IsHex job.rpcData.bits
  bits_length : job.rpcData.bits.length = 8
  version_nonneg : 0 ≤ job.rpcData.version
  version_lt : job.rpcData.version < 2 ^ 31

/-- The header of a well-formed template: the fields from the last to the first. -/
theorem handleHeader_eq {job : Template} (h : job.WellFormed) {merkleRoot nTime nonce : List UInt8}
    (hroot : merkleRoot.length = 32) (htime : nTime.length = 4) (hnonce : nonce.length = 4) :
    job.handleHeader job.rpcData.version merkleRoot (toHex nTime) (toHex nonce)
      = some (leBytes 4 job.rpcData.version.toNat
          ++ (bufferFromHex job.rpcData.previousblockhash).reverse ++ merkleRoot ++ nTime.reverse
          ++ (bufferFromHex job.rpcData.bits).reverse ++ nonce.reverse) := by
  have hprev : (bufferFromHex job.rpcData.previousblockhash).length = 32 := by
    rw [bufferFromHex_length h.previous_hex, h.previous_length]
  have hbits : (bufferFromHex job.rpcData.bits).length = 4 := by
    rw [bufferFromHex_length h.bits_hex, h.bits_length]
  have hversion : 0 ≤ job.rpcData.version ∧ job.rpcData.version < 2 ^ 32 :=
    ⟨h.version_nonneg, h.version_lt.trans (by decide)⟩
  rw [handleHeader_eq_flatten job _ hroot, if_pos hversion, headerFields,
    hexField_eq (bufferFromHex_toHex nonce) hnonce, hexField_eq rfl hbits,
    hexField_eq (bufferFromHex_toHex nTime) htime, hexField_eq rfl hprev]
  simp [bigEndian32]

/-! ## The merkle root -/

section
variable {lib : MerkleLib} (hlib : lib.Correct) (doubleSHA256 : List UInt8 → ByteArr 32)
include hlib

theorem getMerkleSteps_eq (transactions : List Transaction) (coinbaseHash : List UInt8) :
    getMerkleSteps lib doubleSHA256 transactions
      = Merkle.steps (combineWith (sha256d doubleSHA256))
          (coinbaseHash :: convertHashToBuffer transactions) := by
  rw [getMerkleSteps]
  simp only [hlib.merkleProof, Merkle.firstProof_interior]
  exact Merkle.steps_head _ _ _ _

/-- The root over any first leaf is that leaf folded with the steps. -/
theorem fastRoot_eq (transactions : List Transaction) (coinbaseHash : List UInt8) :
    lib.fastRoot (coinbaseHash :: convertHashToBuffer transactions) (sha256d doubleSHA256)
      = (getMerkleSteps lib doubleSHA256 transactions).foldl
          (combineWith (sha256d doubleSHA256)) coinbaseHash := by
  have hroot := hlib.fastRoot (sha256d doubleSHA256) coinbaseHash (convertHashToBuffer transactions)
  rw [Merkle.rootOf_eq_foldl, ← getMerkleSteps_eq hlib doubleSHA256] at hroot
  exact (Option.some.inj hroot).symm

end

end DogeConnect
