/-
`structs.h`: the packed wire structs and the dispatcher's own records.

The wire structs are packed, so their memory image is their fields one after
another, integers little-endian: each struct *is* a `Layout`, and a
`reinterpret_cast` of a buffer is the layout's `read`.  That reading back an
image returns the struct, whatever follows it, is then a property of the
layout and is not proved per struct.
-/
import DogeConnect.Lib.Layout
import DogeConnect.HashUtil
import Mathlib.Algebra.BigOperators.Fin

namespace DogeConnect

def SIGNATURE_SIZE : Nat := 64

def NUM_COMPUTORS : Nat := 676

def INT32_MAX : Nat := 2147483647

/-- `CustomMiningType::DOGE`, the first and only enumerator. -/
def DOGE : UInt8 := 0

/-! ## Field layouts -/

/-- A byte array. -/
def arr (n : Nat) : Layout UInt8 (ByteArr n) where
  width := n
  write := ByteArr.toList
  read := ByteArr.copy n
  write_length a := a.length_toList
  read_write a rest := a.copy_toList_append rest
  read_append _ more h := ByteArr.copy_append more h

/-- A `uint8_t`. -/
def u8 : Layout UInt8 UInt8 := Layout.symbol 0

theorem leVal_leBytes_uint32 (v : UInt32) : leVal (leBytes 4 v.toNat) = v.toNat := by
  have hv : v.toNat < 256 ^ 4 := by have := v.toNat_lt; omega
  exact leVal_leBytes_of_lt hv

theorem leVal_leBytes_uint64 (v : UInt64) : leVal (leBytes 8 v.toNat) = v.toNat := by
  have hv : v.toNat < 256 ^ 8 := by have := v.toNat_lt; omega
  exact leVal_leBytes_of_lt hv

/-- An `unsigned int`. -/
def u32 : Layout UInt8 UInt32 :=
  (arr 4).map (fun a => UInt32.ofNat a.val) (fun v => ⟨leBytes 4 v.toNat, leBytes_length 4 _⟩)
    fun v => by rw [ByteArr.val, leVal_leBytes_uint32, UInt32.ofNat_toNat]

/-- The bytes of an `unsigned int`. -/
def uint32Bytes (v : UInt32) : ByteArr 4 := ⟨leBytes 4 v.toNat, leBytes_length 4 _⟩

/-- A `uint64_t`. -/
def u64 : Layout UInt8 UInt64 :=
  (arr 8).map (fun a => UInt64.ofNat a.val) (fun v => ⟨leBytes 8 v.toNat, leBytes_length 8 _⟩)
    fun v => by rw [ByteArr.val, leVal_leBytes_uint64, UInt64.ofNat_toNat]

/-! ## `RequestResponseHeader` -/

structure RequestResponseHeader where
  sizeBytes : ByteArr 3
  type : UInt8
  dejavu : UInt32
  deriving DecidableEq, Repr

namespace RequestResponseHeader

def layout : Layout UInt8 RequestResponseHeader :=
  ((arr 3).seq (u8.seq u32)).map (fun p => ⟨p.1, p.2.1, p.2.2⟩)
    (fun h => (h.sizeBytes, h.type, h.dejavu)) fun _ => rfl

/-- `size()`: four bytes are read, the type byte among them, and masked away;
zero "means broken packets". -/
def size (h : RequestResponseHeader) : Nat :=
  let raw := leVal (h.sizeBytes.toList ++ [h.type]) &&& 0xFFFFFF
  if raw = 0 then INT32_MAX else raw

/-- `setSize`: the low three bytes. -/
def setSize (size : Nat) : ByteArr 3 :=
  ⟨[UInt8.ofNat size, UInt8.ofNat (size >>> 8), UInt8.ofNat (size >>> 16)], rfl⟩

theorem size_eq (h : RequestResponseHeader) :
    h.size = if h.sizeBytes.val = 0 then INT32_MAX else h.sizeBytes.val := by
  have hmask : leVal (h.sizeBytes.toList ++ [h.type]) &&& 0xFFFFFF = h.sizeBytes.val := by
    have hlt := h.sizeBytes.val_lt
    rw [leVal_append, show (0xFFFFFF : Nat) = 2 ^ 24 - 1 by rfl, Nat.and_two_pow_sub_one_eq_mod]
    simp only [ByteArr.val, ByteArr.length] at hlt ⊢
    omega
  simp only [size, hmask]

theorem val_setSize {n : Nat} (h : n < 2 ^ 24) : (setSize n).val = n := by
  simp only [setSize, ByteArr.val, leVal_cons, leVal_nil, UInt8.toNat_ofNat',
    Nat.shiftRight_eq_div_pow]
  omega

end RequestResponseHeader

/-! ## Mining tasks -/

structure CustomQubicMiningTask where
  jobId : UInt64
  customMiningType : UInt8
  deriving DecidableEq, Repr

def CustomQubicMiningTask.type : UInt8 := 68

def CustomQubicMiningTask.layout : Layout UInt8 CustomQubicMiningTask :=
  (u64.seq u8).map (fun p => ⟨p.1, p.2⟩) (fun t => (t.jobId, t.customMiningType)) fun _ => rfl

structure QubicDogeMiningTask where
  cleanJobQueue : UInt8
  dispatcherDifficulty : ByteArr 4
  version : ByteArr 4
  nTime : ByteArr 4
  nBits : ByteArr 4
  prevHash : ByteArr 32
  extraNonce1NumBytes : UInt32
  coinbase1NumBytes : UInt32
  coinbase2NumBytes : UInt32
  numMerkleBranches : UInt32
  deriving DecidableEq, Repr

def QubicDogeMiningTask.layout : Layout UInt8 QubicDogeMiningTask :=
  (u8.seq <| (arr 4).seq <| (arr 4).seq <| (arr 4).seq <| (arr 4).seq <| (arr 32).seq <|
    u32.seq <| u32.seq <| u32.seq u32).map
    (fun ⟨clean, diff, version, nTime, nBits, prevHash, en1, cb1, cb2, branches⟩ =>
      ⟨clean, diff, version, nTime, nBits, prevHash, en1, cb1, cb2, branches⟩)
    (fun t => (t.cleanJobQueue, t.dispatcherDifficulty, t.version, t.nTime, t.nBits, t.prevHash,
      t.extraNonce1NumBytes, t.coinbase1NumBytes, t.coinbase2NumBytes, t.numMerkleBranches))
    fun _ => rfl

/-! ## Mining solutions -/

structure CustomQubicMiningSolution where
  sourcePublicKey : ByteArr 32
  jobId : UInt64
  customMiningType : UInt8
  deriving DecidableEq, Repr

def CustomQubicMiningSolution.type : UInt8 := 69

def CustomQubicMiningSolution.layout : Layout UInt8 CustomQubicMiningSolution :=
  ((arr 32).seq (u64.seq u8)).map (fun p => ⟨p.1, p.2.1, p.2.2⟩)
    (fun s => (s.sourcePublicKey, s.jobId, s.customMiningType)) fun _ => rfl

structure QubicDogeMiningSolution where
  nTime : ByteArr 4
  nonce : ByteArr 4
  merkleRoot : ByteArr 32
  extraNonce2 : ByteArr 8
  deriving DecidableEq, Repr

def QubicDogeMiningSolution.layout : Layout UInt8 QubicDogeMiningSolution :=
  ((arr 4).seq <| (arr 4).seq <| (arr 32).seq (arr 8)).map
    (fun p => ⟨p.1, p.2.1, p.2.2.1, p.2.2.2⟩)
    (fun s => (s.nTime, s.nonce, s.merkleRoot, s.extraNonce2)) fun _ => rfl

/-- The `sizeof`s of the packed structs. -/
example : RequestResponseHeader.layout.width = 8 ∧ CustomQubicMiningTask.layout.width = 9 ∧
    QubicDogeMiningTask.layout.width = 65 ∧ CustomQubicMiningSolution.layout.width = 41 ∧
    QubicDogeMiningSolution.layout.width = 48 := by decide

/-! ## The dispatcher's records -/

/-- The length every task and solution has for `extraNonce2`. -/
def extraNonce2NumBytes : Nat := 8

structure DispatcherMiningTask where
  taskId : Str
  targetPool : ByteArr 32
  /-- 4 bytes version, 32 bytes previous block hash. -/
  partialHeader : ByteArr 36
  nBits : ByteArr 4
  extraNonce1 : List UInt8
  coinbase1 : List UInt8
  coinbase2 : List UInt8
  merkleBranches : List (List UInt8)
  deriving DecidableEq, Repr

structure DispatcherMiningSolution where
  jobId : UInt64
  nTime : ByteArr 4
  nonce : ByteArr 4
  merkleRoot : ByteArr 32
  extraNonce2 : ByteArr 8
  sourcePublicKey : ByteArr 32
  deriving DecidableEq, Repr

/-- The shared counters.  They are 64-bit and only ever incremented, so `Nat`
stands for them. -/
structure DispatcherStats where
  tasksDistributed : Nat
  solutionsReceived : Nat
  solutionsAccepted : Nat
  solutionsRejected : Nat
  solutionsStale : Nat
  solutionsPassedPoolDiff : Nat
  poolSharesAccepted : Nat
  poolSharesRejected : Nat
  poolDifficulty : UInt64
  computorShares : Fin NUM_COMPUTORS → Nat
  computorLastSeen : Fin NUM_COMPUTORS → Int

namespace DispatcherStats

/-- All counters zero, difficulty 1. -/
def initial : DispatcherStats where
  tasksDistributed := 0
  solutionsReceived := 0
  solutionsAccepted := 0
  solutionsRejected := 0
  solutionsStale := 0
  solutionsPassedPoolDiff := 0
  poolSharesAccepted := 0
  poolSharesRejected := 0
  poolDifficulty := 1
  computorShares := fun _ => 0
  computorLastSeen := fun _ => 0

/-- The sum over the per-computor counters. -/
def totalShares (s : DispatcherStats) : Nat := ∑ i, s.computorShares i

end DispatcherStats

/-- Per-peer counters. -/
structure PeerStats where
  reconnects : Nat
  solutionsReceived : Nat
  packetsReceived : Nat
  bytesReceived : Nat
  disconnects : Nat
  deriving DecidableEq, Repr

end DogeConnect
