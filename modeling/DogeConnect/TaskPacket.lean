/-
The task packet, from `distributeTask` to a miner's `taskReceiveLoop`.

The encoder fills a buffer by writes at running offsets and sums the size up
beforehand; the decoder of the test miner checks the received length three
times against sums of its own before it reads.  The two agree:

    buildPacket_offset    the running offset ends at the precomputed size
    buildPacket_packet    the packet is header, type and job id, fields, signature
    receiveTask_payload   the decoder gives back what the fields were written from
    distributeTask_roundTrip   the above for every packet `distributeTask` sends

The decoder's sums mix `int`, `unsigned int` and `size_t`; they are modelled
with the conversions the language makes, and are exact for packets that fit
the buffer.
-/
import DogeConnect.TaskDist
import Mathlib.Algebra.Order.BigOperators.Group.List

namespace DogeConnect

open Writes

/-! ## The size -/

theorem branchTable_length (branches : List (List UInt8)) :
    (branchTable branches).flatten.length = branches.length * 4 := by
  induction branches with
  | nil => rfl
  | cons b bs ih =>
      simp only [branchTable, List.map_cons, List.flatten_cons, List.length_append,
        Layout.length_write, List.length_cons] at ih ⊢
      rw [ih, show u32.width = 4 from rfl]
      omega

theorem taskFields_length (t : DispatcherMiningTask) (dogeTask : QubicDogeMiningTask) :
    (taskFields t dogeTask).flatten.length
      = QubicDogeMiningTask.layout.width + t.extraNonce1.length + t.coinbase1.length
        + t.coinbase2.length + t.merkleBranches.length * 4
        + (t.merkleBranches.map List.length).sum := by
  simp only [taskFields, List.flatten_cons, List.flatten_append, List.length_append,
    Layout.length_write]
  rw [branchTable_length, List.length_flatten]
  omega

/-- The running offset and the precomputed size are two sums of one list. -/
theorem signatureOffset_add (t : DispatcherMiningTask) (dogeTask : QubicDogeMiningTask) :
    signatureOffset t dogeTask + SIGNATURE_SIZE = totalNumBytes t := by
  rw [signatureOffset, taskFields_length, totalNumBytes, fieldsOffset]
  omega

/-! ## The bytes of the packet -/

/-- What stands between the header and the signature. -/
def payload (t : DispatcherMiningTask) (dogeTask : QubicDogeMiningTask) (jobId : UInt64) :
    List UInt8 :=
  CustomQubicMiningTask.layout.write ⟨jobId, DOGE⟩ ++ (taskFields t dogeTask).flatten

theorem payload_length (t : DispatcherMiningTask) (dogeTask : QubicDogeMiningTask)
    (jobId : UInt64) :
    (payload t dogeTask jobId).length + RequestResponseHeader.layout.width
      = signatureOffset t dogeTask := by
  rw [payload, List.length_append, Layout.length_write, signatureOffset, fieldsOffset]
  omega

/-- The writes up to the signature leave header and payload, and the rest of
the buffer as it was. -/
theorem packetWrites_foldl {buffer : List UInt8} {t : DispatcherMiningTask}
    {dogeTask : QubicDogeMiningTask} (jobId : UInt64)
    (h : signatureOffset t dogeTask ≤ buffer.length) :
    ∃ rest, rest.length = buffer.length - signatureOffset t dogeTask ∧
      (packetWrites t dogeTask jobId).foldl writeAt buffer
        = RequestResponseHeader.layout.write (taskHeader (totalNumBytes t))
            ++ (payload t dogeTask jobId ++ rest) := by
  have hoff : signatureOffset t dogeTask
      = 8 + (8 + (1 + (taskFields t dogeTask).flatten.length)) := by
    rw [signatureOffset, show fieldsOffset = 17 from rfl]
    omega
  -- the pieces of the old buffer that the writes replace
  obtain ⟨h0, b1, rfl, hh0, hb1⟩ := split_at buffer (show 8 ≤ buffer.length by omega)
  obtain ⟨j0, b2, rfl, hj0, hb2⟩ := split_at b1 (show 8 ≤ b1.length by omega)
  obtain ⟨t0, b3, rfl, ht0, hb3⟩ := split_at b2 (show 1 ≤ b2.length by omega)
  obtain ⟨f0, rest, rfl, hf0, hrest⟩ :=
    split_at b3 (show (taskFields t dogeTask).flatten.length ≤ b3.length by omega)
  refine ⟨rest, by simp only [List.length_append]; omega, ?_⟩
  have hheader : (RequestResponseHeader.layout.write (taskHeader (totalNumBytes t))).length = 8 :=
    Layout.length_write _ _
  have hpayload : payload t dogeTask jobId
      = u64.write jobId ++ ([DOGE] ++ (taskFields t dogeTask).flatten) := by
    rw [payload, ← List.append_assoc]
    rfl
  rw [packetWrites, hpayload]
  generalize RequestResponseHeader.layout.write (taskHeader (totalNumBytes t)) = header at hheader ⊢
  have hwrite₁ : writeAt ([] ++ (h0 ++ (j0 ++ (t0 ++ (f0 ++ rest))))) (0, header)
      = [] ++ (header ++ (j0 ++ (t0 ++ (f0 ++ rest)))) :=
    writeAt_append rfl (by omega)
  have hwrite₂ : writeAt (header ++ j0 ++ (t0 ++ (f0 ++ rest)))
        (RequestResponseHeader.layout.width + 8, [DOGE])
      = header ++ j0 ++ ([DOGE] ++ (f0 ++ rest)) :=
    writeAt_append (by rw [List.length_append, hheader, hj0]; rfl) (by simpa using ht0)
  have hwrite₃ : (consecutiveWrites fieldsOffset (taskFields t dogeTask)).foldl writeAt
        (header ++ j0 ++ [DOGE] ++ (f0 ++ rest))
      = header ++ j0 ++ [DOGE] ++ ((taskFields t dogeTask).flatten ++ rest) :=
    foldl_writes_consecutive (by simp only [List.length_append, hheader, hj0]; rfl) hf0
  have hwrite₄ : writeAt (header ++ (j0 ++ ([DOGE] ++ ((taskFields t dogeTask).flatten ++ rest))))
        (RequestResponseHeader.layout.width, u64.write jobId)
      = header ++ (u64.write jobId ++ ([DOGE] ++ ((taskFields t dogeTask).flatten ++ rest))) :=
    writeAt_append hheader.symm (by rw [Layout.length_write, hj0]; rfl)
  simp only [List.nil_append] at hwrite₁
  simp only [List.append_assoc] at hwrite₂ hwrite₃
  simp only [List.foldl_append, List.foldl_cons, List.foldl_nil, hwrite₁,
    hwrite₂, hwrite₃]
  simpa only [List.append_assoc] using hwrite₄

section
variable (signTaskPacket : List UInt8 → ByteArr 64)
variable {buffer : List UInt8} {t : DispatcherMiningTask} (dogeTask : QubicDogeMiningTask)
  (jobId : UInt64)

theorem buildPacket_offset :
    (buildPacket signTaskPacket buffer t dogeTask jobId).offset = totalNumBytes t :=
  signatureOffset_add t dogeTask

theorem buildPacket_packet (h : totalNumBytes t ≤ buffer.length) :
    (buildPacket signTaskPacket buffer t dogeTask jobId).signedRegion = payload t dogeTask jobId ∧
    (buildPacket signTaskPacket buffer t dogeTask jobId).buffer.take (totalNumBytes t)
      = RequestResponseHeader.layout.write (taskHeader (totalNumBytes t))
          ++ (payload t dogeTask jobId ++ (signTaskPacket (payload t dogeTask jobId)).toList) := by
  have htotal := signatureOffset_add t dogeTask
  have hlen := payload_length t dogeTask jobId
  have hroom : signatureOffset t dogeTask ≤ buffer.length := by omega
  obtain ⟨rest, hrest, hfold⟩ := packetWrites_foldl jobId hroom
  have hsigned : (buildPacket signTaskPacket buffer t dogeTask jobId).signedRegion
      = payload t dogeTask jobId := by
    simp only [buildPacket]
    rw [hfold, Layout.drop_write, ← hlen, Nat.add_sub_cancel, List.take_left]
  refine ⟨hsigned, ?_⟩
  -- the signature replaces 64 bytes of what is left of the old buffer
  obtain ⟨s0, rest, rfl, hs0, -⟩ := split_at rest (show SIGNATURE_SIZE ≤ rest.length by omega)
  have hbuffer : (buildPacket signTaskPacket buffer t dogeTask jobId).buffer
      = writeAt ((packetWrites t dogeTask jobId).foldl writeAt buffer)
          (signatureOffset t dogeTask, (signTaskPacket (payload t dogeTask jobId)).toList) := by
    rw [← hsigned]
    rfl
  rw [hbuffer, hfold, ← List.append_assoc, writeAt_append
    (by rw [List.length_append, Layout.length_write]; omega) (by rw [hs0, ByteArr.length]; rfl),
    ← List.append_assoc, List.take_left', List.append_assoc]
  rw [List.length_append, List.length_append, Layout.length_write, ByteArr.length, ← htotal,
    show SIGNATURE_SIZE = 64 from rfl]
  omega

theorem buildPacket_writes_le :
    ∀ w ∈ (buildPacket signTaskPacket buffer t dogeTask jobId).writes,
      w.1 + w.2.length ≤ totalNumBytes t := by
  have htotal := signatureOffset_add t dogeTask
  have hoff : signatureOffset t dogeTask = fieldsOffset + (taskFields t dogeTask).flatten.length :=
    rfl
  have hfixed : fieldsOffset = 17 ∧ SIGNATURE_SIZE = 64 := ⟨rfl, rfl⟩
  intro w hw
  simp only [buildPacket, packetWrites, List.mem_append, List.mem_cons, List.not_mem_nil,
    or_false] at hw
  rcases hw with (((rfl | rfl) | hw) | rfl) | rfl
  · dsimp only
    rw [Layout.length_write, show RequestResponseHeader.layout.width = 8 from rfl]
    omega
  · dsimp only
    rw [show RequestResponseHeader.layout.width = 8 from rfl, List.length_singleton]
    omega
  · have := consecutiveWrites_le w hw
    omega
  · dsimp only
    rw [Layout.length_write, show RequestResponseHeader.layout.width = 8 from rfl,
      show u64.width = 8 from rfl]
    omega
  · dsimp only
    rw [ByteArr.length]
    omega

end

/-! ## `taskReceiveLoop` of the test miner -/

/-- `InternalMiningTask` of `mining_structs.h`. -/
structure InternalMiningTask where
  jobId : UInt64
  targetDispatcher : ByteArr 32
  /-- Version and previous block hash. -/
  partialHeader1 : ByteArr 36
  /-- Timestamp and network difficulty. -/
  partialHeader2 : ByteArr 8
  extraNonce1 : List UInt8
  coinbase1 : List UInt8
  coinbase2 : List UInt8
  merkleBranches : List (List UInt8)
  deriving DecidableEq, Repr

/-- What one round of the loop hands over. -/
structure ReceivedTask where
  task : InternalMiningTask
  cleanJobQueue : Bool
  /-- Compared with the received length, to report excess bytes. -/
  numBytesRead : Nat
  deriving DecidableEq, Repr

/-- Conversion of any integer value to `int`. -/
def toInt (v : Int) : Int := v.bmod (2 ^ 32)

/-- `branchesNumBytes[0..n)`. -/
def readTable : Nat → List UInt8 → List UInt32
  | 0, _ => []
  | n + 1, table => u32.read table :: readTable n (table.drop u32.width)

/-- One vector for each length, one behind the other. -/
def readBranches : List UInt32 → List UInt8 → List (List UInt8)
  | [], _ => []
  | n :: ns, payload => payload.take n.toNat :: readBranches ns (payload.drop n.toNat)

/-- `std::accumulate(first, last, 0)`: each sum is an `unsigned int`, stored back
into an `int`. -/
def accumulateInt (ns : List UInt32) : Int :=
  ns.foldl (fun acc n => toInt ((acc + n.toNat) % 2 ^ 32)) 0

/-- One round of `taskReceiveLoop`, from the receive buffer and the number of
bytes received into it; `none` where the packet is skipped. -/
def receiveTask (buffer : List UInt8) (recvBytes : Int) : Option ReceivedTask :=
  let fixed := CustomQubicMiningTask.layout.width + QubicDogeMiningTask.layout.width
  let recvBytesMin : Int := fixed + SIGNATURE_SIZE
  if recvBytes < recvBytesMin then none else
  let qubicTask := CustomQubicMiningTask.layout.read buffer
  if qubicTask.customMiningType ≠ DOGE then none else
  let dogeTask := QubicDogeMiningTask.layout.read (buffer.drop CustomQubicMiningTask.layout.width)
  -- three `unsigned int`s, then a `size_t`
  let lengths := (dogeTask.extraNonce1NumBytes + dogeTask.coinbase1NumBytes
    + dogeTask.coinbase2NumBytes).toNat + dogeTask.numMerkleBranches.toNat * 4
  let recvBytesMin := toInt ((recvBytesMin + lengths) % 2 ^ 64)
  if recvBytes < recvBytesMin then none else
  let payload := buffer.drop fixed
  let extraNonce1 := payload.take dogeTask.extraNonce1NumBytes.toNat
  let payload := payload.drop dogeTask.extraNonce1NumBytes.toNat
  let coinbase1 := payload.take dogeTask.coinbase1NumBytes.toNat
  let payload := payload.drop dogeTask.coinbase1NumBytes.toNat
  let coinbase2 := payload.take dogeTask.coinbase2NumBytes.toNat
  let payload := payload.drop dogeTask.coinbase2NumBytes.toNat
  let branchesNumBytes := readTable dogeTask.numMerkleBranches.toNat payload
  let recvBytesMin := recvBytesMin + accumulateInt branchesNumBytes
  if recvBytes < recvBytesMin then none else
  let payload := payload.drop (dogeTask.numMerkleBranches.toNat * 4)
  some {
    task := {
      jobId := qubicTask.jobId
      targetDispatcher := calculateFullRepFromCompactRep dogeTask.dispatcherDifficulty
      partialHeader1 := ByteArr.copy 36 (dogeTask.version.toList ++ dogeTask.prevHash.toList)
      partialHeader2 := ByteArr.copy 8 (dogeTask.nTime.toList ++ dogeTask.nBits.toList)
      extraNonce1 := extraNonce1
      coinbase1 := coinbase1
      coinbase2 := coinbase2
      merkleBranches := readBranches branchesNumBytes payload }
    cleanJobQueue := dogeTask.cleanJobQueue ≠ 0
    numBytesRead := fixed + dogeTask.extraNonce1NumBytes.toNat + dogeTask.coinbase1NumBytes.toNat
      + dogeTask.coinbase2NumBytes.toNat + dogeTask.numMerkleBranches.toNat * 4
      + (branchesNumBytes.map UInt32.toNat).sum + SIGNATURE_SIZE }

/-! ## The round trip -/

theorem readTable_branchTable : ∀ (branches : List (List UInt8)) (rest : List UInt8),
    readTable branches.length ((branchTable branches).flatten ++ rest)
      = branches.map fun b => UInt32.ofNat b.length
  | [], _ => rfl
  | b :: bs, rest => by
      simp only [branchTable, List.map_cons, List.flatten_cons, List.append_assoc,
        List.length_cons, readTable, Layout.read_write, Layout.drop_write]
      rw [← readTable_branchTable bs rest]
      rfl

theorem readBranches_flatten : ∀ {branches : List (List UInt8)} (rest : List UInt8),
    (∀ b ∈ branches, b.length < 2 ^ 32) →
    readBranches (branches.map fun b => UInt32.ofNat b.length) (branches.flatten ++ rest)
      = branches
  | [], _, _ => rfl
  | b :: bs, rest, h => by
      have hb : (UInt32.ofNat b.length).toNat = b.length :=
        UInt32.toNat_ofNat_of_lt (h b List.mem_cons_self)
      have ih := readBranches_flatten rest fun c hc => h c (List.mem_cons_of_mem _ hc)
      simp only [List.map_cons, List.flatten_cons, List.append_assoc, readBranches, hb,
        List.take_left, List.drop_left, ih]

/-- The `int` accumulator is the sum while that fits. -/
theorem accumulateInt_eq {ns : List UInt32} (h : (ns.map UInt32.toNat).sum < 2 ^ 31) :
    accumulateInt ns = (ns.map UInt32.toNat).sum := by
  have hgen : ∀ (ns : List UInt32) (acc : Nat), acc + (ns.map UInt32.toNat).sum < 2 ^ 31 →
      ns.foldl (fun acc n => toInt ((acc + n.toNat) % 2 ^ 32)) (acc : Int)
        = ((acc + (ns.map UInt32.toNat).sum : Nat) : Int) := by
    intro ns
    induction ns with
    | nil => intro acc _; rfl
    | cons n ns ih =>
        intro acc hacc
        simp only [List.map_cons, List.sum_cons] at hacc ⊢
        have hstep : toInt (((acc : Int) + n.toNat) % 2 ^ 32) = ((acc + n.toNat : Nat) : Int) := by
          rw [toInt, Int.bmod_def]
          omega
        rw [List.foldl_cons, hstep, ih (acc + n.toNat) (by omega), Nat.add_assoc]
  have := hgen ns 0 (by omega)
  simpa [accumulateInt] using this

theorem map_toNat_ofNat_length {branches : List (List UInt8)}
    (h : ∀ b ∈ branches, b.length < 2 ^ 32) :
    ((branches.map fun b => UInt32.ofNat b.length).map UInt32.toNat) = branches.map List.length := by
  rw [List.map_map]
  exact List.map_congr_left fun b hb => UInt32.toNat_ofNat_of_lt (h b hb)

theorem branch_length_lt {t : DispatcherMiningTask} (h : totalNumBytes t ≤ packetBufferSize) :
    ∀ b ∈ t.merkleBranches, b.length < 2 ^ 32 := by
  intro b hb
  have hmem : b.length ∈ t.merkleBranches.map List.length := List.mem_map.mpr ⟨b, hb, rfl⟩
  have hsum := List.single_le_sum (fun _ _ => Nat.zero_le _) _ hmem
  simp only [totalNumBytes, packetBufferSize] at h
  omega

/-- What the decoder takes from the four length fields, and their sum. -/
structure LengthFields (t : DispatcherMiningTask) (dogeTask : QubicDogeMiningTask) : Prop where
  extraNonce1 : dogeTask.extraNonce1NumBytes.toNat = t.extraNonce1.length
  coinbase1 : dogeTask.coinbase1NumBytes.toNat = t.coinbase1.length
  coinbase2 : dogeTask.coinbase2NumBytes.toNat = t.coinbase2.length
  branches : dogeTask.numMerkleBranches.toNat = t.merkleBranches.length
  sum : (dogeTask.extraNonce1NumBytes + dogeTask.coinbase1NumBytes
      + dogeTask.coinbase2NumBytes).toNat
    = t.extraNonce1.length + t.coinbase1.length + t.coinbase2.length

theorem dogeTaskOf_lengthFields {p : ParsedTask} (compactRep : ByteArr 4) (cleanJobQueue : Bool)
    (h : totalNumBytes p.dispatcherTask ≤ packetBufferSize) :
    LengthFields p.dispatcherTask (dogeTaskOf p compactRep cleanJobQueue) := by
  obtain ⟨t, version, ntime, nbits, prevHash⟩ := p
  simp only [totalNumBytes, packetBufferSize] at h
  have hextra : (UInt32.ofNat t.extraNonce1.length).toNat = t.extraNonce1.length :=
    UInt32.toNat_ofNat_of_lt (show t.extraNonce1.length < 2 ^ 32 by omega)
  have hcoinbase1 : (UInt32.ofNat t.coinbase1.length).toNat = t.coinbase1.length :=
    UInt32.toNat_ofNat_of_lt (show t.coinbase1.length < 2 ^ 32 by omega)
  have hcoinbase2 : (UInt32.ofNat t.coinbase2.length).toNat = t.coinbase2.length :=
    UInt32.toNat_ofNat_of_lt (show t.coinbase2.length < 2 ^ 32 by omega)
  refine ⟨hextra, hcoinbase1, hcoinbase2, ?_, ?_⟩
  · exact UInt32.toNat_ofNat_of_lt (show t.merkleBranches.length < 2 ^ 32 by omega)
  · simp only [dogeTaskOf, UInt32.toNat_add, hextra, hcoinbase1, hcoinbase2]
    omega

/-- The two structs at the front of a payload, and what stands behind them. -/
theorem payload_read (t : DispatcherMiningTask) (dogeTask : QubicDogeMiningTask) (jobId : UInt64)
    (rest : List UInt8) :
    CustomQubicMiningTask.layout.read (payload t dogeTask jobId ++ rest) = ⟨jobId, DOGE⟩ ∧
    QubicDogeMiningTask.layout.read
      ((payload t dogeTask jobId ++ rest).drop CustomQubicMiningTask.layout.width) = dogeTask ∧
    (payload t dogeTask jobId ++ rest).drop
        (CustomQubicMiningTask.layout.width + QubicDogeMiningTask.layout.width)
      = t.extraNonce1 ++ (t.coinbase1 ++ (t.coinbase2
        ++ ((branchTable t.merkleBranches).flatten ++ (t.merkleBranches.flatten ++ rest)))) := by
  have hfields : (taskFields t dogeTask).flatten ++ rest
      = QubicDogeMiningTask.layout.write dogeTask ++ (t.extraNonce1 ++ (t.coinbase1 ++ (t.coinbase2
        ++ ((branchTable t.merkleBranches).flatten ++ (t.merkleBranches.flatten ++ rest))))) := by
    simp only [taskFields, List.flatten_cons, List.flatten_append, List.append_assoc]
  rw [payload, List.append_assoc, hfields, ← List.drop_drop, Layout.drop_write, Layout.drop_write]
  exact ⟨Layout.read_write _ _ _, Layout.read_write _ _ _, rfl⟩

theorem recvBytesMin_eq {n : Nat} (h : n ≤ packetBufferSize) :
    toInt ((((9 + 65 : Nat) : Int) + ((64 : Nat) : Int) + (n : Int)) % 2 ^ 64)
      = ((138 + n : Nat) : Int) := by
  simp only [packetBufferSize] at h
  rw [toInt, Int.bmod_def]
  omega

/-- What the decoder makes of a payload, whatever stands behind it. -/
theorem receiveTask_payload {p : ParsedTask} (compactRep : ByteArr 4) (cleanJobQueue : Bool)
    (jobId : UInt64) (rest : List UInt8)
    (h : totalNumBytes p.dispatcherTask ≤ packetBufferSize) :
    receiveTask (payload p.dispatcherTask (dogeTaskOf p compactRep cleanJobQueue) jobId ++ rest)
        (totalNumBytes p.dispatcherTask - RequestResponseHeader.layout.width : Nat)
      = some {
          task := {
            jobId := jobId
            targetDispatcher := calculateFullRepFromCompactRep compactRep
            partialHeader1 := ByteArr.copy 36 (p.version.toList ++ p.prevHash.toList)
            partialHeader2 := ByteArr.copy 8 (p.ntime.toList ++ p.nbits.toList)
            extraNonce1 := p.dispatcherTask.extraNonce1
            coinbase1 := p.dispatcherTask.coinbase1
            coinbase2 := p.dispatcherTask.coinbase2
            merkleBranches := p.dispatcherTask.merkleBranches }
          cleanJobQueue := cleanJobQueue
          numBytesRead := totalNumBytes p.dispatcherTask - RequestResponseHeader.layout.width } := by
  have hbranch := branch_length_lt h
  have hlengths := dogeTaskOf_lengthFields compactRep cleanJobQueue h
  have hclean : decide ((dogeTaskOf p compactRep cleanJobQueue).cleanJobQueue ≠ 0)
      = cleanJobQueue := by
    cases cleanJobQueue <;> rfl
  obtain ⟨hqubic, hdoge, hvariable⟩ := payload_read p.dispatcherTask
    (dogeTaskOf p compactRep cleanJobQueue) jobId rest
  generalize hd : dogeTaskOf p compactRep cleanJobQueue = dogeTask at *
  obtain ⟨t, version, ntime, nbits, prevHash⟩ := p
  -- the last sum and the branches themselves
  have hsum : ((t.merkleBranches.map fun b => UInt32.ofNat b.length).map UInt32.toNat).sum
      = (t.merkleBranches.map List.length).sum := by
    rw [map_toNat_ofNat_length hbranch]
  simp only [totalNumBytes, packetBufferSize] at h ⊢
  have haccumulate : accumulateInt (t.merkleBranches.map fun b => UInt32.ofNat b.length)
      = (t.merkleBranches.map List.length).sum := by
    rw [accumulateInt_eq (by omega), hsum]
  have hbehind : ((branchTable t.merkleBranches).flatten ++ (t.merkleBranches.flatten ++ rest)).drop
      (t.merkleBranches.length * 4) = t.merkleBranches.flatten ++ rest := by
    rw [← branchTable_length, List.drop_left]
  simp only [receiveTask, hqubic, hdoge, hvariable, hlengths.extraNonce1, hlengths.coinbase1,
    hlengths.coinbase2, hlengths.branches, hlengths.sum, List.take_left, List.drop_left,
    readTable_branchTable, haccumulate, hsum, hbehind, readBranches_flatten _ hbranch]
  -- the three length checks pass, the last one with equality
  simp only [show RequestResponseHeader.layout.width = 8 from rfl,
    show CustomQubicMiningTask.layout.width = 9 from rfl,
    show QubicDogeMiningTask.layout.width = 65 from rfl, show SIGNATURE_SIZE = 64 from rfl] at h ⊢
  rw [recvBytesMin_eq (by rw [packetBufferSize]; omega), if_neg (by omega), if_neg (by simp),
    if_neg (by omega), if_neg (by omega)]
  have hread : 9 + 65 + t.extraNonce1.length + t.coinbase1.length + t.coinbase2.length
        + t.merkleBranches.length * 4 + (t.merkleBranches.map List.length).sum + 64
      = 8 + 9 + 65 + t.extraNonce1.length + t.coinbase1.length + t.coinbase2.length
        + t.merkleBranches.length * 4 + (t.merkleBranches.map List.length).sum + 64 - 8 := by
    omega
  rw [hclean, hread, ← hd]
  rfl

/-! ## What a call of `distributeTask` has done -/

/-- The task `p` holds what the notify parameters say. -/
structure ParsedFrom (params : Json) (extraNonce1 : List UInt8)
    (currentPoolDifficulty : DifficultyTarget) (p : ParsedTask) : Prop where
  taskId : stringParam params 0 = .ok p.dispatcherTask.taskId
  prevHash : ∃ hex, stringParam params 1 = .ok hex ∧
    p.prevHash.toList = wordSwap (hexToBytes hex .BigEndian)
  coinbase1 : ∃ hex, stringParam params 2 = .ok hex ∧
    p.dispatcherTask.coinbase1 = hexToBytes hex .BigEndian
  coinbase2 : ∃ hex, stringParam params 3 = .ok hex ∧
    p.dispatcherTask.coinbase2 = hexToBytes hex .BigEndian
  merkleBranches : ∃ list, params.constIndex 4 = .ok list ∧
    list.elements.mapM (fun branch => do return hexToBytes (← branch.getString) .BigEndian)
      = .ok p.dispatcherTask.merkleBranches
  version : ∃ hex, stringParam params 5 = .ok hex ∧ p.version.toList = hexToBytes hex .LittleEndian
  nbits : ∃ hex, stringParam params 6 = .ok hex ∧ p.nbits.toList = hexToBytes hex .LittleEndian
  ntime : ∃ hex, stringParam params 7 = .ok hex ∧ p.ntime.toList = hexToBytes hex .LittleEndian
  partialHeader : p.dispatcherTask.partialHeader.toList = p.version.toList ++ p.prevHash.toList
  nBits : p.dispatcherTask.nBits = p.nbits
  extraNonce1 : p.dispatcherTask.extraNonce1 = extraNonce1
  targetPool : p.dispatcherTask.targetPool = currentPoolDifficulty.fullRep

theorem parseTask_spec {params : Json} {extraNonce1 : List UInt8}
    {currentPoolDifficulty : DifficultyTarget} {p : ParsedTask}
    (h : parseTask params extraNonce1 currentPoolDifficulty = .ok (some p)) :
    ParsedFrom params extraNonce1 currentPoolDifficulty p := by
  simp only [parseTask, bind, pure, except_bind_eq_ok] at h
  obtain ⟨taskId, hid, version, hv, ntime, ht, nbits, hn, prevHash, hp, h⟩ := h
  split at h
  · cases h
  next hsizes =>
  simp only [except_bind_eq_ok] at h
  obtain ⟨coinbase1, h1, coinbase2, h2, list, hl, branches, hb, h⟩ := h
  cases h
  simp only [not_or, ne_eq, not_not] at hsizes
  obtain ⟨hversion, hprev, hntime, hnbits⟩ := hsizes
  exact {
    taskId := hid
    prevHash := ⟨prevHash, hp, ByteArr.copy_toList hprev⟩
    coinbase1 := ⟨coinbase1, h1, rfl⟩
    coinbase2 := ⟨coinbase2, h2, rfl⟩
    merkleBranches := ⟨list, hl, hb⟩
    version := ⟨version, hv, ByteArr.copy_toList hversion⟩
    nbits := ⟨nbits, hn, ByteArr.copy_toList hnbits⟩
    ntime := ⟨ntime, ht, ByteArr.copy_toList hntime⟩
    partialHeader := by
      rw [ByteArr.copy_toList hversion, ByteArr.copy_toList hprev]
      exact ByteArr.copy_toList (by rw [List.length_append, hversion, hprev])
    nBits := rfl
    extraNonce1 := rfl
    targetPool := rfl }

section
variable (signTaskPacket : List UInt8 → ByteArr 64)

/-- The last check of `distributeTask` never fails. -/
theorem prepareTask_ne_offsetMismatch (buffer : ByteArr packetBufferSize) (params : Json)
    (extraNonce1 : List UInt8) (currentPoolDifficulty : DifficultyTarget) (cleanJobQueue : Bool)
    (now : UInt64) (built : BuiltPacket) :
    prepareTask signTaskPacket buffer params extraNonce1 currentPoolDifficulty cleanJobQueue now
      ≠ .ok (.offsetMismatch built) := by
  intro h
  simp only [prepareTask, bind, pure, except_bind_eq_ok] at h
  obtain ⟨_ | p, -, h⟩ := h
  · cases h
  · dsimp only at h
    split at h
    · cases h
    · rw [buildPacket_offset, if_neg (by simp)] at h
      cases h

theorem prepareTask_ready {buffer : ByteArr packetBufferSize} {params : Json}
    {extraNonce1 : List UInt8} {currentPoolDifficulty : DifficultyTarget} {cleanJobQueue : Bool}
    {now : UInt64} {p : ParsedTask} {built : BuiltPacket}
    (h : prepareTask signTaskPacket buffer params extraNonce1 currentPoolDifficulty cleanJobQueue now
      = .ok (.ready p built)) :
    parseTask params extraNonce1 currentPoolDifficulty = .ok (some p) ∧
    totalNumBytes p.dispatcherTask ≤ packetBufferSize ∧
    built = buildPacket signTaskPacket buffer.toList p.dispatcherTask
      (dogeTaskOf p currentPoolDifficulty.compactRep cleanJobQueue) now := by
  simp only [prepareTask, bind, pure, except_bind_eq_ok] at h
  obtain ⟨_ | q, hparse, h⟩ := h
  · cases h
  · dsimp only at h
    split at h
    · cases h
    next hsize =>
    rw [buildPacket_offset, if_neg (by simp)] at h
    cases h
    exact ⟨hparse, by omega, rfl⟩

theorem distributeTask_some {task : Json} {st st' : DistState}
    {currentPoolDifficulty : DifficultyTarget} {extraNonce1 : List UInt8} {propagate : Bool}
    {now : UInt64} {sent : SentTask}
    (h : distributeTask signTaskPacket task st currentPoolDifficulty extraNonce1 propagate now
      = .ok (st', some sent)) :
    ∃ params cleanJobQueue, task.field "params".toList = .ok params ∧
      cleanFlag params propagate = .ok cleanJobQueue ∧
      prepareTask signTaskPacket st.buffer params extraNonce1 currentPoolDifficulty cleanJobQueue now
        = .ok (.ready sent.parsed sent.built) ∧
      st'.activeTasks = (if cleanJobQueue then st.activeTasks.clear else st.activeTasks).insert now
        sent.parsed.dispatcherTask := by
  simp only [distributeTask, bind, pure, except_bind_eq_ok] at h
  obtain ⟨params, hparams, cleanJobQueue, hclean, outcome, houtcome, h⟩ := h
  cases outcome with
  | wrongSize => cases h
  | tooLarge => cases h
  | offsetMismatch built => cases h
  | ready p built =>
      cases h
      exact ⟨params, cleanJobQueue, hparams, hclean, houtcome, rfl⟩

/-- What holds of a packet of task `p` with job id `now`, once sent. -/
structure RoundTrip (compactRep : ByteArr 4) (cleanJobQueue : Bool) (now : UInt64)
    (sent : SentTask) : Prop where
  /-- The size field is the number of bytes sent. -/
  header_size : (RequestResponseHeader.layout.read sent.packet).size = sent.packet.length
  length_packet : sent.packet.length = totalNumBytes sent.parsed.dispatcherTask
  writes_inside : ∀ w ∈ sent.built.writes, w.1 + w.2.length ≤ packetBufferSize
  /-- Behind the header stand the signed bytes and their signature. -/
  signed : sent.packet.drop RequestResponseHeader.layout.width
    = sent.built.signedRegion ++ (signTaskPacket sent.built.signedRegion).toList
  /-- The miner's decoder, whatever its buffer holds behind the packet. -/
  decoded : ∀ stale, receiveTask (sent.packet.drop RequestResponseHeader.layout.width ++ stale)
      (sent.packet.length - RequestResponseHeader.layout.width : Nat)
    = some {
        task := {
          jobId := now
          targetDispatcher := calculateFullRepFromCompactRep compactRep
          partialHeader1 := sent.parsed.dispatcherTask.partialHeader
          partialHeader2 :=
            ByteArr.copy 8 (sent.parsed.ntime.toList ++ sent.parsed.dispatcherTask.nBits.toList)
          extraNonce1 := sent.parsed.dispatcherTask.extraNonce1
          coinbase1 := sent.parsed.dispatcherTask.coinbase1
          coinbase2 := sent.parsed.dispatcherTask.coinbase2
          merkleBranches := sent.parsed.dispatcherTask.merkleBranches }
        cleanJobQueue := cleanJobQueue
        numBytesRead := sent.packet.length - RequestResponseHeader.layout.width }

variable {signTaskPacket} in
theorem roundTrip_of_ready {buffer : ByteArr packetBufferSize} {params : Json}
    {extraNonce1 : List UInt8} {currentPoolDifficulty : DifficultyTarget} {cleanJobQueue : Bool}
    {now : UInt64} {p : ParsedTask} {built : BuiltPacket}
    (h : prepareTask signTaskPacket buffer params extraNonce1 currentPoolDifficulty cleanJobQueue now
      = .ok (.ready p built)) :
    RoundTrip signTaskPacket currentPoolDifficulty.compactRep cleanJobQueue now ⟨p, built⟩ := by
  obtain ⟨hparse, hsize, hbuilt⟩ := prepareTask_ready signTaskPacket h
  have hfrom := parseTask_spec hparse
  have hbuffer : totalNumBytes p.dispatcherTask ≤ buffer.toList.length := by
    rw [ByteArr.length]; exact hsize
  have hpieces := buildPacket_packet signTaskPacket
    (dogeTaskOf p currentPoolDifficulty.compactRep cleanJobQueue) now hbuffer
  rw [← hbuilt] at hpieces
  obtain ⟨hsigned, hpacket⟩ := hpieces
  rw [← hsigned] at hpacket
  have hpayload := payload_length p.dispatcherTask
    (dogeTaskOf p currentPoolDifficulty.compactRep cleanJobQueue) now
  have htotal := signatureOffset_add p.dispatcherTask
    (dogeTaskOf p currentPoolDifficulty.compactRep cleanJobQueue)
  have hlen : (SentTask.packet ⟨p, built⟩).length = totalNumBytes p.dispatcherTask := by
    rw [SentTask.packet, hpacket, List.length_append, List.length_append, Layout.length_write,
      ByteArr.length, hsigned]
    simp only [SIGNATURE_SIZE] at htotal
    omega
  have hbehind : (SentTask.packet ⟨p, built⟩).drop RequestResponseHeader.layout.width
      = built.signedRegion ++ (signTaskPacket built.signedRegion).toList := by
    rw [SentTask.packet, hpacket, Layout.drop_write]
  have hsizeField : (RequestResponseHeader.layout.read (SentTask.packet ⟨p, built⟩)).size
      = totalNumBytes p.dispatcherTask := by
    have hval : (RequestResponseHeader.setSize (totalNumBytes p.dispatcherTask)).val
        = totalNumBytes p.dispatcherTask :=
      RequestResponseHeader.val_setSize (lt_of_le_of_lt hsize (by decide))
    rw [SentTask.packet, hpacket, Layout.read_write, RequestResponseHeader.size_eq, taskHeader, hval,
      if_neg]
    simp only [SIGNATURE_SIZE] at htotal
    omega
  exact {
    header_size := by rw [hsizeField, hlen]
    length_packet := hlen
    writes_inside := fun w hw => by
      rw [hbuilt] at hw
      exact (buildPacket_writes_le signTaskPacket _ now w hw).trans hsize
    signed := hbehind
    decoded := fun stale => by
      have hheader : p.dispatcherTask.partialHeader
          = ByteArr.copy 36 (p.version.toList ++ p.prevHash.toList) := by
        rw [← hfrom.partialHeader, ByteArr.copy_self]
      rw [hlen, hbehind, List.append_assoc, hsigned, receiveTask_payload _ _ _ _ hsize, hheader,
        hfrom.nBits] }

/-- The difficulty field of a packet. -/
def SentTask.dispatcherDifficulty (sent : SentTask) : ByteArr 4 :=
  (QubicDogeMiningTask.layout.read ((sent.packet.drop RequestResponseHeader.layout.width).drop
    CustomQubicMiningTask.layout.width)).dispatcherDifficulty

variable {signTaskPacket} in
theorem dispatcherDifficulty_of_ready {buffer : ByteArr packetBufferSize} {params : Json}
    {extraNonce1 : List UInt8} {currentPoolDifficulty : DifficultyTarget} {cleanJobQueue : Bool}
    {now : UInt64} {p : ParsedTask} {built : BuiltPacket}
    (h : prepareTask signTaskPacket buffer params extraNonce1 currentPoolDifficulty cleanJobQueue now
      = .ok (.ready p built)) :
    SentTask.dispatcherDifficulty ⟨p, built⟩ = currentPoolDifficulty.compactRep := by
  obtain ⟨-, hsize, hbuilt⟩ := prepareTask_ready signTaskPacket h
  have hbuffer : totalNumBytes p.dispatcherTask ≤ buffer.toList.length := by
    rw [ByteArr.length]; exact hsize
  have hpacket := (buildPacket_packet signTaskPacket
    (dogeTaskOf p currentPoolDifficulty.compactRep cleanJobQueue) now hbuffer).2
  rw [← hbuilt] at hpacket
  rw [SentTask.dispatcherDifficulty, SentTask.packet, hpacket, Layout.drop_write,
    (payload_read _ _ _ _).2.1]
  rfl

/-- **Task packet round trip.**  The size check before the sends never fails,
and every packet that is sent reads back as the task the dispatcher stored and
the timestamp of the message. -/
theorem distributeTask_roundTrip (task : Json) (st : DistState)
    (currentPoolDifficulty : DifficultyTarget) (extraNonce1 : List UInt8) (propagate : Bool)
    (now : UInt64) :
    (∀ params cleanJobQueue built,
      prepareTask signTaskPacket st.buffer params extraNonce1 currentPoolDifficulty cleanJobQueue now
        ≠ .ok (.offsetMismatch built)) ∧
    ∀ st' sent,
      distributeTask signTaskPacket task st currentPoolDifficulty extraNonce1 propagate now
        = .ok (st', some sent) →
      ∃ params cleanJobQueue, task.field "params".toList = .ok params ∧
        cleanFlag params propagate = .ok cleanJobQueue ∧
        ParsedFrom params extraNonce1 currentPoolDifficulty sent.parsed ∧
        st'.activeTasks.get now = some sent.parsed.dispatcherTask ∧
        RoundTrip signTaskPacket currentPoolDifficulty.compactRep cleanJobQueue now sent := by
  constructor
  · intro params cleanJobQueue built
    exact prepareTask_ne_offsetMismatch signTaskPacket _ _ _ _ _ _ built
  · intro st' sent h
    obtain ⟨params, cleanJobQueue, hparams, hclean, hprepare, hactive⟩ :=
      distributeTask_some signTaskPacket h
    have hparse := (prepareTask_ready signTaskPacket hprepare).1
    refine ⟨params, cleanJobQueue, hparams, hclean, parseTask_spec hparse, ?_,
      roundTrip_of_ready hprepare⟩
    rw [hactive, ConcurrentHashMap.get_insert_self]

end

/-- The message of the source's comment, with short coinbase parts. -/
def sampleNotify : Json :=
  stratumNotification "mining.notify".toList [
    .string "c7b0".toList,
    .string "cbf0a10805b2fceb439afcfd59c606e1493eea5842fd466594310cbabbfc0eef".toList,
    .string "0100000001".toList,
    .string "ffffffff02".toList,
    .array [.string "e867437629d5".toList, .string "01e36e2c".toList],
    .string "20000000".toList, .string "192a848a".toList, .string "698da47c".toList,
    .boolean true]

theorem distributeTask_roundTrip_sample :
    ∃ st' sent cleanJobQueue,
      distributeTask (fun _ => ByteArr.fill 64 0xab) sampleNotify
        ⟨.empty, .initial, ByteArr.fill packetBufferSize 0xff⟩ poolBaseDifficulty [1, 2, 3, 4] false
        1700000000000 = .ok (st', some sent) ∧
      st'.activeTasks.get 1700000000000 = some sent.parsed.dispatcherTask ∧
      RoundTrip (fun _ => ByteArr.fill 64 0xab) poolBaseDifficulty.compactRep cleanJobQueue
        1700000000000 sent := by
  obtain ⟨params, cleanJobQueue, -, -, -, hstored, hround⟩ :=
    (distributeTask_roundTrip (fun _ => ByteArr.fill 64 0xab) sampleNotify
      ⟨.empty, .initial, ByteArr.fill packetBufferSize 0xff⟩ poolBaseDifficulty [1, 2, 3, 4] false
      1700000000000).2 _ _ rfl
  exact ⟨_, _, cleanJobQueue, rfl, hstored, hround⟩

end DogeConnect
