/-
`DogeProtocol.cs`: the monitor's reading of a task packet.

`DogeTaskParser.Parse` gets the payload behind the packet header.  It reads the
two fixed structs, then the variable fields by their lengths; it skips the
table of the branch lengths and takes every branch to be 32 bytes long.  An
array that would end behind the signature is skipped, an exception ends the
reading, and what has been read until then is returned.

The offset is an `int`, the lengths are `uint`s, a comparison of the two is
made in 64 bits.

    parse_payload       what `Parse` makes of a payload the dispatcher wrote
    parse_sent          the same for the packets `distributeTask` sends
    monitor_reads_iff   it is what was written just when all branches have 32 bytes
-/
import DogeConnect.TaskPacket

namespace DogeConnect

/-! ## The marshalled structs -/

structure CustomQubicMiningTaskHeader where
  jobId : UInt64
  customMiningType : UInt8
  deriving DecidableEq, Repr

/-- `Pack = 1`. -/
def CustomQubicMiningTaskHeader.layout : Layout UInt8 CustomQubicMiningTaskHeader :=
  (u64.seq u8).map (fun p => ⟨p.1, p.2⟩) (fun t => (t.jobId, t.customMiningType)) fun _ => rfl

structure QubicDogeMiningTaskFixed where
  cleanJobQueue : UInt8
  dispatcherDifficulty : ByteArr 4
  version : ByteArr 4
  nTime : ByteArr 4
  nBits : ByteArr 4
  prevHash : ByteArr 32
  extraNonce1NumBytes : UInt32
  coinbase1NumBytes : UInt32
  coinbase2NumBytes : UInt32
  numMerkleBranches : UInt32
  deriving DecidableEq, Repr

/-- `Pack = 1`, the arrays in place. -/
def QubicDogeMiningTaskFixed.layout : Layout UInt8 QubicDogeMiningTaskFixed :=
  (u8.seq <| (arr 4).seq <| (arr 4).seq <| (arr 4).seq <| (arr 4).seq <| (arr 32).seq <|
    u32.seq <| u32.seq <| u32.seq u32).map
    (fun ⟨clean, diff, version, nTime, nBits, prevHash, en1, cb1, cb2, branches⟩ =>
      ⟨clean, diff, version, nTime, nBits, prevHash, en1, cb1, cb2, branches⟩)
    (fun t => (t.cleanJobQueue, t.dispatcherDifficulty, t.version, t.nTime, t.nBits, t.prevHash,
      t.extraNonce1NumBytes, t.coinbase1NumBytes, t.coinbase2NumBytes, t.numMerkleBranches))
    fun _ => rfl

/-- What `Parse` sets of a `DogeTaskInfo`. -/
structure DogeTaskInfo where
  jobId : UInt64
  miningType : UInt8
  cleanJobQueue : Bool
  dispatcherDifficulty : ByteArr 4
  extraNonce2NumBytes : Nat
  version : ByteArr 4
  nTime : ByteArr 4
  nBits : ByteArr 4
  prevHash : ByteArr 32
  rawPacketSize : Nat
  extraNonce1 : List UInt8
  coinbase1 : List UInt8
  coinbase2 : List UInt8
  merkleBranches : List (List UInt8)
  signature : List UInt8
  deriving DecidableEq, Repr

/-! ## `Parse` -/

namespace DogeTaskParser

/-- `payload.AsSpan(offset, length).ToArray()`; `none` where it throws. -/
def span (payload : List UInt8) (offset : Int) (length : Nat) : Option (List UInt8) :=
  if 0 ≤ offset ∧ offset + length ≤ payload.length then
    some ((payload.drop offset.toNat).take length)
  else none

/-- One of the three byte fields, and the offset behind it. -/
def parseField (payload : List UInt8) (sigStart offset : Int) (numBytes : UInt32) :
    Option (List UInt8 × Int) :=
  if 0 < numBytes ∧ offset + numBytes.toNat ≤ sigStart then
    (span payload offset numBytes.toNat).map fun bytes =>
      (bytes, toInt (offset + toInt numBytes.toNat))
  else some ([], offset)

/-- The loop over the branches; an exception ends it like its condition. -/
def parseBranches (payload : List UInt8) (sigStart : Int) : Nat → Int → List (List UInt8)
  | 0, _ => []
  | n + 1, offset =>
    if toInt (offset + 32) ≤ sigStart then
      match span payload offset 32 with
      | some branch => branch :: parseBranches payload sigStart n (toInt (offset + 32))
      | none => []
    else []

structure VariableFields where
  extraNonce1 : List UInt8 := []
  coinbase1 : List UInt8 := []
  coinbase2 : List UInt8 := []
  merkleBranches : List (List UInt8) := []

/-- The `try` block, with what is set when an exception leaves it. -/
def parseVariable (payload : List UInt8) (sigStart offset : Int)
    (fixedTask : QubicDogeMiningTaskFixed) : VariableFields :=
  match parseField payload sigStart offset fixedTask.extraNonce1NumBytes with
  | none => {}
  | some (extraNonce1, offset) =>
    match parseField payload sigStart offset fixedTask.coinbase1NumBytes with
    | none => { extraNonce1 }
    | some (coinbase1, offset) =>
      match parseField payload sigStart offset fixedTask.coinbase2NumBytes with
      | none => { extraNonce1, coinbase1 }
      | some (coinbase2, offset) =>
        let branchSizesLen := toInt (toInt fixedTask.numMerkleBranches.toNat * 4)
        let offset := toInt (offset + branchSizesLen)
        { extraNonce1, coinbase1, coinbase2
          merkleBranches :=
            parseBranches payload sigStart fixedTask.numMerkleBranches.toNat offset }

/-- `Parse`; `none` is the `null` for a payload that is too short. -/
def parse (payload : List UInt8) (headerOffset : Nat) : Option DogeTaskInfo :=
  let taskHeaderSize := CustomQubicMiningTaskHeader.layout.width
  let fixedSize := QubicDogeMiningTaskFixed.layout.width
  if payload.length < headerOffset + taskHeaderSize + fixedSize + SIGNATURE_SIZE then none else
  let taskHeader := CustomQubicMiningTaskHeader.layout.read
    ((payload.drop headerOffset).take taskHeaderSize)
  let fixedTask := QubicDogeMiningTaskFixed.layout.read
    ((payload.drop (headerOffset + taskHeaderSize)).take fixedSize)
  let sigStart := payload.length - SIGNATURE_SIZE
  let fields := parseVariable payload sigStart (headerOffset + taskHeaderSize + fixedSize : Nat)
    fixedTask
  some {
    jobId := taskHeader.jobId
    miningType := taskHeader.customMiningType
    cleanJobQueue := fixedTask.cleanJobQueue ≠ 0
    dispatcherDifficulty := fixedTask.dispatcherDifficulty
    extraNonce2NumBytes := 8
    version := fixedTask.version
    nTime := fixedTask.nTime
    nBits := fixedTask.nBits
    prevHash := fixedTask.prevHash
    rawPacketSize := payload.length
    extraNonce1 := fields.extraNonce1
    coinbase1 := fields.coinbase1
    coinbase2 := fields.coinbase2
    merkleBranches := fields.merkleBranches
    signature := (payload.drop sigStart).take SIGNATURE_SIZE }

/-! ## What it reads of a payload -/

/-- The fixed cut: as many branches as asked for, while 32 bytes are left. -/
def cutBranches : Nat → List UInt8 → List (List UInt8)
  | 0, _ => []
  | n + 1, data => if 32 ≤ data.length then data.take 32 :: cutBranches n (data.drop 32) else []

theorem cutBranches_length : ∀ {n : Nat} {data : List UInt8}, ∀ b ∈ cutBranches n data, b.length = 32
  | 0, _, _, hb => absurd hb List.not_mem_nil
  | n + 1, data, b, hb => by
      rw [cutBranches] at hb
      split at hb
      next hlen =>
        rcases List.mem_cons.mp hb with rfl | hb
        · rw [List.length_take]
          omega
        · exact cutBranches_length b hb
      next => exact absurd hb List.not_mem_nil

/-- The cut finds the branches again just when all of them have its size. -/
theorem cutBranches_flatten_iff (branches : List (List UInt8)) :
    cutBranches branches.length branches.flatten = branches ↔ ∀ b ∈ branches, b.length = 32 := by
  constructor
  · intro h b hb
    rw [← h] at hb
    exact cutBranches_length b hb
  · intro h
    induction branches with
    | nil => rfl
    | cons b branches ih =>
        have hb : b.length = 32 := h b List.mem_cons_self
        rw [List.length_cons, List.flatten_cons, cutBranches, if_pos (by simp [hb]),
          List.take_left' hb, List.drop_left' hb,
          ih fun c hc => h c (List.mem_cons_of_mem _ hc)]

theorem toInt_natCast {n : Nat} (h : n < 2 ^ 31) : toInt n = n := by
  rw [toInt, Int.bmod_def]
  omega

theorem span_append {pre field rest : List UInt8} :
    span (pre ++ (field ++ rest)) (pre.length : Nat) field.length = some field := by
  have hroom : (0 : Int) ≤ (pre.length : Nat) ∧ ((pre.length : Nat) : Int) + field.length
      ≤ (pre ++ (field ++ rest)).length := by
    simp only [List.length_append]
    omega
  rw [span, if_pos hroom, Int.toNat_natCast, List.drop_left, List.take_left]

theorem parseField_append {pre field rest : List UInt8} {numBytes : UInt32} {sigStart : Nat}
    (hlen : numBytes.toNat = field.length) (hsig : pre.length + field.length ≤ sigStart)
    (hsmall : sigStart < 2 ^ 31) :
    parseField (pre ++ (field ++ rest)) sigStart (pre.length : Nat) numBytes
      = some (field, (((pre ++ field).length : Nat) : Int)) := by
  by_cases hpos : 0 < numBytes
  · have hfits : ((pre.length : Nat) : Int) + numBytes.toNat ≤ sigStart := by omega
    have hbehind : toInt ((pre.length : Nat) + toInt field.length) = ((pre ++ field).length : Nat) := by
      rw [toInt_natCast (by omega), ← Int.natCast_add, toInt_natCast (by omega), List.length_append]
    rw [parseField, if_pos ⟨hpos, hfits⟩, hlen, span_append, hbehind]
    rfl
  · have hzero : numBytes.toNat = 0 := by
      have hle : numBytes ≤ 0 := UInt32.not_lt.mp hpos
      exact Nat.le_zero.mp (UInt32.le_iff_toNat_le.mp hle)
    have hnil : field = [] := List.eq_nil_of_length_eq_zero (hlen ▸ hzero)
    rw [parseField, if_neg (fun h => hpos h.1), hnil, List.append_nil]

/-- The loop makes the fixed cut of what stands between the table and the
signature. -/
theorem parseBranches_append : ∀ {n : Nat} {pre data signature : List UInt8},
    (pre ++ data).length + 32 < 2 ^ 31 →
    parseBranches (pre ++ (data ++ signature)) ((pre ++ data).length : Nat) n (pre.length : Nat)
      = cutBranches n data
  | 0, _, _, _, _ => rfl
  | n + 1, pre, data, signature, hsmall => by
      have hnext : toInt ((pre.length : Nat) + 32) = ((pre.length + 32 : Nat) : Int) := by
        rw [List.length_append] at hsmall
        exact toInt_natCast (n := pre.length + 32) (by omega)
      rw [parseBranches, cutBranches, hnext]
      by_cases hlen : 32 ≤ data.length
      · obtain ⟨branch, data, rfl, hbranch, -⟩ := Writes.split_at data hlen
        have hspan : span (pre ++ (branch ++ (data ++ signature))) (pre.length : Nat) branch.length
            = some branch := span_append
        have ih : parseBranches ((pre ++ branch) ++ (data ++ signature))
            (((pre ++ branch) ++ data).length : Nat) n ((pre ++ branch).length : Nat)
              = cutBranches n data :=
          parseBranches_append (by rw [List.append_assoc]; exact hsmall)
        have hpre : pre.length + 32 = (pre ++ branch).length := by
          rw [List.length_append, hbranch]
        have hroom : ((pre.length + 32 : Nat) : Int) ≤ ((pre ++ (branch ++ data)).length : Nat) := by
          simp only [List.length_append]
          omega
        rw [hbranch] at hspan
        simp only [List.append_assoc] at ih ⊢
        rw [if_pos hroom, if_pos hlen, hspan, List.take_left' hbranch, List.drop_left' hbranch, hpre]
        exact congrArg (branch :: ·) ih
      · rw [if_neg (by rw [List.length_append]; omega), if_neg hlen]

/-! ## A payload the dispatcher wrote -/

theorem parseVariable_append {pre table : List UInt8} {t : DispatcherMiningTask} {sigStart : Nat}
    (fixedTask : QubicDogeMiningTaskFixed) (signature : List UInt8)
    (hextra : fixedTask.extraNonce1NumBytes.toNat = t.extraNonce1.length)
    (hcoinbase1 : fixedTask.coinbase1NumBytes.toNat = t.coinbase1.length)
    (hcoinbase2 : fixedTask.coinbase2NumBytes.toNat = t.coinbase2.length)
    (hbranches : fixedTask.numMerkleBranches.toNat = t.merkleBranches.length)
    (htable : table.length = t.merkleBranches.length * 4)
    (hsig : sigStart = (pre ++ (t.extraNonce1 ++ (t.coinbase1 ++ (t.coinbase2
      ++ (table ++ t.merkleBranches.flatten))))).length)
    (hsmall : sigStart + 32 < 2 ^ 31) :
    parseVariable (pre ++ (t.extraNonce1 ++ (t.coinbase1 ++ (t.coinbase2
        ++ (table ++ (t.merkleBranches.flatten ++ signature)))))) sigStart (pre.length : Nat) fixedTask
      = ⟨t.extraNonce1, t.coinbase1, t.coinbase2,
          cutBranches t.merkleBranches.length t.merkleBranches.flatten⟩ := by
  simp only [List.length_append] at hsig
  have hread1 : parseField (pre ++ (t.extraNonce1 ++ (t.coinbase1 ++ (t.coinbase2
      ++ (table ++ (t.merkleBranches.flatten ++ signature)))))) sigStart (pre.length : Nat)
      fixedTask.extraNonce1NumBytes
        = some (t.extraNonce1, (((pre ++ t.extraNonce1).length : Nat) : Int)) :=
    parseField_append hextra (by omega) (by omega)
  have hread2 : parseField ((pre ++ t.extraNonce1) ++ (t.coinbase1 ++ (t.coinbase2
      ++ (table ++ (t.merkleBranches.flatten ++ signature))))) sigStart
      ((pre ++ t.extraNonce1).length : Nat) fixedTask.coinbase1NumBytes
        = some (t.coinbase1, ((((pre ++ t.extraNonce1) ++ t.coinbase1).length : Nat) : Int)) :=
    parseField_append hcoinbase1 (by rw [List.length_append]; omega) (by omega)
  have hread3 : parseField (((pre ++ t.extraNonce1) ++ t.coinbase1) ++ (t.coinbase2
      ++ (table ++ (t.merkleBranches.flatten ++ signature)))) sigStart
      (((pre ++ t.extraNonce1) ++ t.coinbase1).length : Nat) fixedTask.coinbase2NumBytes
        = some (t.coinbase2,
            (((((pre ++ t.extraNonce1) ++ t.coinbase1) ++ t.coinbase2).length : Nat) : Int)) :=
    parseField_append hcoinbase2 (by simp only [List.length_append]; omega) (by omega)
  simp only [List.append_assoc] at hread2 hread3
  -- the table is stepped over, its entries are not looked at
  have hskip : toInt ((pre ++ (t.extraNonce1 ++ (t.coinbase1 ++ t.coinbase2))).length
      + toInt (toInt (fixedTask.numMerkleBranches.toNat : Nat) * 4))
        = ((pre ++ (t.extraNonce1 ++ (t.coinbase1 ++ (t.coinbase2 ++ table)))).length : Nat) := by
    rw [hbranches, toInt_natCast (n := t.merkleBranches.length) (by omega)]
    have htimes : toInt ((t.merkleBranches.length : Int) * 4) = (t.merkleBranches.length * 4 : Nat) :=
      toInt_natCast (n := t.merkleBranches.length * 4) (by omega)
    rw [htimes, ← Int.natCast_add, toInt_natCast (by simp only [List.length_append]; omega)]
    simp only [List.length_append]
    omega
  have hloop : parseBranches
      ((pre ++ (t.extraNonce1 ++ (t.coinbase1 ++ (t.coinbase2 ++ table))))
        ++ (t.merkleBranches.flatten ++ signature))
      (((pre ++ (t.extraNonce1 ++ (t.coinbase1 ++ (t.coinbase2 ++ table))))
        ++ t.merkleBranches.flatten).length : Nat) t.merkleBranches.length
      ((pre ++ (t.extraNonce1 ++ (t.coinbase1 ++ (t.coinbase2 ++ table)))).length : Nat)
        = cutBranches t.merkleBranches.length t.merkleBranches.flatten :=
    parseBranches_append (by simp only [List.length_append]; omega)
  have hend : ((pre ++ (t.extraNonce1 ++ (t.coinbase1 ++ (t.coinbase2 ++ table))))
      ++ t.merkleBranches.flatten).length = sigStart := by
    simp only [List.length_append]
    omega
  rw [hend] at hloop
  simp only [List.append_assoc] at hloop
  rw [parseVariable, hread1]
  dsimp only
  rw [hread2]
  dsimp only
  rw [hread3]
  dsimp only
  rw [hskip, hbranches, hloop]

/-- The marshalled struct has the fields of the packed one at the same places. -/
def fixedOf (dogeTask : QubicDogeMiningTask) : QubicDogeMiningTaskFixed where
  cleanJobQueue := dogeTask.cleanJobQueue
  dispatcherDifficulty := dogeTask.dispatcherDifficulty
  version := dogeTask.version
  nTime := dogeTask.nTime
  nBits := dogeTask.nBits
  prevHash := dogeTask.prevHash
  extraNonce1NumBytes := dogeTask.extraNonce1NumBytes
  coinbase1NumBytes := dogeTask.coinbase1NumBytes
  coinbase2NumBytes := dogeTask.coinbase2NumBytes
  numMerkleBranches := dogeTask.numMerkleBranches

theorem fixed_read (buf : List UInt8) :
    QubicDogeMiningTaskFixed.layout.read buf = fixedOf (QubicDogeMiningTask.layout.read buf) := rfl

/-- Two structs of 74 bytes, the fields, the table and the branches. -/
theorem payload_length_eq (t : DispatcherMiningTask) (dogeTask : QubicDogeMiningTask)
    (jobId : UInt64) :
    (payload t dogeTask jobId).length
      = 74 + (t.extraNonce1.length + (t.coinbase1.length + (t.coinbase2.length
        + (t.merkleBranches.length * 4 + t.merkleBranches.flatten.length)))) := by
  rw [payload, List.length_append, Layout.length_write, taskFields_length, List.length_flatten,
    show CustomQubicMiningTask.layout.width = 9 from rfl,
    show QubicDogeMiningTask.layout.width = 65 from rfl]
  omega

theorem payload_signed_length (t : DispatcherMiningTask) (dogeTask : QubicDogeMiningTask)
    (jobId : UInt64) (signature : ByteArr 64) :
    (payload t dogeTask jobId ++ signature.toList).length
      = totalNumBytes t - RequestResponseHeader.layout.width := by
  have htotal := signatureOffset_add t dogeTask
  have hlen := payload_length t dogeTask jobId
  rw [List.length_append, ByteArr.length]
  simp only [SIGNATURE_SIZE] at htotal
  omega

/-- The two structs at the front of a payload, as they are marshalled. -/
theorem payload_structs (t : DispatcherMiningTask) (dogeTask : QubicDogeMiningTask)
    (jobId : UInt64) (rest : List UInt8) :
    CustomQubicMiningTaskHeader.layout.read (((payload t dogeTask jobId ++ rest).drop 0).take
        CustomQubicMiningTaskHeader.layout.width) = ⟨jobId, DOGE⟩ ∧
    QubicDogeMiningTaskFixed.layout.read (((payload t dogeTask jobId ++ rest).drop
        (0 + CustomQubicMiningTaskHeader.layout.width)).take QubicDogeMiningTaskFixed.layout.width)
      = fixedOf dogeTask := by
  obtain ⟨hheader, hfixed, -⟩ := payload_read t dogeTask jobId rest
  have hlen := payload_length_eq t dogeTask jobId
  have hwidth : CustomQubicMiningTaskHeader.layout.width = 9 := rfl
  have hwidth' : QubicDogeMiningTaskFixed.layout.width = 65 := rfl
  constructor
  · rw [List.drop_zero, Layout.read_take _ (by rw [List.length_append]; omega)]
    exact congrArg (fun q => (⟨q.jobId, q.customMiningType⟩ : CustomQubicMiningTaskHeader)) hheader
  · rw [Nat.zero_add, Layout.read_take _ (by rw [List.length_drop, List.length_append]; omega),
      fixed_read]
    exact congrArg fixedOf hfixed

/-- A payload and its signature, as `Parse` reads them. -/
theorem parse_payload {t : DispatcherMiningTask} {dogeTask : QubicDogeMiningTask} {jobId : UInt64}
    (signature : ByteArr 64) (hlengths : LengthFields t dogeTask)
    (hsize : totalNumBytes t ≤ packetBufferSize) :
    parse (payload t dogeTask jobId ++ signature.toList) 0 = some {
      jobId := jobId
      miningType := DOGE
      cleanJobQueue := dogeTask.cleanJobQueue ≠ 0
      dispatcherDifficulty := dogeTask.dispatcherDifficulty
      extraNonce2NumBytes := 8
      version := dogeTask.version
      nTime := dogeTask.nTime
      nBits := dogeTask.nBits
      prevHash := dogeTask.prevHash
      rawPacketSize := totalNumBytes t - RequestResponseHeader.layout.width
      extraNonce1 := t.extraNonce1
      coinbase1 := t.coinbase1
      coinbase2 := t.coinbase2
      merkleBranches := cutBranches t.merkleBranches.length t.merkleBranches.flatten
      signature := signature.toList } := by
  obtain ⟨hheader, hfixed⟩ := payload_structs t dogeTask jobId signature.toList
  have hlen := payload_length_eq t dogeTask jobId
  have hsigned := payload_signed_length t dogeTask jobId signature
  have hsum : (payload t dogeTask jobId ++ signature.toList).length
      = (payload t dogeTask jobId).length + SIGNATURE_SIZE := by
    rw [List.length_append, ByteArr.length, SIGNATURE_SIZE]
  have hsig : (payload t dogeTask jobId ++ signature.toList).length - SIGNATURE_SIZE
      = (payload t dogeTask jobId).length := by
    omega
  have hwidth : CustomQubicMiningTaskHeader.layout.width = 9 := rfl
  have hwidth' : QubicDogeMiningTaskFixed.layout.width = 65 := rfl
  have hvariable : parseVariable (payload t dogeTask jobId ++ signature.toList)
      (payload t dogeTask jobId).length (0 + CustomQubicMiningTaskHeader.layout.width
        + QubicDogeMiningTaskFixed.layout.width : Nat) (fixedOf dogeTask)
      = ⟨t.extraNonce1, t.coinbase1, t.coinbase2,
          cutBranches t.merkleBranches.length t.merkleBranches.flatten⟩ := by
    have hpayload : payload t dogeTask jobId = (CustomQubicMiningTask.layout.write ⟨jobId, DOGE⟩
        ++ QubicDogeMiningTask.layout.write dogeTask) ++ (t.extraNonce1 ++ (t.coinbase1
          ++ (t.coinbase2 ++ ((branchTable t.merkleBranches).flatten ++ t.merkleBranches.flatten)))) := by
      simp only [payload, taskFields, List.flatten_cons, List.flatten_append, List.append_assoc]
    have hpre : (CustomQubicMiningTask.layout.write ⟨jobId, DOGE⟩
        ++ QubicDogeMiningTask.layout.write dogeTask).length
          = 0 + CustomQubicMiningTaskHeader.layout.width + QubicDogeMiningTaskFixed.layout.width := by
      rw [List.length_append, Layout.length_write, Layout.length_write]
      rfl
    have hread := parseVariable_append (fixedOf dogeTask) signature.toList hlengths.extraNonce1
      hlengths.coinbase1 hlengths.coinbase2 hlengths.branches (branchTable_length t.merkleBranches)
      (congrArg List.length hpayload) (by simp only [packetBufferSize] at hsize; omega)
    rw [hpre] at hread
    simpa only [hpayload, List.append_assoc] using hread
  rw [parse, if_neg (by rw [hsum, hwidth, hwidth']; omega), hsig]
  simp only [hheader, hfixed, hvariable, hsigned, List.drop_left]
  rw [List.take_of_length_le (by rw [ByteArr.length, SIGNATURE_SIZE])]
  rfl

end DogeTaskParser

/-! ## The packets of `distributeTask` -/

/-- What a packet contains, as the sender knows it. -/
def SentTask.taskInfo (sent : SentTask) (signature : ByteArr 64) (compactRep : ByteArr 4)
    (cleanJobQueue : Bool) (now : UInt64) : DogeTaskInfo where
  jobId := now
  miningType := DOGE
  cleanJobQueue := cleanJobQueue
  dispatcherDifficulty := compactRep
  extraNonce2NumBytes := extraNonce2NumBytes
  version := sent.parsed.version
  nTime := sent.parsed.ntime
  nBits := sent.parsed.nbits
  prevHash := sent.parsed.prevHash
  rawPacketSize := sent.packet.length - RequestResponseHeader.layout.width
  extraNonce1 := sent.parsed.dispatcherTask.extraNonce1
  coinbase1 := sent.parsed.dispatcherTask.coinbase1
  coinbase2 := sent.parsed.dispatcherTask.coinbase2
  merkleBranches := sent.parsed.dispatcherTask.merkleBranches
  signature := signature.toList

/-- The monitor's payload: the packet behind its header. -/
def SentTask.payload (sent : SentTask) : List UInt8 :=
  sent.packet.drop RequestResponseHeader.layout.width

section
variable (signTaskPacket : List UInt8 → ByteArr 64)

/-- All of a packet but the branches is read as written; the branches are cut
from their bytes in pieces of 32. -/
theorem parse_sent {buffer : ByteArr packetBufferSize} {params : Json}
    {extraNonce1 : List UInt8} {currentPoolDifficulty : DifficultyTarget} {cleanJobQueue : Bool}
    {now : UInt64} {p : ParsedTask} {built : BuiltPacket}
    (h : prepareTask signTaskPacket buffer params extraNonce1 currentPoolDifficulty cleanJobQueue now
      = .ok (.ready p built)) :
    DogeTaskParser.parse (SentTask.payload ⟨p, built⟩) 0 = some
      { SentTask.taskInfo ⟨p, built⟩ (signTaskPacket built.signedRegion)
          currentPoolDifficulty.compactRep cleanJobQueue now with
        merkleBranches := DogeTaskParser.cutBranches p.dispatcherTask.merkleBranches.length
          p.dispatcherTask.merkleBranches.flatten } := by
  obtain ⟨-, hsize, hbuilt⟩ := prepareTask_ready signTaskPacket h
  have hround := roundTrip_of_ready h
  have hlengths := dogeTaskOf_lengthFields currentPoolDifficulty.compactRep cleanJobQueue hsize
  have hbuffer : totalNumBytes p.dispatcherTask ≤ buffer.toList.length := by
    rw [ByteArr.length]; exact hsize
  have hsigned := (buildPacket_packet signTaskPacket
    (dogeTaskOf p currentPoolDifficulty.compactRep cleanJobQueue) now hbuffer).1
  rw [← hbuilt] at hsigned
  have hclean : decide ((dogeTaskOf p currentPoolDifficulty.compactRep cleanJobQueue).cleanJobQueue
      ≠ 0) = cleanJobQueue := by
    cases cleanJobQueue <;> rfl
  have hpayload : SentTask.payload ⟨p, built⟩
      = payload p.dispatcherTask (dogeTaskOf p currentPoolDifficulty.compactRep cleanJobQueue) now
          ++ (signTaskPacket built.signedRegion).toList := by
    rw [← hsigned]
    exact hround.signed
  rw [hpayload, DogeTaskParser.parse_payload _ hlengths hsize, hclean, SentTask.taskInfo,
    hround.length_packet]
  rfl

/-- **Monitor.**  For every packet that is sent, `Parse` returns what the packet
contains just when all merkle branches have 32 bytes. -/
theorem monitor_reads_iff {task : Json} {st st' : DistState}
    {currentPoolDifficulty : DifficultyTarget} {extraNonce1 : List UInt8} {propagate : Bool}
    {now : UInt64} {sent : SentTask}
    (h : distributeTask signTaskPacket task st currentPoolDifficulty extraNonce1 propagate now
      = .ok (st', some sent)) :
    ∃ params cleanJobQueue, task.field "params".toList = .ok params ∧
      cleanFlag params propagate = .ok cleanJobQueue ∧
      (DogeTaskParser.parse sent.payload 0
          = some (sent.taskInfo (signTaskPacket sent.built.signedRegion)
              currentPoolDifficulty.compactRep cleanJobQueue now) ↔
        ∀ b ∈ sent.parsed.dispatcherTask.merkleBranches, b.length = 32) := by
  obtain ⟨params, cleanJobQueue, hparams, hclean, hprepare, -⟩ :=
    distributeTask_some signTaskPacket h
  have hparse := parse_sent signTaskPacket hprepare
  refine ⟨params, cleanJobQueue, hparams, hclean, ?_⟩
  rw [← DogeTaskParser.cutBranches_flatten_iff, show sent = ⟨sent.parsed, sent.built⟩ from rfl, hparse]
  constructor
  · intro heq
    exact congrArg DogeTaskInfo.merkleBranches (Option.some.inj heq)
  · intro hcut
    rw [hcut]
    rfl

end

/-- A job with an empty coinbase part and one branch of 32 bytes. -/
def fullBranchNotify : Json :=
  stratumNotification "mining.notify".toList [
    .string "c7b1".toList,
    .string "cbf0a10805b2fceb439afcfd59c606e1493eea5842fd466594310cbabbfc0eef".toList,
    .string "0100000001".toList,
    .string "".toList,
    .array [.string "1d2f0ab7e867437629d501e36e2c90aa1d2f0ab7e867437629d501e36e2c90aa".toList],
    .string "20000000".toList, .string "192a848a".toList, .string "698da47c".toList,
    .boolean true]

theorem monitor_reads_fullBranch :
    ∃ st' sent cleanJobQueue,
      distributeTask (fun _ => ByteArr.fill 64 0xab) fullBranchNotify
        ⟨.empty, .initial, ByteArr.fill packetBufferSize 0xff⟩ poolBaseDifficulty [1, 2, 3, 4] false
        1700000000000 = .ok (st', some sent) ∧
      DogeTaskParser.parse sent.payload 0 = some (sent.taskInfo (ByteArr.fill 64 0xab)
        poolBaseDifficulty.compactRep cleanJobQueue 1700000000000) := by
  obtain ⟨params, cleanJobQueue, -, -, hreads⟩ := monitor_reads_iff (fun _ => ByteArr.fill 64 0xab)
    (show distributeTask (fun _ => ByteArr.fill 64 0xab) fullBranchNotify
        ⟨.empty, .initial, ByteArr.fill packetBufferSize 0xff⟩ poolBaseDifficulty [1, 2, 3, 4] false
        1700000000000 = .ok (_, some _) from rfl)
  exact ⟨_, _, cleanJobQueue, rfl, hreads.mpr (by decide)⟩

/-- With branches of 6 and 4 bytes the monitor shows none. -/
theorem monitor_misses_short_branches :
    ∃ st' sent info,
      distributeTask (fun _ => ByteArr.fill 64 0xab) sampleNotify
        ⟨.empty, .initial, ByteArr.fill packetBufferSize 0xff⟩ poolBaseDifficulty [1, 2, 3, 4] false
        1700000000000 = .ok (st', some sent) ∧
      DogeTaskParser.parse sent.payload 0 = some info ∧
      sent.parsed.dispatcherTask.merkleBranches
        = [[0xe8, 0x67, 0x43, 0x76, 0x29, 0xd5], [0x01, 0xe3, 0x6e, 0x2c]] ∧
      info.merkleBranches = [] := by
  obtain ⟨params, cleanJobQueue, -, -, hprepare, -⟩ := distributeTask_some
    (fun _ => ByteArr.fill 64 0xab)
    (show distributeTask (fun _ => ByteArr.fill 64 0xab) sampleNotify
        ⟨.empty, .initial, ByteArr.fill packetBufferSize 0xff⟩ poolBaseDifficulty [1, 2, 3, 4] false
        1700000000000 = .ok (_, some _) from rfl)
  exact ⟨_, _, _, rfl, parse_sent _ hprepare, by decide, rfl⟩

end DogeConnect
