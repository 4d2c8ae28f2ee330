/-
`task_dist_thread.cpp`: from a `mining.notify` to a task packet.

`distributeTask` clears the active tasks if the job is clean, reads the notify
parameters into a `DispatcherMiningTask`, lays the packet out in a static
4096-byte buffer, signs what stands between header and signature, sends it and
stores the task.  Every way out of the function is an outcome here: a thrown
`type_error`, a wrong field size, a packet too large for the buffer, and the
final check of the running offset against the precomputed size.

The packet is built as the code builds it, by writes at offsets into a buffer
with old contents; what they leave is said in `Lib.Writes`.

Signing is a parameter: a function from the signed bytes to 64 bytes.
-/
import DogeConnect.Structs
import DogeConnect.Difficulty
import DogeConnect.Json
import DogeConnect.Concurrency
import DogeConnect.Lib.Writes

namespace DogeConnect

open Writes

/-! ## Reading the notify parameters -/

/-- `swap` of bytes 0 and 3, 1 and 2 in every complete 4-byte word. -/
def wordSwap : List UInt8 → List UInt8
  | a :: b :: c :: d :: rest => d :: c :: b :: a :: wordSwap rest
  | rest => rest

@[simp] theorem wordSwap_length : ∀ bs : List UInt8, (wordSwap bs).length = bs.length
  | [] => rfl
  | [_] => rfl
  | [_, _] => rfl
  | [_, _, _] => rfl
  | _ :: _ :: _ :: _ :: rest => by simp [wordSwap, wordSwap_length rest]

/-- The locals of `distributeTask` once the message has been read. -/
structure ParsedTask where
  dispatcherTask : DispatcherMiningTask
  version : ByteArr 4
  ntime : ByteArr 4
  nbits : ByteArr 4
  prevHash : ByteArr 32
  deriving DecidableEq, Repr

/-- A constant array element as a string. -/
def stringParam (params : Json) (i : Nat) : Except JsonError Str := do
  (← params.constIndex i).getString

/-- The part of `distributeTask` that reads `params`; `none` is the return on a
field of unexpected size. -/
def parseTask (params : Json) (extraNonce1 : List UInt8) (currentPoolDifficulty : DifficultyTarget) :
    Except JsonError (Option ParsedTask) := do
  let taskId ← stringParam params 0
  let version := hexToBytes (← stringParam params 5) .LittleEndian
  let ntime := hexToBytes (← stringParam params 7) .LittleEndian
  let nbits := hexToBytes (← stringParam params 6) .LittleEndian
  -- stratum sends prevHash with the bytes of each word reversed
  let prevHash := wordSwap (hexToBytes (← stringParam params 1) .BigEndian)
  if version.length ≠ 4 ∨ prevHash.length ≠ 32 ∨ ntime.length ≠ 4 ∨ nbits.length ≠ 4 then
    return none
  let coinbase1 := hexToBytes (← stringParam params 2) .BigEndian
  let coinbase2 := hexToBytes (← stringParam params 3) .BigEndian
  let merkleBranches ← (← params.constIndex 4).elements.mapM fun branch => do
    return hexToBytes (← branch.getString) .BigEndian
  return some {
    dispatcherTask := {
      taskId := taskId
      targetPool := currentPoolDifficulty.fullRep
      partialHeader := ByteArr.copy 36 (version ++ prevHash)
      nBits := ByteArr.copy 4 nbits
      extraNonce1 := extraNonce1
      coinbase1 := coinbase1
      coinbase2 := coinbase2
      merkleBranches := merkleBranches }
    version := ByteArr.copy 4 version
    ntime := ByteArr.copy 4 ntime
    nbits := ByteArr.copy 4 nbits
    prevHash := ByteArr.copy 32 prevHash }

/-! ## The packet buffer -/

/-- The size of the static buffer. -/
def packetBufferSize : Nat := 4096

/-- `totalNumBytes`, summed from the field lengths before anything is written. -/
def totalNumBytes (t : DispatcherMiningTask) : Nat :=
  RequestResponseHeader.layout.width + CustomQubicMiningTask.layout.width
    + QubicDogeMiningTask.layout.width + t.extraNonce1.length + t.coinbase1.length
    + t.coinbase2.length + t.merkleBranches.length * 4
    + (t.merkleBranches.map List.length).sum + SIGNATURE_SIZE

/-- The header as written: dejavu zero, the size, the type. -/
def taskHeader (total : Nat) : RequestResponseHeader where
  sizeBytes := RequestResponseHeader.setSize total
  type := CustomQubicMiningTask.type
  dejavu := 0

/-- The fixed part of the task as written. -/
def dogeTaskOf (p : ParsedTask) (compactRep : ByteArr 4) (cleanJobQueue : Bool) :
    QubicDogeMiningTask where
  cleanJobQueue := if cleanJobQueue then 1 else 0
  dispatcherDifficulty := compactRep
  version := p.version
  nTime := p.ntime
  nBits := p.nbits
  prevHash := p.prevHash
  extraNonce1NumBytes := UInt32.ofNat p.dispatcherTask.extraNonce1.length
  coinbase1NumBytes := UInt32.ofNat p.dispatcherTask.coinbase1.length
  coinbase2NumBytes := UInt32.ofNat p.dispatcherTask.coinbase2.length
  numMerkleBranches := UInt32.ofNat p.dispatcherTask.merkleBranches.length

/-- The branch length table, one `unsigned int` each. -/
def branchTable (branches : List (List UInt8)) : List (List UInt8) :=
  branches.map fun b => u32.write (UInt32.ofNat b.length)

/-- What follows the `CustomQubicMiningTask`, in writing order. -/
def taskFields (t : DispatcherMiningTask) (dogeTask : QubicDogeMiningTask) : List (List UInt8) :=
  QubicDogeMiningTask.layout.write dogeTask :: t.extraNonce1 :: t.coinbase1 :: t.coinbase2
    :: (branchTable t.merkleBranches ++ t.merkleBranches)

/-- The offset after the `CustomQubicMiningTask`. -/
def fieldsOffset : Nat := RequestResponseHeader.layout.width + CustomQubicMiningTask.layout.width

/-- `offset` when the last branch has been copied. -/
def signatureOffset (t : DispatcherMiningTask) (dogeTask : QubicDogeMiningTask) : Nat :=
  fieldsOffset + (taskFields t dogeTask).flatten.length

/-- The writes up to the signature, in the order of the code: the header, the
mining type, the fields and payload, and last the job id in front of them. -/
def packetWrites (t : DispatcherMiningTask) (dogeTask : QubicDogeMiningTask) (jobId : UInt64) :
    List (Nat × List UInt8) :=
  [(0, RequestResponseHeader.layout.write (taskHeader (totalNumBytes t))),
    (RequestResponseHeader.layout.width + 8, [DOGE])]
    ++ consecutiveWrites fieldsOffset (taskFields t dogeTask)
    ++ [(RequestResponseHeader.layout.width, u64.write jobId)]

section
variable (signTaskPacket : List UInt8 → ByteArr 64)

/-- A packet in the buffer, ready to be sent. -/
structure BuiltPacket where
  buffer : List UInt8
  /-- The bytes handed to the signing function. -/
  signedRegion : List UInt8
  /-- Every write made, the signature last. -/
  writes : List (Nat × List UInt8)
  /-- `offset` after the signature. -/
  offset : Nat
  deriving DecidableEq, Repr

/-- Fill the buffer and sign. -/
def buildPacket (buffer : List UInt8) (t : DispatcherMiningTask) (dogeTask : QubicDogeMiningTask)
    (jobId : UInt64) : BuiltPacket :=
  let writes := packetWrites t dogeTask jobId
  let unsigned := writes.foldl writeAt buffer
  let offset := signatureOffset t dogeTask
  let header := RequestResponseHeader.layout.width
  let signed := (unsigned.drop header).take (offset - header)
  let signature := (offset, (signTaskPacket signed).toList)
  { buffer := writeAt unsigned signature
    signedRegion := signed
    writes := writes ++ [signature]
    offset := offset + SIGNATURE_SIZE }

/-! ## `distributeTask` -/

/-- How the building part of `distributeTask` ends without an exception. -/
inductive TaskOutcome
  /-- A field of unexpected size. -/
  | wrongSize
  /-- `totalNumBytes > buffer.size()`. -/
  | tooLarge
  /-- `offset != totalNumBytes`. -/
  | offsetMismatch (built : BuiltPacket)
  /-- The packet is sent and the task stored. -/
  | ready (parsed : ParsedTask) (built : BuiltPacket)
  deriving DecidableEq, Repr

/-- Everything between `activeTasks.clear()` and the sends; `now` is the clock
in milliseconds, the job id. -/
def prepareTask (buffer : ByteArr packetBufferSize) (params : Json) (extraNonce1 : List UInt8)
    (currentPoolDifficulty : DifficultyTarget) (cleanJobQueue : Bool) (now : UInt64) :
    Except JsonError TaskOutcome := do
  match ← parseTask params extraNonce1 currentPoolDifficulty with
  | none => return .wrongSize
  | some p =>
    if totalNumBytes p.dispatcherTask > packetBufferSize then return .tooLarge
    let dogeTask := dogeTaskOf p currentPoolDifficulty.compactRep cleanJobQueue
    let built := buildPacket signTaskPacket buffer.toList p.dispatcherTask dogeTask now
    if built.offset ≠ totalNumBytes p.dispatcherTask then return .offsetMismatch built
    return .ready p built

/-- `params[8].get<bool>() || propagateCleanJobFlag`. -/
def cleanFlag (params : Json) (propagateCleanJobFlag : Bool) : Except JsonError Bool := do
  return (← (← params.constIndex 8).getBool) || propagateCleanJobFlag

/-- What `distributeTask` reads and writes besides its arguments; the buffer is a
static array, so it keeps what the last call left. -/
structure DistState where
  activeTasks : ConcurrentHashMap UInt64 DispatcherMiningTask
  stats : DispatcherStats
  buffer : ByteArr packetBufferSize

/-- A task handed to the network. -/
structure SentTask where
  parsed : ParsedTask
  built : BuiltPacket
  deriving DecidableEq, Repr

/-- The bytes passed to `sendMessage`: `totalNumBytes` from the buffer's start. -/
def SentTask.packet (s : SentTask) : List UInt8 :=
  s.built.buffer.take (totalNumBytes s.parsed.dispatcherTask)

/-- A call of `distributeTask` run to its end, with what it sent, if anything. -/
def distributeTask (task : Json) (st : DistState) (currentPoolDifficulty : DifficultyTarget)
    (extraNonce1 : List UInt8) (propagateCleanJobFlag : Bool) (now : UInt64) :
    Except JsonError (DistState × Option SentTask) := do
  let params ← task.field "params".toList
  let cleanJobQueue ← cleanFlag params propagateCleanJobFlag
  let activeTasks := if cleanJobQueue then st.activeTasks.clear else st.activeTasks
  match ← prepareTask signTaskPacket st.buffer params extraNonce1 currentPoolDifficulty
      cleanJobQueue now with
  | .wrongSize => return ({ st with activeTasks }, none)
  | .tooLarge => return ({ st with activeTasks }, none)
  | .offsetMismatch built => return ({ st with activeTasks, buffer := ByteArr.copy _ built.buffer }, none)
  | .ready p built =>
    return ({ activeTasks := activeTasks.insert now p.dispatcherTask
              stats := { st.stats with tasksDistributed := st.stats.tasksDistributed + 1 }
              buffer := ByteArr.copy _ built.buffer }, some ⟨p, built⟩)

end

/-! ## The messages of the loop -/

/-- What one popped message asks of `taskDistributionLoop`. -/
inductive StratumMessage
  | ignored
  | setDifficulty (divisor : UInt64)
  | notify (cleanJobQueue : Bool)
  | shareResponse
  deriving DecidableEq, Repr

/-- The dispatch on `id` and `method`, written out twice in the loop. -/
def readMessage (msg : Json) : Except JsonError StratumMessage := do
  if !msg.contains "id".toList then return .ignored
  let id ← msg.field "id".toList
  if id.isNull then
    let method ← msg.field "method".toList
    if method.eqString "mining.set_difficulty".toList then
      return .setDifficulty (← (← (← msg.field "params".toList).index 0).getUInt64)
    else if method.eqString "mining.notify".toList then
      return .notify (← (← (← msg.field "params".toList).index 8).getBool)
    else return .ignored
  else if id.isNumberUnsigned then return .shareResponse
  else return .ignored

theorem readMessage_cases {msg : Json} {m : StratumMessage} (h : readMessage msg = .ok m) :
    m = .ignored ∨
    (∃ params divisor, msg.field "params".toList = .ok params ∧
      (params.index 0).bind Json.getUInt64 = .ok divisor ∧ m = .setDifficulty divisor) ∨
    (∃ params clean, msg.field "params".toList = .ok params ∧
      (params.index 8).bind Json.getBool = .ok clean ∧ m = .notify clean) ∨
    (∃ id, msg.field "id".toList = .ok (.unsigned id) ∧ m = .shareResponse) := by
  simp only [readMessage, bind, pure, Except.pure] at h
  split at h
  · cases h
    exact .inl rfl
  obtain ⟨id, hid, h⟩ := except_bind_eq_ok.mp h
  split at h
  · obtain ⟨method, -, h⟩ := except_bind_eq_ok.mp h
    split at h
    · obtain ⟨params, hparams, h⟩ := except_bind_eq_ok.mp h
      obtain ⟨first, hfirst, h⟩ := except_bind_eq_ok.mp h
      obtain ⟨divisor, hdivisor, h⟩ := except_bind_eq_ok.mp h
      cases h
      exact .inr (.inl ⟨params, divisor, hparams, by rw [hfirst]; exact hdivisor, rfl⟩)
    · split at h
      · obtain ⟨params, hparams, h⟩ := except_bind_eq_ok.mp h
        obtain ⟨last, hlast, h⟩ := except_bind_eq_ok.mp h
        obtain ⟨flag, hflag, h⟩ := except_bind_eq_ok.mp h
        cases h
        exact .inr (.inr (.inl ⟨params, flag, hparams, by rw [hlast]; exact hflag, rfl⟩))
      · cases h
        exact .inl rfl
  · split at h
    next hunsigned =>
      cases h
      cases id with
      | unsigned n => exact .inr (.inr (.inr ⟨n, hid, rfl⟩))
      | _ => cases hunsigned
    next =>
      cases h
      exact .inl rfl

theorem readMessage_shareResponse {msg : Json} (h : readMessage msg = .ok .shareResponse) :
    ∃ id, msg.field "id".toList = .ok (.unsigned id) := by
  obtain hm | ⟨_, _, -, -, hm⟩ | ⟨_, _, -, -, hm⟩ | ⟨id, hid, -⟩ := readMessage_cases h
  · cases hm
  · cases hm
  · cases hm
  · exact ⟨id, hid⟩

/-- The branch for `mining.set_difficulty`: the target the divisor stands for. -/
def announcedTarget (basePoolDifficulty : DifficultyTarget) (poolBaseDiffDivisor : UInt64) :
    DifficultyTarget :=
  .ofFullRep (divideTarget basePoolDifficulty.fullRep poolBaseDiffDivisor)

/-- `msg.contains(key) && msg[key]` meets a test. -/
def Json.fieldSatisfies (msg : Json) (key : Str) (test : Json → Bool) : Bool :=
  match msg with
  | .object fields => ((Json.find? fields key).map test).getD false
  | _ => false

def checkShareResponse (msg : Json) (stats : DispatcherStats) : DispatcherStats :=
  if msg.fieldSatisfies "error".toList (fun e => !e.isNull) then
    { stats with poolSharesRejected := stats.poolSharesRejected + 1 }
  else if msg.fieldSatisfies "result".toList (fun r => r.eqBool true) then
    { stats with poolSharesAccepted := stats.poolSharesAccepted + 1 }
  else stats

end DogeConnect
