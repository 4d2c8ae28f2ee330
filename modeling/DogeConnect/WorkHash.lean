/-
Proof of work with the hash functions of the repository.

Where the other modules leave the hashes open, this one puts in what the code
calls: `scrypt_1024_1_1_256` of `scrypt.c` for a header and `doubleSHA256` of
`hash_util.cpp` for a coinbase and its branches.  Both are given memory with
arbitrary contents, as an uninitialised local has, and neither depends on it.

    validateShare_scrypt   the share check, on numbers
    found_share_accepted   from the distributed task to the accepted share:
                           what the test miner finds, the dispatcher credits

The miner's loops are written with conditions that every `uint32_t` meets;
`attempt_eq` says what they try.
-/
import DogeConnect.Scrypt
import DogeConnect.ShareValid
import DogeConnect.SolutionPacket
import DogeConnect.CompactTarget

namespace DogeConnect

open Scrypt

/-! ## The two hashes -/

/-- `doubleSHA256` of `hash_util.cpp`; the second round reuses the context. -/
def doubleSHA256 (ctx : SHA256_CTX) (data : List UInt8) : ByteArr 32 :=
  let firstHash := SHA256 ctx [data]
  ByteArr.copy 32 (SHA256 .cleared [firstHash])

/-- SHA-256 twice. -/
def doubleHash (data : List UInt8) : ByteArr 32 :=
  ⟨Sha2.hash (Sha2.hash data), Sha2.length_hash _⟩

theorem SHA256_single (ctx : SHA256_CTX) (data : List UInt8) : SHA256 ctx [data] = Sha2.hash data := by
  rw [SHA256, SHA256_Final_eq (digesting_updates (digesting_init ctx) [data]), List.nil_append,
    List.flatten_singleton]

theorem doubleSHA256_eq (ctx : SHA256_CTX) (data : List UInt8) :
    doubleSHA256 ctx data = doubleHash data := by
  apply ByteArr.ext
  rw [doubleSHA256, SHA256_single, SHA256_single, ByteArr.copy_toList (Sha2.length_hash _),
    doubleHash]

/-- The memory of a call of `scrypt_1024_1_1_256`. -/
structure ScryptCall where
  memory : CallMemory
  scryptHash : ByteArr 32
  holds : memory.Holds 131583

/-- `scryptHash` after the call. -/
def ScryptCall.run (call : ScryptCall) (header : List UInt8) : ByteArr 32 :=
  ByteArr.copy 32 (scrypt_1024_1_1_256 call.memory header call.scryptHash.toList)

/-- Memory with nothing in it yet. -/
def ScryptCall.blank : ScryptCall where
  memory := ⟨.cleared, .cleared, ⟨4096, List.replicate 131583 0⟩⟩
  scryptHash := ByteArr.fill 32 0
  holds := ⟨List.length_replicate, by decide⟩

/-- The scrypt hash of a header. -/
def powHash (header : List UInt8) : ByteArr 32 :=
  ⟨scrypt header header 1024 1 1 32, length_scrypt _ _ _ _ _ _⟩

theorem ScryptCall.run_eq (call : ScryptCall) {header : List UInt8} (h : header.length = 80) :
    call.run header = powHash header := by
  have hwhole : header.take 80 = header := List.take_of_length_le (Nat.le_of_eq h)
  have hhash := scrypt_1024_1_1_256_eq call.holds header call.scryptHash.length
  rw [hwhole] at hhash
  apply ByteArr.ext
  rw [ScryptCall.run, hhash]
  exact ByteArr.copy_toList (length_scrypt _ _ _ _ _ _)

/-! ## The share check -/

section
variable (memory : List UInt8 → ScryptCall) (workerName : Str)

/-- The scrypt parameter of the share check, as the thread computes it: what the
memory holds may depend on the header. -/
def calledScrypt (header : List UInt8) : ByteArr 32 := (memory header).run header

theorem meetsTarget_called (task : DispatcherMiningTask) (sol : DispatcherMiningSolution) :
    meetsTarget (calledScrypt memory) task sol = true ↔
      (powHash (fullHeader task sol)).val ≤ task.targetPool.val := by
  rw [meetsTarget, calledScrypt, (memory _).run_eq (fullHeader_length task sol),
    verifyHashVsTarget_iff]

/-- An iteration of the share validation, told by numbers: a solution with a new
key for a live job is credited exactly when the scrypt hash of its header, read
as a little-endian number, is at most the pool target. -/
theorem validateShare_scrypt (activeTasks : ConcurrentHashMap UInt64 DispatcherMiningTask)
    (connected : Bool) (now : Int) (st : ShareState) (sol : DispatcherMiningSolution) :
    let outcome := validateShare (calledScrypt memory) workerName activeTasks connected now st sol
    (outcome.2.isSome ↔ dedupeKey sol ∉ st.recentSubmits ∧
      ∃ task, activeTasks.get sol.jobId = some task ∧
        (powHash (fullHeader task sol)).val ≤ task.targetPool.val) ∧
    outcome.1.stats.solutionsAccepted
      = st.stats.solutionsAccepted + (if outcome.2.isSome then 1 else 0) := by
  cases houtcome : validateShare (calledScrypt memory) workerName activeTasks connected now st sol with
  | mk st' accepted =>
      obtain ⟨hskip, hst, hnone⟩ | ⟨hnew, hstale, hst, hnone⟩ | ⟨hnew, task, htask, hfails, hst, hnone⟩ |
        ⟨hnew, task, htask, hmeets, hst, hsome⟩ :=
          validateShare_cases (calledScrypt memory) workerName houtcome
      · subst hst hnone
        exact ⟨⟨fun h => absurd h (by simp), fun h => absurd hskip h.1⟩, rfl⟩
      · subst hst hnone
        refine ⟨⟨fun h => absurd h (by simp), ?_⟩, admitted_solutionsAccepted st sol⟩
        rintro ⟨-, task, htask, -⟩
        rw [hstale] at htask
        cases htask
      · subst hst hnone
        refine ⟨⟨fun h => absurd h (by simp), ?_⟩, admitted_solutionsAccepted st sol⟩
        rintro ⟨-, task', htask', hle⟩
        obtain rfl : task = task' := Option.some.inj (htask.symm.trans htask')
        rw [(meetsTarget_called memory task sol).mpr hle] at hfails
        cases hfails
      · subst hst hsome
        refine ⟨⟨fun _ => ⟨hnew, task, htask, (meetsTarget_called memory task sol).mp hmeets⟩,
          fun _ => rfl⟩, ?_⟩
        dsimp only
        rw [submit_stats, credit_solutionsAccepted, admitted_solutionsAccepted]
        rfl

/-! ## The test miner -/

/-- The next turn of the two loops of `miningLoop` over `extraNonce2Low` and
`nonce`; both conditions compare a `uint32_t` with the largest one. -/
def nextAttempt (a : UInt32 × UInt32) : UInt32 × UInt32 :=
  let nonce := a.2 + 1
  if nonce ≤ 0xFFFFFFFF then (a.1, nonce) else (a.1 + 1, 0)

/-- What is tried at turn `k` of a job. -/
def attempt (k : Nat) : UInt32 × UInt32 := nextAttempt^[k] (0, 0)

/-- The inner loop never ends: the nonces are tried in turn, again and again,
under one extraNonce2. -/
theorem attempt_eq (k : Nat) : attempt k = (0, UInt32.ofNat k) := by
  induction k with
  | zero => rfl
  | succ k ih =>
      have hle : UInt32.ofNat k + 1 ≤ 0xFFFFFFFF := by
        rw [UInt32.le_iff_toNat_le]
        have := (UInt32.ofNat k + 1).toNat_lt
        change (UInt32.ofNat k + 1).toNat ≤ 4294967295
        omega
      have hnext : UInt32.ofNat (k + 1) = UInt32.ofNat k + 1 := UInt32.ofNat_add k 1
      rw [attempt, Function.iterate_succ_apply']
      change nextAttempt (attempt k) = _
      rw [ih, nextAttempt]
      dsimp only
      rw [if_pos hle, hnext]

/-- What one turn of the loops works with: the task, the number of the turn, the
key, and what the buffers and the uninitialised memory hold. -/
structure Turn where
  task : InternalMiningTask
  number : Nat
  publicKey : ByteArr 32
  buffer : ByteArr 80
  solutionBuffer : ByteArr requiredSize
  hashMemory : List UInt8 → SHA256_CTX
  call : ScryptCall

namespace Turn

variable (t : Turn)

def low : UInt32 := (attempt t.number).1

def nonce : UInt32 := (attempt t.number).2

def merkleRoot : ByteArr 32 :=
  calculateMerkleRoot (fun data => doubleSHA256 (t.hashMemory data) data) t.task.coinbase1
    t.task.coinbase2 t.task.extraNonce1 (minerExtraNonce2 t.low).toList t.task.merkleBranches

def header : List UInt8 := minerHeader t.buffer t.task t.merkleRoot t.nonce

def passedTarget : Bool := verifyHashVsTarget (t.call.run t.header) t.task.targetDispatcher

def packet (sign : List UInt8 → ByteArr 64) : List UInt8 :=
  minerPacket sign t.solutionBuffer t.buffer t.publicKey t.task t.merkleRoot t.low t.nonce

def solution : DispatcherMiningSolution :=
  minerSolution t.publicKey t.task t.merkleRoot t.low t.nonce

theorem merkleRoot_eq :
    t.merkleRoot = calculateMerkleRoot doubleHash t.task.coinbase1 t.task.coinbase2
      t.task.extraNonce1 (minerExtraNonce2 t.low).toList t.task.merkleBranches := by
  have hhash : (fun data => doubleSHA256 (t.hashMemory data) data) = doubleHash :=
    funext fun data => doubleSHA256_eq _ data
  rw [merkleRoot, hhash]

theorem length_header : t.header.length = 80 := by
  rw [header, minerHeader_eq]
  simp

end Turn

variable (kangarooTwelve : List UInt8 → ByteArr 32)
  (verify : ByteArr 32 → ByteArr 32 → List UInt8 → Bool) (sign : List UInt8 → ByteArr 64)

/-- What becomes of a turn, if `stored` is the dispatcher's task. -/
structure TurnOutcome (stored : DispatcherMiningTask) (jobId : UInt64) (t : Turn) : Prop where
  /-- The packet carries the solution, if its signature verifies. -/
  packet : readSolution kangarooTwelve verify (t.packet sign)
    = if verify t.publicKey (kangarooTwelve (solutionBody t.solution))
        (sign (solutionBody t.solution)).toList then some t.solution else none
  job : t.solution.jobId = jobId
  /-- The dispatcher hashes what the miner hashed. -/
  header : fullHeader stored t.solution = t.header
  /-- The root is that of the stored coinbase and branches. -/
  root : t.solution.merkleRoot = calculateMerkleRoot doubleHash stored.coinbase1 stored.coinbase2
    stored.extraNonce1 t.solution.extraNonce2.toList stored.merkleBranches
  /-- A find is credited, unless its key has been seen or the job is gone. -/
  credited : t.passedTarget = true →
    ∀ (activeTasks : ConcurrentHashMap UInt64 DispatcherMiningTask) connected now share,
      activeTasks.get jobId = some stored → dedupeKey t.solution ∉ share.recentSubmits →
      ∃ share' message, validateShare (calledScrypt memory) workerName activeTasks connected now
        share t.solution = (share', some ⟨stored, message⟩)

/-- The miner's view of a task and the one the dispatcher keeps. -/
structure SameTask (received : InternalMiningTask) (stored : DispatcherMiningTask) (ntime : ByteArr 4) :
    Prop where
  partialHeader1 : received.partialHeader1 = stored.partialHeader
  partialHeader2 : received.partialHeader2 = ByteArr.copy 8 (ntime.toList ++ stored.nBits.toList)
  extraNonce1 : received.extraNonce1 = stored.extraNonce1
  coinbase1 : received.coinbase1 = stored.coinbase1
  coinbase2 : received.coinbase2 = stored.coinbase2
  merkleBranches : received.merkleBranches = stored.merkleBranches
  targetDispatcher : received.targetDispatcher.val ≤ stored.targetPool.val

namespace SameTask

variable {received : InternalMiningTask} {stored : DispatcherMiningTask} {ntime : ByteArr 4}

theorem partialHeader2_toList (h : SameTask received stored ntime) :
    received.partialHeader2.toList = ntime.toList ++ stored.nBits.toList := by
  rw [h.partialHeader2, ByteArr.copy_toList]
  simp

theorem nTime_eq (h : SameTask received stored ntime) {t : Turn} (htask : t.task = received) :
    t.solution.nTime = ntime := by
  rw [Turn.solution, minerSolution, htask, h.partialHeader2_toList, ByteArr.copy_toList_append]

theorem fullHeader_eq (h : SameTask received stored ntime) {t : Turn} (htask : t.task = received) :
    fullHeader stored t.solution = t.header := by
  have hnonce : t.solution.nonce.toList = leBytes 4 t.nonce.toNat := rfl
  have hroot : t.solution.merkleRoot = t.merkleRoot := rfl
  rw [fullHeader, h.nTime_eq htask, hnonce, hroot, Turn.header, minerHeader_eq, htask,
    h.partialHeader2_toList, h.partialHeader1]
  simp only [List.append_assoc]

theorem root_eq (h : SameTask received stored ntime) {t : Turn} (htask : t.task = received) :
    t.solution.merkleRoot = calculateMerkleRoot doubleHash stored.coinbase1 stored.coinbase2
      stored.extraNonce1 t.solution.extraNonce2.toList stored.merkleBranches := by
  change t.merkleRoot = _
  rw [t.merkleRoot_eq, htask, h.coinbase1, h.coinbase2, h.extraNonce1, h.merkleBranches]
  rfl

theorem powHash_le (h : SameTask received stored ntime) {t : Turn} (htask : t.task = received)
    (hpassed : t.passedTarget = true) :
    (powHash (fullHeader stored t.solution)).val ≤ stored.targetPool.val := by
  rw [Turn.passedTarget, t.call.run_eq t.length_header, verifyHashVsTarget_iff, htask] at hpassed
  rw [h.fullHeader_eq htask]
  exact hpassed.trans h.targetDispatcher

end SameTask

theorem turnOutcome {received : InternalMiningTask} {stored : DispatcherMiningTask}
    {ntime : ByteArr 4} (h : SameTask received stored ntime) {t : Turn} (htask : t.task = received) :
    TurnOutcome memory workerName kangarooTwelve verify sign stored received.jobId t where
  packet := by
    rw [Turn.packet, minerPacket_eq]
    exact readSolution_solutionPacket kangarooTwelve verify sign t.solution
  job := by
    rw [← htask]
    rfl
  header := h.fullHeader_eq htask
  root := h.root_eq htask
  credited := by
    intro hpassed activeTasks connected now share hget hnew
    have hjob : t.solution.jobId = received.jobId := by
      rw [← htask]
      rfl
    have hmeets := (meetsTarget_called memory stored t.solution).mpr (h.powHash_le htask hpassed)
    cases houtcome : validateShare (calledScrypt memory) workerName activeTasks connected now share
        t.solution with
    | mk share' accepted =>
        obtain ⟨hseen, -⟩ | ⟨-, hgone, -⟩ | ⟨-, task, hlive, hfails, -⟩ | ⟨-, task, hlive, -, -, hsome⟩ :=
          validateShare_cases (calledScrypt memory) workerName houtcome
        · exact absurd hseen hnew
        · rw [hjob, hget] at hgone
          cases hgone
        · rw [hjob, hget] at hlive
          cases hlive
          rw [hmeets] at hfails
          cases hfails
        · rw [hjob, hget] at hlive
          cases hlive
          exact ⟨share', _, by rw [hsome]⟩

/-- **No find is lost on the way.**  A task that is distributed reaches the miner,
and whatever the miner tries for it, in whatever memory, the dispatcher rebuilds
the header that was hashed and credits it if the miner saw it pass. -/
theorem found_share_accepted {signTaskPacket : List UInt8 → ByteArr 64} {message : Json}
    {st st' : DistState} {diff : DifficultyTarget} {extraNonce1 : List UInt8} {propagate : Bool}
    {jobId : UInt64} {sent : SentTask} (hdiff : diff.Built)
    (hsent : distributeTask signTaskPacket message st diff extraNonce1 propagate jobId
      = .ok (st', some sent)) :
    st'.activeTasks.get jobId = some sent.parsed.dispatcherTask ∧
    ∀ stale, ∃ received, receiveTask (sent.packet.drop RequestResponseHeader.layout.width ++ stale)
        (sent.packet.length - RequestResponseHeader.layout.width : Nat) = some received ∧
      ∀ t : Turn, t.task = received.task → t.low = 0 ∧ t.nonce = UInt32.ofNat t.number ∧
        TurnOutcome memory workerName kangarooTwelve verify sign sent.parsed.dispatcherTask jobId t := by
  obtain ⟨params, cleanJobQueue, -, -, hready, hactive⟩ := distributeTask_some signTaskPacket hsent
  have hfrom := parseTask_spec (prepareTask_ready signTaskPacket hready).1
  have hround := roundTrip_of_ready hready
  refine ⟨by rw [hactive, ConcurrentHashMap.get_insert_self], fun stale =>
    ⟨_, hround.decoded stale, fun t htask => ?_⟩⟩
  have hattempt := attempt_eq t.number
  have hsame : SameTask t.task sent.parsed.dispatcherTask sent.parsed.ntime := {
    partialHeader1 := by rw [htask]
    partialHeader2 := by rw [htask]
    extraNonce1 := by rw [htask]
    coinbase1 := by rw [htask]
    coinbase2 := by rw [htask]
    merkleBranches := by rw [htask]
    targetDispatcher := by
      rw [htask, hfrom.targetPool]
      exact hdiff.expand_le }
  have hjob : t.task.jobId = jobId := by rw [htask]
  refine ⟨by rw [Turn.low, hattempt], by rw [Turn.nonce, hattempt], ?_⟩
  rw [← hjob]
  exact turnOutcome memory workerName kangarooTwelve verify sign hsame rfl

end

/-- The task of the source's comment, for a miner and a dispatcher with empty memory. -/
theorem found_share_accepted_sample :
    ∃ st' sent, distributeTask (fun _ => ByteArr.fill 64 0xab) sampleNotify
        ⟨.empty, .initial, ByteArr.fill packetBufferSize 0xff⟩ poolBaseDifficulty [1, 2, 3, 4] false
        1700000000000 = .ok (st', some sent) ∧
      st'.activeTasks.get 1700000000000 = some sent.parsed.dispatcherTask ∧
      ∀ stale, ∃ received, receiveTask (sent.packet.drop RequestResponseHeader.layout.width ++ stale)
          (sent.packet.length - RequestResponseHeader.layout.width : Nat) = some received ∧
        ∀ t : Turn, t.task = received.task → t.low = 0 ∧ t.nonce = UInt32.ofNat t.number ∧
          TurnOutcome (fun _ => .blank) [] (fun _ => ByteArr.fill 32 0) (fun _ _ _ => true)
            (fun _ => ByteArr.fill 64 1) sent.parsed.dispatcherTask 1700000000000 t := by
  have hfound := @found_share_accepted (fun _ => .blank) [] (fun _ => ByteArr.fill 32 0)
    (fun _ _ _ => true) (fun _ => ByteArr.fill 64 1) (fun _ => ByteArr.fill 64 0xab) sampleNotify
    ⟨.empty, .initial, ByteArr.fill packetBufferSize 0xff⟩ _ poolBaseDifficulty [1, 2, 3, 4] false
    1700000000000 _ (.ofCompactRep _) rfl
  exact ⟨_, _, rfl, hfound⟩

end DogeConnect
