/-
`share_valid_thread.cpp`: what one solution from the queue leads to.

An iteration of `shareValidationLoop` has three parts, between which the other
threads can run: it drops repetitions by a key in `recentSubmits`, it judges
the solution against the task of its job id, and it submits what passed to the
pool.  They are three functions here, and `validateShare` is their composition.

    dedupeKey_inj         the key of a solution determines job id, nonce, extraNonce2
    validateShare_cases   all an iteration can do; the two size checks never fire

Scrypt is a parameter.  The difficulty estimate and the identity that are only
printed are left out.
-/
import DogeConnect.Structs
import DogeConnect.Json
import DogeConnect.Concurrency

namespace DogeConnect

/-! ## The key -/

/-- `std::to_string`. -/
def toDecimal (n : UInt64) : Str := Nat.toDigits 10 n.toNat

def dedupeKey (sol : DispatcherMiningSolution) : Str :=
  toDecimal sol.jobId ++ "_".toList ++ bytesToHex sol.nonce.toList .BigEndian
    ++ bytesToHex sol.extraNonce2.toList .BigEndian

/-- What a share is known by: job id, nonce, extraNonce2. -/
abbrev ShareId := UInt64 × ByteArr 4 × ByteArr 8

def shareId (sol : DispatcherMiningSolution) : ShareId := (sol.jobId, sol.nonce, sol.extraNonce2)

theorem toDecimal_inj {a b : UInt64} (h : toDecimal a = toDecimal b) : a = b := by
  have := congrArg (fun ds => Nat.ofDigitChars 10 ds 0) h
  simp only [toDecimal, Nat.ofDigitChars_ten_toDigits] at this
  exact UInt64.toNat_inj.mp this

/-- The hex fields have fixed lengths, so the key is read back from its end. -/
theorem dedupeKey_inj {a b : DispatcherMiningSolution} :
    dedupeKey a = dedupeKey b ↔ shareId a = shareId b := by
  constructor
  · intro h
    obtain ⟨h, hextra⟩ := List.append_inj' h (by simp)
    obtain ⟨h, hnonce⟩ := List.append_inj' h (by simp)
    obtain ⟨hjob, -⟩ := List.append_inj' h rfl
    have hjob := toDecimal_inj hjob
    have hnonce := ByteArr.ext (bytesToHex_inj hnonce)
    have hextra := ByteArr.ext (bytesToHex_inj hextra)
    simp only [shareId, hjob, hnonce, hextra]
  · intro h
    simp only [shareId, Prod.mk.injEq] at h
    obtain ⟨hjob, hnonce, hextra⟩ := h
    simp only [dedupeKey, hjob, hnonce, hextra]

/-! ## The header and the computor -/

/-- `fullHeader`: the task's parts around the solution's. -/
def fullHeader (task : DispatcherMiningTask) (sol : DispatcherMiningSolution) : List UInt8 :=
  task.partialHeader.toList ++ sol.merkleRoot.toList ++ sol.nTime.toList ++ task.nBits.toList
    ++ sol.nonce.toList

@[simp] theorem fullHeader_length (task : DispatcherMiningTask) (sol : DispatcherMiningSolution) :
    (fullHeader task sol).length = 80 := by
  simp [fullHeader]

/-- `extraNonce2High`: the first four bytes, most significant first. -/
def extraNonce2High (sol : DispatcherMiningSolution) : Nat :=
  ((sol.extraNonce2.byte 0).toNat <<< 24) ||| ((sol.extraNonce2.byte 1).toNat <<< 16)
    ||| ((sol.extraNonce2.byte 2).toNat <<< 8) ||| (sol.extraNonce2.byte 3).toNat

def computorIdx (sol : DispatcherMiningSolution) : Nat := extraNonce2High sol % 676

theorem computorIdx_lt (sol : DispatcherMiningSolution) : computorIdx sol < NUM_COMPUTORS :=
  Nat.mod_lt _ (by decide)

/-- The computor that is credited. -/
def creditedComputor (sol : DispatcherMiningSolution) : Fin NUM_COMPUTORS :=
  ⟨computorIdx sol, computorIdx_lt sol⟩

/-! ## An iteration -/

/-- The locals that outlive an iteration, the id counter shared with nobody
else, and the statistics. -/
structure ShareState where
  recentSubmits : List Str
  lastCleanJobId : UInt64
  nextStratumSendId : UInt64
  stats : DispatcherStats

/-- Ids 1 and 2 are used by the handshake. -/
def ShareState.initial : ShareState := ⟨[], 0, 3, .initial⟩

def countReceived (st : ShareState) : ShareState :=
  { st with stats := { st.stats with solutionsReceived := st.stats.solutionsReceived + 1 } }

/-- The clearing of the set, at a job id other than the last one seen. -/
def startJob (st : ShareState) (jobId : UInt64) : ShareState :=
  if jobId ≠ st.lastCleanJobId then { st with recentSubmits := [], lastCleanJobId := jobId } else st

/-- The state in which a solution with a new key is judged. -/
def admitted (st : ShareState) (sol : DispatcherMiningSolution) : ShareState :=
  startJob (countReceived st) sol.jobId

/-- From `queue.pop()` to the task lookup; `none` for a repetition. -/
def deduplicate (st : ShareState) (sol : DispatcherMiningSolution) : Option ShareState :=
  if dedupeKey sol ∈ st.recentSubmits then none else some (admitted st sol)

/-- The accept path up to `recentSubmits.insert`; `now` is the clock in seconds. -/
def credit (st : ShareState) (sol : DispatcherMiningSolution) (now : Int) : ShareState :=
  let stats := { st.stats with solutionsAccepted := st.stats.solutionsAccepted + 1 }
  let stats := if h : computorIdx sol < NUM_COMPUTORS then
      { stats with
        computorShares := Function.update stats.computorShares ⟨computorIdx sol, h⟩
          (stats.computorShares ⟨computorIdx sol, h⟩ + 1)
        computorLastSeen := Function.update stats.computorLastSeen ⟨computorIdx sol, h⟩ now }
    else stats
  { st with
    stats := { stats with solutionsPassedPoolDiff := stats.solutionsPassedPoolDiff + 1 }
    recentSubmits := dedupeKey sol :: st.recentSubmits }

def reject (st : ShareState) : ShareState :=
  { st with stats := { st.stats with solutionsRejected := st.stats.solutionsRejected + 1 } }

def countStale (st : ShareState) : ShareState :=
  { st with stats := { st.stats with solutionsStale := st.stats.solutionsStale + 1 } }

section
variable (scrypt : List UInt8 → ByteArr 32)

/-- The scrypt hash of the header passes the task's pool target. -/
def meetsTarget (task : DispatcherMiningTask) (sol : DispatcherMiningSolution) : Bool :=
  verifyHashVsTarget (scrypt (fullHeader task sol)) task.targetPool

/-- From the task lookup to the accept path, given what `activeTasks.get`
returned; with the task if the solution passed. -/
def judge (st : ShareState) (sol : DispatcherMiningSolution)
    (taskOptional : Option DispatcherMiningTask) (now : Int) :
    ShareState × Option DispatcherMiningTask :=
  match taskOptional with
  | none => (countStale st, none)
  | some task =>
    if extraNonce2NumBytes ≠ sol.extraNonce2.toList.length then (reject st, none)
    else if (fullHeader task sol).length ≠ 80 then (reject st, none)
    else if meetsTarget scrypt task sol = false then (reject st, none)
    else (credit st sol now, some task)

variable (workerName : Str)

/-- The message of `mining.submit`. -/
def submitMessage (id : UInt64) (task : DispatcherMiningTask) (sol : DispatcherMiningSolution) :
    Json :=
  .object [("id".toList, .unsigned id.toNat), ("method".toList, .string "mining.submit".toList),
    ("params".toList, .array [.string workerName, .string task.taskId,
      .string (bytesToHex sol.extraNonce2.toList .BigEndian),
      .string (bytesToHex sol.nTime.toList .LittleEndian),
      .string (bytesToHex sol.nonce.toList .LittleEndian)])]

/-- The end of an iteration, with the message if the pool is connected. -/
def submit (connected : Bool) (st : ShareState) (task : DispatcherMiningTask)
    (sol : DispatcherMiningSolution) : ShareState × Option Json :=
  if connected then
    ({ st with nextStratumSendId := st.nextStratumSendId + 1 },
      some (submitMessage workerName st.nextStratumSendId task sol))
  else (st, none)

/-- What an accepted solution was checked against, and what was sent for it. -/
structure Accepted where
  task : DispatcherMiningTask
  message : Option Json

/-- One iteration, the state of the map and the connection at its lookups given. -/
def validateShare (activeTasks : ConcurrentHashMap UInt64 DispatcherMiningTask) (connected : Bool)
    (now : Int) (st : ShareState) (sol : DispatcherMiningSolution) :
    ShareState × Option Accepted :=
  match deduplicate st sol with
  | none => (st, none)
  | some st =>
    match judge scrypt st sol (activeTasks.get sol.jobId) now with
    | (st, none) => (st, none)
    | (st, some task) =>
      let (st, message) := submit workerName connected st task sol
      (st, some ⟨task, message⟩)

/-! ## What an iteration does -/

@[simp] theorem admitted_lastCleanJobId (st : ShareState) (sol : DispatcherMiningSolution) :
    (admitted st sol).lastCleanJobId = sol.jobId := by
  unfold admitted startJob
  split
  · rfl
  next h => exact (not_not.mp h).symm

@[simp] theorem admitted_solutionsAccepted (st : ShareState) (sol : DispatcherMiningSolution) :
    (admitted st sol).stats.solutionsAccepted = st.stats.solutionsAccepted := by
  unfold admitted startJob
  split <;> rfl

@[simp] theorem admitted_computorShares (st : ShareState) (sol : DispatcherMiningSolution) :
    (admitted st sol).stats.computorShares = st.stats.computorShares := by
  unfold admitted startJob
  split <;> rfl

@[simp] theorem admitted_nextStratumSendId (st : ShareState) (sol : DispatcherMiningSolution) :
    (admitted st sol).nextStratumSendId = st.nextStratumSendId := by
  unfold admitted startJob
  split <;> rfl

theorem admitted_recentSubmits (st : ShareState) (sol : DispatcherMiningSolution) :
    (admitted st sol).recentSubmits
      = if sol.jobId ≠ st.lastCleanJobId then [] else st.recentSubmits := by
  have hlast : (countReceived st).lastCleanJobId = st.lastCleanJobId := rfl
  unfold admitted startJob
  rw [hlast]
  split <;> rfl

@[simp] theorem credit_solutionsAccepted (st : ShareState) (sol : DispatcherMiningSolution)
    (now : Int) :
    (credit st sol now).stats.solutionsAccepted = st.stats.solutionsAccepted + 1 := by
  simp [credit, computorIdx_lt]

@[simp] theorem credit_computorShares (st : ShareState) (sol : DispatcherMiningSolution)
    (now : Int) :
    (credit st sol now).stats.computorShares
      = Function.update st.stats.computorShares (creditedComputor sol)
          (st.stats.computorShares (creditedComputor sol) + 1) := by
  simp [credit, computorIdx_lt, creditedComputor]

@[simp] theorem credit_nextStratumSendId (st : ShareState) (sol : DispatcherMiningSolution)
    (now : Int) : (credit st sol now).nextStratumSendId = st.nextStratumSendId := rfl

@[simp] theorem submit_stats (connected : Bool) (st : ShareState) (task : DispatcherMiningTask)
    (sol : DispatcherMiningSolution) :
    (submit workerName connected st task sol).1.stats = st.stats := by
  cases connected <;> rfl

@[simp] theorem submit_recentSubmits (connected : Bool) (st : ShareState)
    (task : DispatcherMiningTask) (sol : DispatcherMiningSolution) :
    (submit workerName connected st task sol).1.recentSubmits = st.recentSubmits := by
  cases connected <;> rfl

@[simp] theorem submit_lastCleanJobId (connected : Bool) (st : ShareState)
    (task : DispatcherMiningTask) (sol : DispatcherMiningSolution) :
    (submit workerName connected st task sol).1.lastCleanJobId = st.lastCleanJobId := by
  cases connected <;> rfl

theorem judge_some (st : ShareState) (sol : DispatcherMiningSolution) (task : DispatcherMiningTask)
    (now : Int) :
    judge scrypt st sol (some task) now
      = if meetsTarget scrypt task sol = true then (credit st sol now, some task)
        else (reject st, none) := by
  have hsize : ¬ extraNonce2NumBytes ≠ sol.extraNonce2.toList.length := by
    simp [extraNonce2NumBytes]
  simp only [judge, fullHeader_length]
  rw [if_neg hsize, if_neg (by simp)]
  cases meetsTarget scrypt task sol <;> rfl

theorem validateShare_cases {activeTasks : ConcurrentHashMap UInt64 DispatcherMiningTask}
    {connected : Bool} {now : Int} {st st' : ShareState} {sol : DispatcherMiningSolution}
    {accepted : Option Accepted}
    (h : validateShare scrypt workerName activeTasks connected now st sol = (st', accepted)) :
    (dedupeKey sol ∈ st.recentSubmits ∧ st' = st ∧ accepted = none) ∨
    (dedupeKey sol ∉ st.recentSubmits ∧ activeTasks.get sol.jobId = none ∧
      st' = countStale (admitted st sol) ∧ accepted = none) ∨
    (dedupeKey sol ∉ st.recentSubmits ∧ ∃ task, activeTasks.get sol.jobId = some task ∧
      meetsTarget scrypt task sol = false ∧ st' = reject (admitted st sol) ∧ accepted = none) ∨
    (dedupeKey sol ∉ st.recentSubmits ∧ ∃ task, activeTasks.get sol.jobId = some task ∧
      meetsTarget scrypt task sol = true ∧
      st' = (submit workerName connected (credit (admitted st sol) sol now) task sol).1 ∧
      accepted = some ⟨task,
        (submit workerName connected (credit (admitted st sol) sol now) task sol).2⟩) := by
  by_cases hkey : dedupeKey sol ∈ st.recentSubmits
  · rw [validateShare, deduplicate, if_pos hkey] at h
    cases h
    exact .inl ⟨hkey, rfl, rfl⟩
  · rw [validateShare, deduplicate, if_neg hkey] at h
    cases htask : activeTasks.get sol.jobId with
    | none =>
        rw [htask] at h
        cases h
        exact .inr (.inl ⟨hkey, rfl, rfl, rfl⟩)
    | some task =>
        simp only [htask, judge_some] at h
        cases hmeets : meetsTarget scrypt task sol with
        | false =>
            rw [hmeets] at h
            cases h
            exact .inr (.inr (.inl ⟨hkey, task, rfl, hmeets, rfl, rfl⟩))
        | true =>
            rw [hmeets] at h
            cases h
            exact .inr (.inr (.inr ⟨hkey, task, rfl, hmeets, rfl, rfl⟩))

end

end DogeConnect
