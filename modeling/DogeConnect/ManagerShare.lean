/-
`handleShare`: from the strings of `mining.submit` to a header.

Both pools' `manager.js` has it line by line.  The tests run on the strings, the
proof of work is on the bytes they decode to, and `Buffer.write` leaves a field
as it was where decoding stops early.

    handleHeader_inj          what two equal headers have in common
    handleShare_cases         a share fails a test, or its key is kept

Hashing, lower-casing and the comparison of difficulties, which is in doubles,
are parameters.
-/
import DogeConnect.JobManager
import DogeConnect.HeaderAgree

namespace DogeConnect

/-! ## Strings -/

/-- `s.length`: in UTF-16 units. -/
def jsLength (s : Str) : Nat := (s.map fun c => if c.toNat < 0x10000 then 1 else 2).sum

/-- What `parseInt` skips. -/
def isStrWhiteSpace (c : Char) : Bool :=
  c.toNat ∈ [0x9, 0xa, 0xb, 0xc, 0xd, 0x20, 0xa0, 0x1680, 0x2028, 0x2029, 0x202f, 0x205f, 0x3000,
    0xfeff] || (0x2000 ≤ c.toNat && c.toNat ≤ 0x200a)

/-- The sign `parseInt` takes off. -/
def parseSign : Str → Int × Str
  | '-' :: rest => (-1, rest)
  | '+' :: rest => (1, rest)
  | s => (1, s)

def dropHexMark : Str → Str
  | '0' :: 'x' :: rest => rest
  | '0' :: 'X' :: rest => rest
  | s => s

/-- `parseInt(s, 16)`; `none` is `NaN`. -/
def parseInt16 (s : Str) : Option Int :=
  let signed := parseSign (s.dropWhile isStrWhiteSpace)
  let digits := ((dropHexMark signed.2).map hexVal).takeWhile Option.isSome
  if digits.isEmpty then none
  else some (signed.1 * Digits.horner 16 0 digits.reduceOption)

/-! ## Shares -/

/-- The fields of a client the share path reads. -/
structure Client where
  extraNonce1 : ByteArr 4
  addrPrimary : Str
  difficulty : ℚ
  previousDifficulty : Option ℚ

/-- `accepts job client headerBigInt`: the hash meets the block target, or its
difficulty the client's, as far as doubles tell.  `emits job`: the listeners of
`manager.block.new` and `manager.block.updated` return; of each template they are
told once. -/
structure PoolEnv where
  lib : MerkleLib
  doubleSHA256 : List UInt8 → ByteArr 32
  scrypt : List UInt8 → ByteArr 32
  toLowerCase : Str → Str
  accepts : Job → Client → Nat → Bool
  emits : Job → Bool

/-- The parts of `shareData` that are used afterwards.  `header` is what the block
in `hex` begins with. -/
structure ShareData where
  job : Job
  coinbase : List UInt8
  header : List UInt8
  headerHash : ByteArr 32
  headerDiff : Nat
  deriving DecidableEq

inductive ShareResult where
  | rejected (code : Nat) (message : Str)
  | thrown
  | accepted (shareData : ShareData)
  deriving DecidableEq

/-- The test on `nTimeInt`; both comparisons with `NaN` are false. -/
def nTimeOutOfRange (curtime : Int) (nTime : Str) (submitTime : Nat) : Bool :=
  match parseInt16 nTime with
  | none => false
  | some nTimeInt =>
      decide (nTimeInt < curtime) || decide (nTimeInt > toInt32 (submitTime / 1000) + 7200)

/-- The key of `handleSubmissions`. -/
def submissionKey (env : PoolEnv) (submission : Submission) : Str :=
  env.toLowerCase
    (submission.extraNonce1 ++ submission.extraNonce2 ++ submission.nTime ++ submission.nonce)

/-- `coinbaseBuffer`. -/
def coinbaseBuffer (job : Template) (submission : Submission) : List UInt8 :=
  job.handleCoinbase (bufferFromHex submission.extraNonce1) (bufferFromHex submission.extraNonce2)

/-- `Manager.handleShare`; `submitTime` is in milliseconds. -/
def Manager.handleShare (env : PoolEnv) (manager : Manager) (client : Client) (jobId : Str)
    (submission : Submission) (submitTime : Nat) : Manager × ShareResult :=
  match manager.validJobs jobId with
  | none => (manager, .rejected 21 "job not found".toList)
  | some job =>
      if job.jobId ≠ jobId then (manager, .rejected 21 "job not found".toList)
      else if jsLength submission.extraNonce2 ≠ 2 * extraNonce2Size then
        (manager, .rejected 20 "incorrect size of extranonce2".toList)
      else if jsLength submission.nTime ≠ 8 then
        (manager, .rejected 20 "incorrect size of ntime".toList)
      else if nTimeOutOfRange job.rpcData.curtime submission.nTime submitTime then
        (manager, .rejected 20 "ntime out of range".toList)
      else if jsLength submission.nonce ≠ 8 then
        (manager, .rejected 20 "incorrect size of nonce".toList)
      else if client.addrPrimary.isEmpty then
        (manager, .rejected 20 "worker address isn't set properly".toList)
      else
        let submissions := manager.submissions job.serial
        let key := submissionKey env submission
        if submissions.contains key then (manager, .rejected 22 "duplicate share".toList)
        else
          -- the key stays, whatever becomes of the share
          let manager := { manager with
            submissions := Function.update manager.submissions job.serial (submissions ++ [key]) }
          match headerBuffer env.lib env.doubleSHA256 job.toTemplate submission with
          | none => (manager, .thrown)
          | some header =>
              let headerHash := env.scrypt header
              if env.accepts job client headerHash.val then
                (manager, .accepted {
                  job := job
                  coinbase := coinbaseBuffer job.toTemplate submission
                  header := header
                  headerHash := headerHash
                  headerDiff := headerHash.val })
              else (manager, .rejected 23 "low difficulty share of ".toList)

/-! ## The header -/

/-- Where a header has its merkle root. -/
def headerRoot (header : List UInt8) : List UInt8 := (header.drop 36).take 32

/-- The `nTime` field of a header. -/
def headerTime (header : List UInt8) : Nat := leVal ((header.drop 68).take 4)

section
variable {job : Template} {version : Int} {merkleRoot : List UInt8} {nTime nonce : Str}
  {header : List UInt8}

theorem handleHeader_version (hroot : merkleRoot.length = 32)
    (h : job.handleHeader version merkleRoot nTime nonce = some header) :
    header = (bigEndian32 version.toNat).reverse
      ++ (hexField 32 job.rpcData.previousblockhash).reverse ++ merkleRoot
      ++ (hexField 4 nTime).reverse ++ (hexField 4 job.rpcData.bits).reverse
      ++ (hexField 4 nonce).reverse := by
  rw [handleHeader_eq_flatten job version hroot] at h
  split at h
  · cases h
    simp [headerFields]
  · cases h

theorem headerRoot_eq (hroot : merkleRoot.length = 32)
    (h : job.handleHeader version merkleRoot nTime nonce = some header) :
    headerRoot header = merkleRoot := by
  rw [handleHeader_version hroot h, headerRoot]
  simp only [List.append_assoc]
  rw [← List.append_assoc, List.drop_left' (by simp), List.take_left' hroot]

/-- The field is what decoding leaves of the string, most significant byte first. -/
theorem headerTime_eq (hroot : merkleRoot.length = 32)
    (h : job.handleHeader version merkleRoot nTime nonce = some header) :
    headerTime header = leVal (hexField 4 nTime).reverse := by
  rw [handleHeader_version hroot h, headerTime]
  simp only [List.append_assoc]
  rw [← List.append_assoc, ← List.append_assoc, List.drop_left' (by simp [hroot]),
    List.take_left' (by simp)]

theorem handleHeader_inj {merkleRoot' : List UInt8} {nTime' nonce' : Str}
    (hroot : merkleRoot.length = 32) (hroot' : merkleRoot'.length = 32)
    (h : job.handleHeader version merkleRoot nTime nonce = some header)
    (h' : job.handleHeader version merkleRoot' nTime' nonce' = some header) :
    merkleRoot = merkleRoot' ∧ hexField 4 nTime = hexField 4 nTime' ∧
      hexField 4 nonce = hexField 4 nonce' := by
  have heq := (handleHeader_version hroot h).symm.trans (handleHeader_version hroot' h')
  obtain ⟨heq, hnonce⟩ := List.append_inj' heq (by simp)
  obtain ⟨heq, -⟩ := List.append_inj' heq (by simp)
  obtain ⟨heq, htime⟩ := List.append_inj' heq (by simp)
  obtain ⟨-, hroots⟩ := List.append_inj' heq (by simp [hroot, hroot'])
  exact ⟨hroots, List.reverse_injective htime, List.reverse_injective hnonce⟩

end

/-! ## What a share has passed -/

section
variable {env : PoolEnv}

theorem fastRoot_length (hlib : env.lib.Correct) (transactions : List Transaction)
    (coinbase : List UInt8) :
    (env.lib.fastRoot (sha256d env.doubleSHA256 coinbase :: convertHashToBuffer transactions)
      (sha256d env.doubleSHA256)).length = 32 := by
  rw [fastRoot_eq hlib]
  have hlength : ∀ (steps : List (List UInt8)) (hash : List UInt8), hash.length = 32 →
      (steps.foldl (combineWith (sha256d env.doubleSHA256)) hash).length = 32 := by
    intro steps
    induction steps with
    | nil => exact fun _ h => h
    | cons step steps ih => exact fun hash _ => ih _ (ByteArr.length _)
  exact hlength _ _ (ByteArr.length _)

/-- An accepted share: its job, the tests it passed, and what was made of it. -/
structure SharePassed (env : PoolEnv) (manager manager' : Manager) (jobId : Str)
    (submission : Submission) (submitTime : Nat) (shareData : ShareData) : Prop where
  job : manager.validJobs jobId = some shareData.job
  nTime_length : jsLength submission.nTime = 8
  extraNonce2_length : jsLength submission.extraNonce2 = 16
  nonce_length : jsLength submission.nonce = 8
  inRange : nTimeOutOfRange shareData.job.rpcData.curtime submission.nTime submitTime = false
  isNew : submissionKey env submission ∉ manager.submissions shareData.job.serial
  isKept : submissionKey env submission ∈ manager'.submissions shareData.job.serial
  coinbase : shareData.coinbase = coinbaseBuffer shareData.job.toTemplate submission
  header : headerBuffer env.lib env.doubleSHA256 shareData.job.toTemplate submission
    = some shareData.header

/-- A share past the tests on its strings: the job it is for, and what is kept. -/
structure ShareTested (env : PoolEnv) (manager manager' : Manager) (jobId : Str)
    (submission : Submission) (submitTime : Nat) (job : Job) : Prop where
  valid : manager.validJobs jobId = some job
  nTime_length : jsLength submission.nTime = 8
  extraNonce2_length : jsLength submission.extraNonce2 = 16
  nonce_length : jsLength submission.nonce = 8
  inRange : nTimeOutOfRange job.rpcData.curtime submission.nTime submitTime = false
  isNew : submissionKey env submission ∉ manager.submissions job.serial
  kept : manager' = { manager with
    submissions := Function.update manager.submissions job.serial
      (manager.submissions job.serial ++ [submissionKey env submission]) }

/-- What a share can do: it fails a test and changes nothing, or it passes them and
its key is kept. -/
theorem handleShare_cases {manager manager' : Manager} {client : Client} {jobId : Str}
    {submission : Submission} {submitTime : Nat} {result : ShareResult}
    (h : manager.handleShare env client jobId submission submitTime = (manager', result)) :
    (manager' = manager ∧ ∃ code message, result = .rejected code message) ∨
    ∃ job, ShareTested env manager manager' jobId submission submitTime job ∧
      ∀ shareData, result = .accepted shareData → shareData.job = job ∧
        shareData.coinbase = coinbaseBuffer job.toTemplate submission ∧
        headerBuffer env.lib env.doubleSHA256 job.toTemplate submission
          = some shareData.header := by
  have hrejected : ∀ {code message},
      (manager, ShareResult.rejected code message) = (manager', result) →
      manager' = manager ∧ ∃ code message, result = .rejected code message := by
    intro code message heq
    cases heq
    exact ⟨rfl, code, message, rfl⟩
  unfold Manager.handleShare at h
  cases hjob : manager.validJobs jobId with
  | none =>
      rw [hjob] at h
      exact .inl (hrejected h)
  | some job =>
      rw [hjob] at h
      rcases ite_eq_iff.mp h with ⟨-, h⟩ | ⟨-, h⟩
      · exact .inl (hrejected h)
      rcases ite_eq_iff.mp h with ⟨-, h⟩ | ⟨hextra, h⟩
      · exact .inl (hrejected h)
      rcases ite_eq_iff.mp h with ⟨-, h⟩ | ⟨htime, h⟩
      · exact .inl (hrejected h)
      rcases ite_eq_iff.mp h with ⟨-, h⟩ | ⟨hrange, h⟩
      · exact .inl (hrejected h)
      rcases ite_eq_iff.mp h with ⟨-, h⟩ | ⟨hnonce, h⟩
      · exact .inl (hrejected h)
      rcases ite_eq_iff.mp h with ⟨-, h⟩ | ⟨-, h⟩
      · exact .inl (hrejected h)
      rcases ite_eq_iff.mp h with ⟨-, h⟩ | ⟨hkey, h⟩
      · exact .inl (hrejected h)
      have htested : ∀ kept, manager' = { manager with submissions := kept } →
          kept = Function.update manager.submissions job.serial
            (manager.submissions job.serial ++ [submissionKey env submission]) →
          ShareTested env manager manager' jobId submission submitTime job := by
        rintro kept hmanager rfl
        exact {
          valid := hjob
          nTime_length := not_not.mp htime
          extraNonce2_length := not_not.mp hextra
          nonce_length := not_not.mp hnonce
          inRange := Bool.eq_false_iff.mpr hrange
          isNew := by simpa using hkey
          kept := hmanager }
      cases hheader : headerBuffer env.lib env.doubleSHA256 job.toTemplate submission with
      | none =>
          rw [hheader] at h
          cases h
          exact .inr ⟨job, htested _ rfl rfl, fun _ hresult => nomatch hresult⟩
      | some header =>
          rw [hheader] at h
          rcases ite_eq_iff.mp h with ⟨-, h⟩ | ⟨-, h⟩
          · cases h
            refine .inr ⟨job, htested _ rfl rfl, ?_⟩
            rintro shareData hresult
            cases hresult
            exact ⟨rfl, rfl, hheader⟩
          · cases h
            exact .inr ⟨job, htested _ rfl rfl, fun _ hresult => nomatch hresult⟩

theorem handleShare_accepted {manager manager' : Manager} {client : Client} {jobId : Str}
    {submission : Submission} {submitTime : Nat} {shareData : ShareData}
    (h : manager.handleShare env client jobId submission submitTime
      = (manager', .accepted shareData)) :
    SharePassed env manager manager' jobId submission submitTime shareData := by
  rcases handleShare_cases h with ⟨-, code, message, hresult⟩ | ⟨job, htested, haccepted⟩
  · cases hresult
  · obtain ⟨rfl, hcoinbase, hheader⟩ := haccepted shareData rfl
    exact {
      job := htested.valid
      nTime_length := htested.nTime_length
      extraNonce2_length := htested.extraNonce2_length
      nonce_length := htested.nonce_length
      inRange := htested.inRange
      isNew := htested.isNew
      isKept := by
        rw [htested.kept]
        simp
      coinbase := hcoinbase
      header := hheader }

theorem headerBuffer_isSome (env : PoolEnv) (hlib : env.lib.Correct) (job : Template)
    (submission : Submission)
    (hversion : 0 ≤ job.rpcData.version ∧ job.rpcData.version < 2 ^ 32) :
    ∃ header, headerBuffer env.lib env.doubleSHA256 job submission = some header := by
  apply Option.isSome_iff_exists.mp
  rw [headerBuffer, handleHeader_eq_flatten _ _ (fastRoot_length hlib _ _), if_pos hversion]
  rfl

theorem handleShare_eq {manager : Manager} (client : Client) {submission : Submission}
    (submitTime : Nat) {job : Job} {header : List UInt8}
    (hjob : manager.validJobs job.jobId = some job)
    (hextra : jsLength submission.extraNonce2 = 2 * extraNonce2Size)
    (htime : jsLength submission.nTime = 8)
    (hrange : nTimeOutOfRange job.rpcData.curtime submission.nTime submitTime = false)
    (hnonce : jsLength submission.nonce = 8) (haddr : client.addrPrimary.isEmpty = false)
    (hkey : submissionKey env submission ∉ manager.submissions job.serial)
    (hheader : headerBuffer env.lib env.doubleSHA256 job.toTemplate submission = some header)
    (haccepts : env.accepts job client (env.scrypt header).val = true) :
    manager.handleShare env client job.jobId submission submitTime
      = ({ manager with
            submissions := Function.update manager.submissions job.serial
              (manager.submissions job.serial ++ [submissionKey env submission]) },
          .accepted {
            job := job
            coinbase := coinbaseBuffer job.toTemplate submission
            header := header
            headerHash := env.scrypt header
            headerDiff := (env.scrypt header).val }) := by
  unfold Manager.handleShare
  rw [hjob]
  have hfresh : (manager.submissions job.serial).contains (submissionKey env submission)
      = false := by
    simpa using hkey
  simp only [ne_eq, not_true, hextra, htime, hrange, hnonce, haddr, hfresh, hheader, haccepts,
    if_false, if_true, Bool.false_eq_true]

/-- What `handleShare` asks of a share, of the manager as it is before, and what it makes of it. -/
structure ShareMeets (env : PoolEnv) (manager : Manager) (client : Client) (jobId : Str)
    (submission : Submission) (submitTime : Nat) (shareData : ShareData) : Prop where
  job : manager.validJobs jobId = some shareData.job
  jobId : shareData.job.jobId = jobId
  extraNonce2_length : jsLength submission.extraNonce2 = 2 * extraNonce2Size
  nTime_length : jsLength submission.nTime = 8
  inRange : nTimeOutOfRange shareData.job.rpcData.curtime submission.nTime submitTime = false
  nonce_length : jsLength submission.nonce = 8
  address : client.addrPrimary.isEmpty = false
  isNew : submissionKey env submission ∉ manager.submissions shareData.job.serial
  coinbase : shareData.coinbase = coinbaseBuffer shareData.job.toTemplate submission
  header : headerBuffer env.lib env.doubleSHA256 shareData.job.toTemplate submission
    = some shareData.header
  headerHash : shareData.headerHash = env.scrypt shareData.header
  headerDiff : shareData.headerDiff = shareData.headerHash.val
  accepts : env.accepts shareData.job client shareData.headerDiff = true

theorem handleShare_accepted_iff {manager : Manager} {client : Client} {jobId : Str}
    {submission : Submission} {submitTime : Nat} {shareData : ShareData} :
    (manager.handleShare env client jobId submission submitTime).2 = .accepted shareData ↔
      ShareMeets env manager client jobId submission submitTime shareData := by
  constructor
  · intro h
    unfold Manager.handleShare at h
    cases hjob : manager.validJobs jobId with
    | none =>
        rw [hjob] at h
        cases h
    | some job =>
        rw [hjob] at h
        dsimp only at h
        split_ifs at h with hid hextra htime hrange hnonce haddr hkey
        cases hheader : headerBuffer env.lib env.doubleSHA256 job.toTemplate submission with
        | none =>
            rw [hheader] at h
            cases h
        | some header =>
            rw [hheader] at h
            dsimp only at h
            split_ifs at h with haccepts
            cases h
            exact {
              job := hjob
              jobId := not_not.mp hid
              extraNonce2_length := not_not.mp hextra
              nTime_length := not_not.mp htime
              inRange := Bool.eq_false_iff.mpr hrange
              nonce_length := not_not.mp hnonce
              address := Bool.eq_false_iff.mpr haddr
              isNew := by simpa using hkey
              coinbase := rfl
              header := hheader
              headerHash := rfl
              headerDiff := rfl
              accepts := haccepts }
  · intro h
    have hjob := h.job
    have haccepts := h.accepts
    rw [← h.jobId] at hjob
    rw [h.headerDiff, h.headerHash] at haccepts
    have hshare := handleShare_eq client submitTime hjob h.extraNonce2_length h.nTime_length
      h.inRange h.nonce_length h.address h.isNew h.header haccepts
    rw [h.jobId, ← h.coinbase, ← h.headerHash, ← h.headerDiff] at hshare
    exact congrArg Prod.snd hshare

theorem handleShare_manager (env : PoolEnv) (manager : Manager) (client : Client) (jobId : Str)
    (submission : Submission) (submitTime : Nat) :
    ∃ submissions, (manager.handleShare env client jobId submission submitTime).1
        = { manager with submissions := submissions } ∧
      ∀ serial, manager.submissions serial ⊆ submissions serial := by
  cases hshare : manager.handleShare env client jobId submission submitTime with
  | mk manager' result =>
    rcases handleShare_cases hshare with ⟨hsame, -⟩ | ⟨job, htested, -⟩
    · exact ⟨manager.submissions, hsame, fun _ => List.Subset.refl _⟩
    · refine ⟨_, htested.kept, fun serial => ?_⟩
      by_cases hserial : serial = job.serial
      · subst hserial
        simp
      · simp [Function.update_of_ne hserial]

end

/-! ## The events of a pool -/

/-- A reply to `handleAuxiliaryTemplate`, to `handlePrimaryTemplate` and to the
call on `network.timeout`, and a `mining.submit`. -/
inductive ManagerEvent where
  | auxTemplate (reply : Reply AuxBlock)
  | primaryTemplate (newBlock newBroadcast : Bool) (reply : Reply BlockTemplate) (now : Nat)
  | timeout (reply : Reply BlockTemplate) (now : Nat)
  | submit (client : Client) (jobId extraNonce2 nTime nonce : Str) (submitTime : Nat)

def submissionOf (client : Client) (extraNonce2 nTime nonce : Str) : Submission where
  extraNonce1 := toHex client.extraNonce1.toList
  extraNonce2 := extraNonce2
  nTime := nTime
  nonce := nonce

/-- What an event does to the pool, and what `handleShare` made of a share. -/
def PoolState.handleEvent (config : PoolConfig) (env : PoolEnv) (pool : PoolState) :
    ManagerEvent → PoolState × Option ShareResult
  | .auxTemplate reply => ((pool.handleAuxiliaryTemplate reply).1, none)
  | .primaryTemplate newBlock newBroadcast reply now =>
      ((pool.handlePrimaryTemplate config newBlock newBroadcast now env.emits reply).1, none)
  | .timeout reply now => (pool.handleTimeout config now env.emits reply, none)
  | .submit client jobId extraNonce2 nTime nonce submitTime =>
      let handled := pool.manager.handleShare env client jobId
        (submissionOf client extraNonce2 nTime nonce) submitTime
      ({ pool with manager := handled.1 }, some handled.2)

section
variable {config : PoolConfig} {env : PoolEnv} {pool : PoolState}

theorem handleEvent_built (h : pool.manager.Built config) (e : ManagerEvent) :
    (pool.handleEvent config env e).1.manager.Built config := by
  cases e with
  | auxTemplate reply =>
      cases reply with
      | error => exact h
      | success response => exact h
  | primaryTemplate newBlock newBroadcast reply now =>
      exact PoolState.handlePrimaryTemplate_built h newBlock newBroadcast now env.emits reply
  | timeout reply now => exact PoolState.handleTimeout_built h now env.emits reply
  | submit client jobId extraNonce2 nTime nonce submitTime =>
      obtain ⟨submissions, heq, -⟩ := handleShare_manager env pool.manager client jobId
        (submissionOf client extraNonce2 nTime nonce) submitTime
      show Manager.Built config (pool.manager.handleShare env client jobId _ submitTime).1
      rw [heq]
      exact h

theorem handleEvent_numbered (config : PoolConfig) (env : PoolEnv) (h : pool.manager.Numbered)
    (e : ManagerEvent) :
    (pool.handleEvent config env e).1.manager.Numbered ∧
      pool.manager.Extends (pool.handleEvent config env e).1.manager := by
  cases e with
  | auxTemplate reply =>
      cases reply with
      | error => exact ⟨h, .refl _⟩
      | success response => exact ⟨h, .refl _⟩
  | primaryTemplate newBlock newBroadcast reply now =>
      exact PoolState.handlePrimaryTemplate_numbered h config newBlock newBroadcast now env.emits
        reply
  | timeout reply now => exact PoolState.handleTimeout_numbered h config now env.emits reply
  | submit client jobId extraNonce2 nTime nonce submitTime =>
      obtain ⟨submissions, heq, hgrows⟩ := handleShare_manager env pool.manager client jobId
        (submissionOf client extraNonce2 nTime nonce) submitTime
      show Manager.Numbered (pool.manager.handleShare env client jobId _ submitTime).1 ∧
        pool.manager.Extends (pool.manager.handleShare env client jobId _ submitTime).1
      rw [heq]
      exact ⟨h, le_rfl, fun serial _ => hgrows serial⟩

theorem handleEvent_accepted {e : ManagerEvent} {shareData : ShareData}
    (h : (pool.handleEvent config env e).2 = some (.accepted shareData)) :
    ∃ client jobId extraNonce2 nTime nonce submitTime,
      e = .submit client jobId extraNonce2 nTime nonce submitTime ∧
      SharePassed env pool.manager (pool.handleEvent config env e).1.manager jobId
        (submissionOf client extraNonce2 nTime nonce) submitTime shareData := by
  cases e with
  | auxTemplate reply => exact nomatch h
  | primaryTemplate newBlock newBroadcast reply now => exact nomatch h
  | timeout reply now => exact nomatch h
  | submit client jobId extraNonce2 nTime nonce submitTime =>
      exact ⟨client, jobId, extraNonce2, nTime, nonce, submitTime, rfl,
        handleShare_accepted (Prod.ext rfl (Option.some.inj h))⟩

/-- The first template of a pool is its current job, with id 1 and no submissions. -/
structure FirstJob (config : PoolConfig) (block : BlockTemplate) (now : Nat) (manager : Manager)
    (job : Job) : Prop where
  jobId : job.jobId = "1".toList
  new : Job.new config job.serial job.jobId block now = some job
  current : manager.currentJob = some job
  valid : manager.validJobs "1".toList = some job
  submissions : manager.submissions job.serial = []

theorem handleEvent_first (hinitial : pool.manager = .initial) {block : BlockTemplate} {now : Nat}
    (hnew : (pool.withAuxData config block).Constructs config now = true)
    (hemits : ∀ job, env.emits job = true) :
    ∃ manager job, (pool.handleEvent config env (.primaryTemplate false true (.success block) now)).1
        = { pool with manager := manager } ∧
      FirstJob config (pool.withAuxData config block) now manager job := by
  rw [BlockTemplate.Constructs, Job.new_isSome config 0 0 [] "1".toList] at hnew
  obtain ⟨job, hnew⟩ := Option.isSome_iff_exists.mp hnew
  have hkeeps := Job.new_some hnew
  have hnext : Manager.nextJob { Manager.initial with validJobs := fun _ => none } config
      (pool.withAuxData config block) now = some job := hnew
  have htemplate : Manager.initial.handleTemplate config (pool.withAuxData config block) false true
      now env.emits = ({
        currentJob := some job
        validJobs := Function.update (fun _ => none) job.jobId (some job)
        jobCounter := 1
        templates := 1
        submissions := Function.update (fun _ => []) job.serial [] }, some true) := by
    have hisNew : ∀ block, Manager.isNewBlock Manager.initial.currentJob block = true := fun _ => rfl
    simp only [Manager.handleTemplate, Manager.handleUpdates, hisNew, hnext, hemits, Bool.not_true,
      Bool.false_and, Bool.false_eq_true, if_false, if_true]
    rfl
  have hfirst : FirstJob config (pool.withAuxData config block) now {
      currentJob := some job
      validJobs := Function.update (fun _ => none) job.jobId (some job)
      jobCounter := 1
      templates := 1
      submissions := Function.update (fun _ => []) job.serial [] } job := {
    jobId := hkeeps.jobId
    new := by rw [hkeeps.serial, hkeeps.jobId]; exact hnew
    current := rfl
    valid := by rw [← hkeeps.jobId]; exact Function.update_self job.jobId (some job) fun _ => none
    submissions := Function.update_self job.serial [] fun _ => [] }
  refine ⟨_, job, ?_, hfirst⟩
  simp only [PoolState.handleEvent, PoolState.handlePrimaryTemplate, hinitial, htemplate]

end

/-! ## A concrete environment -/

/-- The tree library of `HeaderAgree`, with one leaf as its own root. -/
def leafMerkle : MerkleLib where
  Tree := firstLeafMerkle.Tree
  merkleTree := firstLeafMerkle.merkleTree
  merkleProof := firstLeafMerkle.merkleProof
  fastRoot leaves digest := match leaves with
    | [leaf] => leaf
    | leaves => firstLeafMerkle.fastRoot leaves digest

theorem leafMerkle_correct : leafMerkle.Correct where
  fastRoot digest leaf rest := by
    cases rest with
    | nil => exact Merkle.rootOf_singleton _ leaf
    | cons next rest => exact firstLeafMerkle_correct.fastRoot digest leaf (next :: rest)
  merkleProof := firstLeafMerkle_correct.merkleProof

/-- All hashes are zero, every share is good enough, and no listener throws. -/
def sampleEnv : PoolEnv where
  lib := leafMerkle
  doubleSHA256 := fun _ => ByteArr.fill 32 0
  scrypt := fun _ => ByteArr.fill 32 0
  toLowerCase := List.map Char.toLower
  accepts := fun _ _ _ => true
  emits := fun _ => true

end DogeConnect
