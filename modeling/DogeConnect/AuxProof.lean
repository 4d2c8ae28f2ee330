/-
Auxiliary proofs of the merged-mining pool.

A share that meets the auxiliary target is submitted with a proof put together
by `submitAuxiliary`: the coinbase and the header are the share's, the merkle
steps are those of the manager's current job, the hash and the target those of
the auxiliary block the pool has at that moment.  Templates of both chains are
replaced by callbacks that run between any two shares.

    commitment_inj        a coinbase commits to one auxiliary block
    Belongs               a proof is of the job of its share
    belongs_iff           it is, just when the pool's data are still the job's
    proofs_belong_iff     over whole runs
-/
import DogeConnect.ManagerShare
import DogeConnect.Lib.Run

namespace DogeConnect

/-- A call of `submitAuxiliary`, with the job of the share and the target the
share was compared with. -/
structure AuxSubmission where
  job : Job
  target : Nat
  hash : Str
  steps : List (List UInt8)
  coinbase : List UInt8
  headerHash : ByteArr 32
  header : List UInt8
  deriving DecidableEq

/-- `auxPow`, the second parameter of `getauxblock`. -/
def AuxSubmission.auxPow (sub : AuxSubmission) : List UInt8 :=
  let coinbaseProof := varIntBuffer sub.steps.length ++ sub.steps.flatten ++ packUInt32LE 0
  let auxProof := varIntBuffer 0 ++ packUInt32LE 0
  sub.coinbase ++ sub.headerHash.toList ++ coinbaseProof ++ auxProof ++ sub.header

/-- The pool, and all calls of `submitAuxiliary` so far. -/
structure AuxPool where
  pool : PoolState
  sent : List AuxSubmission

namespace AuxPool

def initial : AuxPool := ⟨.initial, []⟩

section
variable (config : PoolConfig) (env : PoolEnv)

/-- `checkAuxiliary`: the auxiliary block the share is compared with, if it wins it. -/
def checkAuxiliary (pool : PoolState) (shareData : ShareData) : Option AuxData :=
  if config.auxiliaryEnabled then
    pool.auxData.filter fun auxData => decide (auxData.target ≥ shareData.headerDiff)
  else none

/-- `submitAuxiliary`. -/
def submitAuxiliary (pool : PoolState) (auxData : AuxData) (shareData : ShareData) :
    Option AuxSubmission :=
  pool.manager.currentJob.map fun currentJob => {
    job := shareData.job
    target := auxData.target
    hash := auxData.hash
    steps := currentJob.steps env.lib env.doubleSHA256
    coinbase := shareData.coinbase
    headerHash := shareData.headerHash
    header := shareData.header }

/-- What the listener of `manager.share` sends to the auxiliary daemon. -/
def auxiliaryOf (pool : PoolState) : ShareResult → Option AuxSubmission
  | .accepted shareData =>
      (checkAuxiliary config pool shareData).bind fun auxData =>
        submitAuxiliary env pool auxData shareData
  | _ => none

def step (s : AuxPool) (e : ManagerEvent) : Option AuxPool :=
  let handled := s.pool.handleEvent config env e
  some {
    pool := handled.1
    sent := s.sent ++ (handled.2.bind (auxiliaryOf config env s.pool)).toList }

/-- The proof is of the job of its share. -/
structure Belongs (sub : AuxSubmission) : Prop where
  steps : sub.steps = sub.job.steps env.lib env.doubleSHA256
  /-- The job commits to the block whose hash is submitted, and the share was
  compared with the target of that block. -/
  committed : ∃ auxData, sub.job.auxData = some auxData ∧ sub.target = auxData.target ∧
    ∃ front, sub.job.generation.1 = front ++ auxCommitment config sub.hash
  coinbase : ∃ front back, sub.coinbase = front ++ auxCommitment config sub.hash ++ back
  root : headerRoot sub.header = sub.steps.foldl (combineWith (sha256d env.doubleSHA256))
    (sha256d env.doubleSHA256 sub.coinbase)

/-- The pool still has what a job was built from, as far as a proof uses it. -/
def StillOf (pool : PoolState) (auxData : AuxData) (job : Job) : Prop :=
  (∀ currentJob, pool.manager.currentJob = some currentJob →
    currentJob.steps env.lib env.doubleSHA256 = job.steps env.lib env.doubleSHA256) ∧
  ∃ built, job.auxData = some built ∧ bufferFromHex auxData.hash = bufferFromHex built.hash ∧
    auxData.target = built.target

/-- A share that wins the auxiliary block is for a job the pool still has the
data of. -/
def Matching (s : AuxPool) (e : ManagerEvent) : Prop :=
  ∀ shareData auxData, (s.pool.handleEvent config env e).2 = some (.accepted shareData) →
    checkAuxiliary config s.pool shareData = some auxData →
    s.pool.manager.currentJob.isSome → StillOf env s.pool auxData shareData.job

end

variable {config : PoolConfig} {env : PoolEnv}

/-! ## One proof -/

/-- A coinbase ends, where the extra nonces begin, in one commitment. -/
theorem commitment_inj {front front' : List UInt8} {hash hash' : Str}
    (hhash : (bufferFromHex hash).length = 32) (hhash' : (bufferFromHex hash').length = 32)
    (h : front ++ auxCommitment config hash = front' ++ auxCommitment config hash') :
    bufferFromHex hash = bufferFromHex hash' := by
  have hlength : (auxCommitment config hash).length = (auxCommitment config hash').length := by
    simp [auxCommitment, hhash, hhash']
  obtain ⟨-, hcommitment⟩ := List.append_inj' h hlength
  simp only [auxCommitment, List.append_assoc] at hcommitment
  have hrest := List.append_cancel_left hcommitment
  exact (List.append_inj hrest (hhash.trans hhash'.symm)).1

theorem auxCommitment_congr {hash hash' : Str} (h : bufferFromHex hash = bufferFromHex hash') :
    auxCommitment config hash = auxCommitment config hash' := by
  rw [auxCommitment, auxCommitment, h]

theorem checkAuxiliary_auxData {pool : PoolState} {shareData : ShareData} {auxData : AuxData}
    (h : checkAuxiliary config pool shareData = some auxData) : pool.auxData = some auxData := by
  unfold checkAuxiliary at h
  split at h
  · exact (Option.filter_eq_some_iff.mp h).1
  · exact nomatch h

/-- A share of the current job, while the auxiliary block is the one it was built with. -/
theorem stillOf_current {pool : PoolState} {shareData : ShareData} {built auxData : AuxData}
    (hwins : checkAuxiliary config pool shareData = some auxData)
    (hcurrent : pool.manager.currentJob = some shareData.job)
    (hbuilt : shareData.job.auxData = some built) (haux : pool.auxData = some built) :
    StillOf env pool auxData shareData.job := by
  have hdata := checkAuxiliary_auxData hwins
  rw [haux] at hdata
  cases hdata
  refine ⟨fun currentJob hcurrent' => ?_, built, hbuilt, rfl, rfl⟩
  rw [hcurrent] at hcurrent'
  cases hcurrent'
  rfl

/-- What is sent for a share belongs to its job just when the pool still has the
job's data. -/
theorem belongs_iff (hlib : env.lib.Correct) {pool : PoolState} (hbuilt : pool.manager.Built config)
    {e : ManagerEvent} {shareData : ShareData}
    (hshare : (pool.handleEvent config env e).2 = some (.accepted shareData))
    {auxData : AuxData} (hwins : checkAuxiliary config pool shareData = some auxData)
    {sub : AuxSubmission} (hsub : submitAuxiliary env pool auxData shareData = some sub) :
    Belongs config env sub ↔ StillOf env pool auxData shareData.job := by
  obtain ⟨client, jobId, extraNonce2, nTime, nonce, submitTime, -, hpassed⟩ :=
    handleEvent_accepted hshare
  have henabled : config.auxiliaryEnabled = true := by
    by_contra hdisabled
    simp [checkAuxiliary, hdisabled] at hwins
  obtain ⟨currentJob, hcurrent, rfl⟩ := Option.map_eq_some_iff.mp hsub
  -- what the job's coinbase ends in
  have hends : ∀ built, shareData.job.auxData = some built →
      ∃ front, shareData.job.generation.1 = front ++ auxCommitment config built.hash := by
    intro built hjob
    obtain ⟨block, now, heq⟩ := hbuilt shareData.job (.inr ⟨jobId, hpassed.job⟩)
    have hkeeps := Job.new_some heq
    rw [hkeeps.auxData] at hjob
    exact handleGeneration_commits henabled hjob hkeeps.generation
  constructor
  · intro h
    obtain ⟨built, hjob, htarget, front, hfront⟩ := h.committed
    obtain ⟨front', hfront'⟩ := hends built hjob
    refine ⟨fun current hcurrent' => ?_, built, hjob, ?_, htarget⟩
    · rw [hcurrent] at hcurrent'
      cases hcurrent'
      exact h.steps
    · exact commitment_inj auxData.hash_length built.hash_length (hfront.symm.trans hfront')
  · rintro ⟨hsteps, built, hjob, hhash, htarget⟩
    obtain ⟨front, hfront⟩ := hends built hjob
    have hgeneration : shareData.job.generation.1 = front ++ auxCommitment config auxData.hash := by
      rw [hfront, auxCommitment_congr hhash]
    refine ⟨hsteps currentJob hcurrent, ⟨built, hjob, htarget, front, hgeneration⟩,
      ⟨front, bufferFromHex (toHex client.extraNonce1.toList) ++ bufferFromHex extraNonce2
        ++ shareData.job.generation.2, ?_⟩, ?_⟩
    · show shareData.coinbase = _
      rw [hpassed.coinbase, coinbaseBuffer, Template.handleCoinbase, hgeneration]
      simp only [List.append_assoc, submissionOf]
    · show headerRoot shareData.header = (currentJob.steps env.lib env.doubleSHA256).foldl
        (combineWith (sha256d env.doubleSHA256)) (sha256d env.doubleSHA256 shareData.coinbase)
      rw [headerRoot_eq (fastRoot_length hlib _ _) hpassed.header, fastRoot_eq hlib,
        hsteps currentJob hcurrent, hpassed.coinbase]
      rfl

/-! ## Runs -/

def AllBelong (config : PoolConfig) (env : PoolEnv) (s : AuxPool) : Prop :=
  ∀ sub ∈ s.sent, Belongs config env sub

theorem auxiliaryOf_some {pool : PoolState} {result : Option ShareResult} {sub : AuxSubmission}
    (h : result.bind (auxiliaryOf config env pool) = some sub) :
    ∃ shareData auxData, result = some (.accepted shareData) ∧
      checkAuxiliary config pool shareData = some auxData ∧
      submitAuxiliary env pool auxData shareData = some sub := by
  obtain ⟨outcome, rfl, hsent⟩ := Option.bind_eq_some_iff.mp h
  cases outcome with
  | rejected code message => exact nomatch hsent
  | thrown => exact nomatch hsent
  | accepted shareData =>
      rw [auxiliaryOf] at hsent
      obtain ⟨auxData, hwins, hsub⟩ := Option.bind_eq_some_iff.mp hsent
      exact ⟨shareData, auxData, rfl, hwins, hsub⟩

theorem matching_of_none {s : AuxPool} {e : ManagerEvent}
    (h : (s.pool.handleEvent config env e).2 = none) : Matching config env s e := by
  intro shareData auxData hshare
  rw [h] at hshare
  exact nomatch hshare

theorem allBelong_step (hlib : env.lib.Correct) (s : AuxPool) (e : ManagerEvent) (s' : AuxPool)
    (hbuilt : s.pool.manager.Built config) (h : AllBelong config env s)
    (hstep : step config env s e = some s') :
    AllBelong config env s' ↔ Matching config env s e := by
  cases hstep
  constructor
  · intro h' shareData auxData hshare hwins hcurrent
    obtain ⟨currentJob, hcurrent⟩ := Option.isSome_iff_exists.mp hcurrent
    obtain ⟨sub, hsub⟩ : ∃ sub, submitAuxiliary env s.pool auxData shareData = some sub := by
      rw [submitAuxiliary, hcurrent]
      exact ⟨_, rfl⟩
    refine (belongs_iff hlib hbuilt hshare hwins hsub).mp (h' sub (List.mem_append_right _ ?_))
    rw [hshare, Option.bind_some, auxiliaryOf, hwins, Option.bind_some, hsub]
    exact List.mem_cons_self
  · intro hmatching sub hsub
    rcases List.mem_append.mp hsub with hsub | hsub
    · exact h sub hsub
    · obtain ⟨shareData, auxData, hshare, hwins, hsub⟩ :=
        auxiliaryOf_some (Option.mem_toList.mp hsub)
      obtain ⟨currentJob, hcurrent, -⟩ := Option.map_eq_some_iff.mp hsub
      exact (belongs_iff hlib hbuilt hshare hwins hsub).mpr
        (hmatching shareData auxData hshare hwins (by simp [hcurrent]))

theorem built_step (s : AuxPool) (e : ManagerEvent) (s' : AuxPool)
    (h : s.pool.manager.Built config) (hstep : step config env s e = some s') :
    s'.pool.manager.Built config := by
  cases hstep
  exact handleEvent_built h e

/-- Every proof belongs to its share along just the runs in which a share that wins
the auxiliary block finds the pool with the data of its job: the current job has the
same merkle steps, the auxiliary block in force is the one the job was built with. -/
theorem proofs_belong_iff (config : PoolConfig) (env : PoolEnv) (hlib : env.lib.Correct)
    (es : List ManagerEvent) :
    Run.Always (step config env) (AllBelong config env) initial es ↔
      Run.Along (step config env) (Matching config env) initial es := by
  refine Run.always_iff_along (I := fun s => s.pool.manager.Built config)
    (fun s e s' hbuilt h hstep => ⟨allBelong_step hlib s e s' hbuilt h hstep, fun _ =>
      built_step s e s' hbuilt hstep⟩) (Manager.initial_built config) ?_
  intro sub hsub
  exact nomatch hsub

/-! ## Two runs -/

def sampleConfig : PoolConfig := ⟨true, "fabe6d6d".toList, fun _ => some []⟩

/-- An auxiliary block whose hash is one digit repeated. -/
def sampleAux (byte : UInt8) : AuxBlock where
  hash := byteHash byte
  height := 1
  target := []
  hash_length := by rw [byteHash, bufferFromHex_toHex, List.length_replicate]

/-- What the pool keeps of it. -/
def sampleAuxData (byte : UInt8) : AuxData where
  hash := byteHash byte
  height := 1
  target := 0
  hash_length := (sampleAux byte).hash_length

def sampleBlock : BlockTemplate := emptyTemplate (byteHash 0) 1 0

def sampleClient : Client := ⟨ByteArr.fill 4 0, "addr".toList, 1, none⟩

def sampleSubmit : ManagerEvent :=
  .submit sampleClient "1".toList "0000000000000000".toList "00000001".toList "00000000".toList 0

/-- The first share of a job with the sample template, of difficulty zero. -/
theorem sampleSubmit_accepted {pool : PoolState} {job : Job} (hid : job.jobId = "1".toList)
    (hdata : job.rpcData = sampleBlock.rpcData)
    (hjob : pool.manager.validJobs "1".toList = some job)
    (hnew : pool.manager.submissions job.serial = []) :
    ∃ shareData, (pool.handleEvent sampleConfig sampleEnv sampleSubmit).2
        = some (.accepted shareData) ∧
      shareData.job = job ∧ shareData.headerDiff = 0 := by
  obtain ⟨header, hheader⟩ := headerBuffer_isSome sampleEnv leafMerkle_correct
    job.toTemplate
    (submissionOf sampleClient "0000000000000000".toList "00000001".toList "00000000".toList)
    (by rw [hdata]; decide)
  rw [← hid] at hjob
  have hshare := handleShare_eq sampleClient 0 hjob (by decide)
    (by decide) (by rw [hdata]; decide) (by decide) (by decide)
    (by rw [hnew]; exact List.not_mem_nil) hheader rfl
  rw [hid] at hshare
  have hresult := congrArg Prod.snd hshare
  exact ⟨_, congrArg some hresult, rfl, rfl⟩

theorem sampleSubmit_job {pool : PoolState} {job : Job} {shareData : ShareData}
    (hjob : pool.manager.validJobs "1".toList = some job)
    (h : (pool.handleEvent sampleConfig sampleEnv sampleSubmit).2 = some (.accepted shareData)) :
    shareData.job = job := by
  obtain ⟨client, jobId, extraNonce2, nTime, nonce, submitTime, hevent, hpassed⟩ :=
    handleEvent_accepted h
  cases hevent
  exact Option.some.inj (hpassed.job.symm.trans hjob)

def sameAuxRun : List ManagerEvent :=
  [.auxTemplate (.success (sampleAux 0)), .primaryTemplate false true (.success sampleBlock) 0,
    sampleSubmit]

theorem proofs_belong_sameAux :
    Run.Always (step sampleConfig sampleEnv) (AllBelong sampleConfig sampleEnv) initial
      sameAuxRun := by
  refine (proofs_belong_iff sampleConfig sampleEnv leafMerkle_correct sameAuxRun).mpr ?_
  refine .cons rfl (matching_of_none rfl) (.cons rfl (matching_of_none rfl) (.cons rfl ?_ trivial))
  intro shareData auxData hshare hwins _
  -- the only job there is
  have hjob := sampleSubmit_job rfl hshare
  exact stillOf_current hwins (by rw [hjob]; rfl) (by rw [hjob]; rfl) rfl

/-- A new auxiliary block between a job and its share. -/
def newAuxRun : List ManagerEvent :=
  [.auxTemplate (.success (sampleAux 0)), .primaryTemplate false true (.success sampleBlock) 0,
    .auxTemplate (.success (sampleAux 1))]

theorem newAuxRun_mixed :
    ∃ s, Run.exec (step sampleConfig sampleEnv) initial (newAuxRun ++ [sampleSubmit]) = some s ∧
      ¬ AllBelong sampleConfig sampleEnv s := by
  have hbefore : ∃ s job built auxData, Run.exec (step sampleConfig sampleEnv) initial newAuxRun
      = some s ∧ s.sent = [] ∧ s.pool.manager.validJobs "1".toList = some job ∧
      s.pool.manager.currentJob = some job ∧ job.jobId = "1".toList ∧
      job.rpcData = sampleBlock.rpcData ∧ s.pool.manager.submissions job.serial = [] ∧
      job.auxData = some built ∧ built.hash = (sampleAux 0).hash ∧
      s.pool.auxData = some auxData ∧ auxData.hash = (sampleAux 1).hash :=
    ⟨_, _, _, _, rfl, rfl, rfl, rfl, rfl, rfl, rfl, rfl, rfl, rfl, rfl⟩
  obtain ⟨s, job, built, auxData, hexec, hsent, hjob, hcurrent, hid, hdata, hnew, hbuilt, hhash,
    haux, hhash'⟩ := hbefore
  obtain ⟨shareData, hshare, hshareJob, hzero⟩ := sampleSubmit_accepted hid hdata hjob hnew
  obtain ⟨s', hstep⟩ : ∃ s', step sampleConfig sampleEnv s sampleSubmit = some s' := ⟨_, rfl⟩
  refine ⟨s', ?_, fun h => ?_⟩
  · rw [Run.exec_append, hexec]
    show (step sampleConfig sampleEnv s sampleSubmit).bind _ = _
    rw [hstep]
    rfl
  · have hinv : s.pool.manager.Built sampleConfig :=
      (Run.always_of_step built_step (Manager.initial_built sampleConfig)).exec hexec
    have hbefore : AllBelong sampleConfig sampleEnv s := by
      intro sub hsub
      rw [hsent] at hsub
      exact nomatch hsub
    have hwins : checkAuxiliary sampleConfig s.pool shareData = some auxData := by
      simp [checkAuxiliary, haux, hzero, sampleConfig]
    -- the job was built with the first block, the pool has the second
    obtain ⟨-, built', hbuilt', hbytes, -⟩ := (allBelong_step leafMerkle_correct s sampleSubmit s'
      hinv hbefore hstep).mp h shareData auxData hshare hwins (by simp [hcurrent])
    rw [hshareJob, hbuilt] at hbuilt'
    cases hbuilt'
    rw [hhash, hhash'] at hbytes
    exact absurd hbytes (by decide)

end AuxPool

end DogeConnect
