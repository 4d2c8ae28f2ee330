/-
What an accepted share is tied to.

A solution brings its own merkle root, "to avoid dispatcher having to calculate
the root again": the loop hashes the root it is given, credits the computor in
`extraNonce2`, and submits `extraNonce2` to the pool, which computes the root
from it.  Whether the three belong together is nowhere checked.

    accepted_spec           what acceptance does mean; the pool hashes the same header
                            exactly when the root is that of the extraNonce2
    root_collision          one root for two extra nonces is a collision of double SHA-256
    sameWork_twoComputors   without that, one proof of work is credited to two computors
-/
import DogeConnect.HeaderAgree
import DogeConnect.ShareDedup

namespace DogeConnect

section
variable (doubleSHA256 : List UInt8 → ByteArr 32)

/-- The merkle root of a task for a given extraNonce2. -/
def rootOfExtraNonce2 (task : DispatcherMiningTask) (extraNonce2 : ByteArr 8) : ByteArr 32 :=
  calculateMerkleRoot doubleSHA256 task.coinbase1 task.coinbase2 task.extraNonce1
    extraNonce2.toList task.merkleBranches

/-- The header with the root that belongs to the solution's extraNonce2. -/
def rebuiltHeader (task : DispatcherMiningTask) (sol : DispatcherMiningSolution) : List UInt8 :=
  fullHeader task { sol with merkleRoot := rootOfExtraNonce2 doubleSHA256 task sol.extraNonce2 }

theorem fullHeader_eq_rebuiltHeader (task : DispatcherMiningTask) (sol : DispatcherMiningSolution) :
    fullHeader task sol = rebuiltHeader doubleSHA256 task sol ↔
      sol.merkleRoot = rootOfExtraNonce2 doubleSHA256 task sol.extraNonce2 := by
  constructor
  · intro h
    simp only [rebuiltHeader, fullHeader, List.append_assoc] at h
    have htail := (List.append_inj h rfl).2
    exact ByteArr.ext (List.append_inj htail (by simp)).1
  · intro h
    rw [rebuiltHeader, ← h]

/-! ## Collisions -/

/-- Two different coinbases, or nodes, with one hash. -/
def Collision : Prop := ∃ u v : List UInt8, u ≠ v ∧ doubleSHA256 u = doubleSHA256 v

/-- One root for two extra nonces is a collision, in the coinbase or on its path. -/
theorem root_collision {task : DispatcherMiningTask} {a b : ByteArr 8} (hne : a ≠ b)
    (h : rootOfExtraNonce2 doubleSHA256 task a = rootOfExtraNonce2 doubleSHA256 task b) :
    Collision doubleSHA256 := by
  have hcoinbase : task.coinbase1 ++ task.extraNonce1 ++ a.toList ++ task.coinbase2
      ≠ task.coinbase1 ++ task.extraNonce1 ++ b.toList ++ task.coinbase2 := by
    intro heq
    have hfront := (List.append_inj' heq rfl).1
    exact hne (ByteArr.ext (List.append_inj_right hfront rfl))
  by_cases hleaf : doubleSHA256 (task.coinbase1 ++ task.extraNonce1 ++ a.toList ++ task.coinbase2)
      = doubleSHA256 (task.coinbase1 ++ task.extraNonce1 ++ b.toList ++ task.coinbase2)
  · exact ⟨_, _, hcoinbase, hleaf⟩
  · have hfold := congrArg ByteArr.toList h
    simp only [rootOfExtraNonce2, calculateMerkleRoot, foldl_calculateMerkleRoot] at hfold
    obtain ⟨s, -, u, v, huv, hcol⟩ := Merkle.foldl_collision _ task.merkleBranches hfold
      (fun heq => hleaf (ByteArr.ext heq))
    exact ⟨u ++ s, v ++ s, fun heq => huv (List.append_cancel_right heq), ByteArr.ext hcol⟩

/-! ## Acceptance -/

variable (scrypt : List UInt8 → ByteArr 32) (workerName : Str)

theorem accepted_cases {activeTasks : ConcurrentHashMap UInt64 DispatcherMiningTask}
    {connected : Bool} {now : Int} {st st' : ShareState} {sol : DispatcherMiningSolution}
    {accepted : Accepted}
    (h : validateShare scrypt workerName activeTasks connected now st sol = (st', some accepted)) :
    activeTasks.get sol.jobId = some accepted.task ∧
    verifyHashVsTarget (scrypt (fullHeader accepted.task sol)) accepted.task.targetPool = true ∧
    st'.stats.computorShares = Function.update st.stats.computorShares (creditedComputor sol)
      (st.stats.computorShares (creditedComputor sol) + 1) ∧
    ∀ message, accepted.message = some message →
      message = submitMessage workerName st.nextStratumSendId accepted.task sol := by
  rcases validateShare_cases scrypt workerName h with ⟨-, -, hacc⟩ | ⟨-, -, -, hacc⟩ |
    ⟨-, task, -, -, -, hacc⟩ | ⟨-, task, htask, hmeets, rfl, hacc⟩
  · cases hacc
  · cases hacc
  · cases hacc
  · cases hacc
    refine ⟨htask, hmeets, by simp, fun message hmessage => ?_⟩
    cases connected with
    | false => cases hmessage
    | true =>
        cases hmessage
        rw [credit_nextStratumSendId, admitted_nextStratumSendId]

/-- **Acceptance.**  The header of an accepted solution meets the target of its
task with the root the solution brings; the computor is that of its
extraNonce2; what is submitted are its own fields.  The pool of the same
session rebuilds that header exactly when the root is that of the extraNonce2,
and then no second extraNonce2 shares the proof of work without a collision. -/
theorem accepted_spec {activeTasks : ConcurrentHashMap UInt64 DispatcherMiningTask}
    {connected : Bool} {now : Int} {st st' : ShareState} {sol : DispatcherMiningSolution}
    {accepted : Accepted}
    (h : validateShare scrypt workerName activeTasks connected now st sol = (st', some accepted)) :
    activeTasks.get sol.jobId = some accepted.task ∧
    verifyHashVsTarget (scrypt (fullHeader accepted.task sol)) accepted.task.targetPool = true ∧
    st'.stats.computorShares = Function.update st.stats.computorShares (creditedComputor sol)
      (st.stats.computorShares (creditedComputor sol) + 1) ∧
    (∀ message, accepted.message = some message →
      message = submitMessage workerName st.nextStratumSendId accepted.task sol ∧
      ∀ lib job extraNonce1 diff, lib.Correct → job.WellFormed →
        ParsedTemplate lib doubleSHA256 job extraNonce1 diff accepted.task →
        ∃ submission, Submission.ofMessage (toHex extraNonce1) message = .ok submission ∧
          (headerBuffer lib doubleSHA256 job submission = some (fullHeader accepted.task sol) ↔
            sol.merkleRoot = rootOfExtraNonce2 doubleSHA256 accepted.task sol.extraNonce2)) ∧
    (sol.merkleRoot = rootOfExtraNonce2 doubleSHA256 accepted.task sol.extraNonce2 →
      ∀ other : DispatcherMiningSolution, other.extraNonce2 ≠ sol.extraNonce2 →
        other.merkleRoot = sol.merkleRoot →
        other.merkleRoot = rootOfExtraNonce2 doubleSHA256 accepted.task other.extraNonce2 →
        Collision doubleSHA256) := by
  obtain ⟨htask, hmeets, hshares, hmessage⟩ := accepted_cases scrypt workerName h
  refine ⟨htask, hmeets, hshares, fun message hm => ⟨hmessage message hm, ?_⟩, ?_⟩
  · intro lib job extraNonce1 diff hlib hjob hparsed
    rw [hmessage message hm]
    refine ⟨_, ofMessage_submit _ _ _ _ _, ?_⟩
    rw [headerBuffer_submit lib doubleSHA256 hlib hjob hparsed,
      ← fullHeader_eq_rebuiltHeader doubleSHA256]
    exact ⟨fun heq => (Option.some.inj heq).symm, fun heq => congrArg some heq.symm⟩
  · intro hroot other hne hsame hother
    exact root_collision doubleSHA256 hne (hother.symm.trans (hsame.trans hroot))

end

/-- A solution for a job's task, with the root of its extraNonce2. -/
def rootedSolution (task : DispatcherMiningTask) : DispatcherMiningSolution where
  jobId := 1
  nTime := ⟨[0x7c, 0xa4, 0x8d, 0x69], rfl⟩
  nonce := ⟨[9, 8, 7, 6], rfl⟩
  merkleRoot := rootOfExtraNonce2 (ByteArr.copy 32) task ⟨[0, 0, 0, 5, 1, 2, 3, 4], rfl⟩
  extraNonce2 := ⟨[0, 0, 0, 5, 1, 2, 3, 4], rfl⟩
  sourcePublicKey := ByteArr.fill 32 7

/-- A solution for the task of a template is credited, and the pool hashes its header. -/
theorem accepted_spec_sample :
    ∃ params p st' accepted submission,
      sampleTemplate.handleParameters firstLeafMerkle (ByteArr.copy 32) true = some params ∧
      parseTask (.array params) [0xde, 0xad] poolBaseDifficulty = .ok (some p) ∧
      validateShare (fun _ => ByteArr.fill 32 0) "w".toList
        (ConcurrentHashMap.empty.insert 1 p.dispatcherTask) true 100 .initial
        (rootedSolution p.dispatcherTask) = (st', some accepted) ∧
      st'.stats.computorShares (creditedComputor (rootedSolution p.dispatcherTask)) = 1 ∧
      Submission.ofMessage (toHex [0xde, 0xad]) (submitMessage "w".toList
        ShareState.initial.nextStratumSendId accepted.task (rootedSolution p.dispatcherTask))
          = .ok submission ∧
      headerBuffer firstLeafMerkle (ByteArr.copy 32) sampleTemplate submission
        = some (fullHeader accepted.task (rootedSolution p.dispatcherTask)) := by
  obtain ⟨p, hparse, hparsed⟩ := parseTask_parameters firstLeafMerkle (ByteArr.copy 32)
    sampleTemplate_wellFormed rfl [0xde, 0xad] poolBaseDifficulty
  have hactive : (ConcurrentHashMap.empty.insert 1 p.dispatcherTask).get
      (rootedSolution p.dispatcherTask).jobId = some p.dispatcherTask :=
    ConcurrentHashMap.get_insert_self ..
  have hmeets : meetsTarget (fun _ => ByteArr.fill 32 0) p.dispatcherTask
      (rootedSolution p.dispatcherTask) = true :=
    (verifyHashVsTarget_iff _ _).mpr (Nat.zero_le _)
  cases hv : validateShare (fun _ => ByteArr.fill 32 0) "w".toList
      (ConcurrentHashMap.empty.insert 1 p.dispatcherTask) true 100 .initial
      (rootedSolution p.dispatcherTask) with
  | mk st' outcome =>
      -- nothing refuses the solution
      obtain ⟨hseen, -⟩ | ⟨-, hnone, -⟩ | ⟨-, task, htask, hmisses, -⟩ | ⟨-, task, htask, -, -, rfl⟩ :=
        validateShare_cases _ _ hv
      · exact absurd hseen List.not_mem_nil
      · rw [hactive] at hnone
        cases hnone
      · rw [hactive] at htask
        cases htask
        rw [hmeets] at hmisses
        cases hmisses
      · rw [hactive] at htask
        cases htask
        obtain ⟨-, -, hshares, hmessage, -⟩ := accepted_spec (ByteArr.copy 32) _ _ hv
        obtain ⟨heq, hpool⟩ := hmessage _ rfl
        obtain ⟨submission, hsubmission, hheader⟩ := hpool firstLeafMerkle sampleTemplate [0xde, 0xad]
          poolBaseDifficulty firstLeafMerkle_correct sampleTemplate_wellFormed hparsed
        rw [heq] at hsubmission
        exact ⟨_, p, st', _, submission, rfl, hparse, hv,
          ((congrFun hshares _).trans (Function.update_self ..)).trans rfl,
          hsubmission, hheader.mpr rfl⟩

/-- Computor 1's extraNonce2 under the root, nonce and time of computor 0's. -/
def borrowedSolution : DispatcherMiningSolution :=
  { zeroSolution 1 with extraNonce2 := ⟨[0, 0, 0, 1, 0, 0, 0, 0], rfl⟩ }

/-- One proof of work is credited to two computors and submitted for both, and
the root the second brings is not that of its extraNonce2. -/
theorem sameWork_twoComputors :
    fullHeader (easyTask "a".toList) borrowedSolution
        = fullHeader (easyTask "a".toList) (zeroSolution 1) ∧
    borrowedSolution.merkleRoot
      ≠ rootOfExtraNonce2 (ByteArr.copy 32) (easyTask "a".toList) borrowedSolution.extraNonce2 ∧
    ∃ s, Run.exec (shareStep (fun _ => ByteArr.fill 32 0) "worker".toList) .initial
        [.insert 1 (easyTask "a".toList), .pop (zeroSolution 1) true 100,
          .pop borrowedSolution true 101] = some s ∧
      s.share.stats.solutionsAccepted = 2 ∧ s.sent.length = 2 ∧
      s.share.stats.computorShares ⟨0, by decide⟩ = 1 ∧
      s.share.stats.computorShares ⟨1, by decide⟩ = 1 := by
  refine ⟨rfl, by decide, _, rfl, rfl, rfl, ?_, ?_⟩
  · rfl
  · rfl

end DogeConnect
