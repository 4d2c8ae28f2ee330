/-
What the key of a share leaves out.

A solution is skipped when its job id, nonce and extraNonce2 are those of a
share credited since `recentSubmits` was last emptied.  The header that is
hashed has two more fields of the solution's, the merkle root and the
timestamp, and a miner that rolls the timestamp sends several shares under one
key; the rest comes from the task, and another task can have been stored under
the job id since the credit.  The key set is the list of the latest credits'
keys (`WindowInv`), so what is skipped can be compared with the credit that
entered its key: the headers agree just when none of these fields was changed.
-/
import DogeConnect.ShareDedup

namespace DogeConnect

/-! ## Headers -/

theorem fullHeader_inj {task task' : DispatcherMiningTask} {a b : DispatcherMiningSolution} :
    fullHeader task a = fullHeader task' b ↔
      (a.nTime = b.nTime ∧ a.merkleRoot = b.merkleRoot ∧ a.nonce = b.nonce) ∧
        task.partialHeader = task'.partialHeader ∧ task.nBits = task'.nBits := by
  constructor
  · intro h
    simp only [fullHeader, List.append_assoc] at h
    obtain ⟨hfront, h⟩ := List.append_inj h (by simp)
    obtain ⟨hroot, h⟩ := List.append_inj h (by simp)
    obtain ⟨htime, h⟩ := List.append_inj h (by simp)
    obtain ⟨hbits, hnonce⟩ := List.append_inj h (by simp)
    exact ⟨⟨ByteArr.ext htime, ByteArr.ext hroot, ByteArr.ext hnonce⟩, ByteArr.ext hfront,
      ByteArr.ext hbits⟩
  · rintro ⟨⟨htime, hroot, hnonce⟩, hfront, hbits⟩
    simp only [fullHeader, htime, hroot, hnonce, hfront, hbits]

/-! ## The set is the latest credits -/

/-- The credits since `recentSubmits` was last emptied. -/
def ShareSystem.window (s : ShareSystem) : List Credit :=
  s.history.take s.share.recentSubmits.length

def WindowInv (s : ShareSystem) : Prop :=
  s.share.recentSubmits = s.window.map fun c => dedupeKey c.sol

theorem windowInv_initial : WindowInv .initial := rfl

theorem WindowInv.fresh {s : ShareSystem} (h : WindowInv s) (sol : DispatcherMiningSolution)
    {share : ShareState} {live : List LiveCredit}
    (hrecent : share.recentSubmits = (admitted s.share sol).recentSubmits) :
    WindowInv { s with share, live } := by
  rw [admitted_recentSubmits] at hrecent
  unfold WindowInv ShareSystem.window
  by_cases hjob : sol.jobId ≠ s.share.lastCleanJobId
  · rw [if_pos hjob] at hrecent
    simp only [hrecent]
    rfl
  · rw [if_neg hjob] at hrecent
    simp only [hrecent]
    exact h

theorem WindowInv.credit {s : ShareSystem} (h : WindowInv s) (credit : Credit)
    {share : ShareState} {live : List LiveCredit} {sent : List Json}
    (hrecent : share.recentSubmits = dedupeKey credit.sol :: s.share.recentSubmits) :
    WindowInv { s with share, sent, history := credit :: s.history, live } := by
  unfold WindowInv ShareSystem.window
  simp only [hrecent, List.length_cons, List.take_succ_cons, List.map_cons]
  exact congrArg _ h

section
variable (scrypt : List UInt8 → ByteArr 32) (workerName : Str)

theorem windowInv_step (s : ShareSystem) (e : ShareEvent) (s' : ShareSystem) (h : WindowInv s)
    (hs : shareStep scrypt workerName s e = some s') : WindowInv s' := by
  cases e with
  | insert jobId task => cases hs; exact h
  | clear => cases hs; exact h
  | pop sol connected now =>
      cases hs
      rcases s.validate_cases scrypt workerName sol connected now with ⟨-, hs⟩ |
        ⟨-, -, share, hs, -, -, hrecent, -⟩ |
        ⟨-, task, share, message, -, hs, -, -, hrecent, -⟩
      · rw [hs]; exact h
      · rw [hs]; exact h.fresh sol hrecent
      · rw [hs]
        have hadmitted : WindowInv { s with share := admitted s.share sol } := h.fresh sol rfl
        exact hadmitted.credit ⟨sol, task, message⟩ hrecent

variable {scrypt workerName}

theorem WindowInv.mem_recentSubmits {s : ShareSystem} (h : WindowInv s)
    (sol : DispatcherMiningSolution) :
    dedupeKey sol ∈ s.share.recentSubmits ↔ ∃ c ∈ s.window, shareId c.sol = shareId sol := by
  rw [h, List.mem_map]
  constructor
  · rintro ⟨c, hc, hkey⟩
    exact ⟨c, hc, dedupeKey_inj.mp hkey⟩
  · rintro ⟨c, hc, hid⟩
    exact ⟨c, hc, dedupeKey_inj.mpr hid⟩

/-! ## Which solutions are skipped -/

/-- The header of a solution with the id of the credit `c`: that of the task
active under its job id, or of the task of the credit once none is. -/
def ShareSystem.header (s : ShareSystem) (c : Credit) (sol : DispatcherMiningSolution) :
    List UInt8 :=
  fullHeader ((s.activeTasks.get sol.jobId).getD c.task) sol

/-- A solution that is skipped has the header that was hashed for a credited
share of its job. -/
def SkipsDuplicate (s : ShareSystem) : ShareEvent → Prop
  | .pop sol _ _ => dedupeKey sol ∈ s.share.recentSubmits →
      ∃ c ∈ s.history, c.sol.jobId = sol.jobId ∧ s.header c sol = fullHeader c.task c.sol
  | _ => True

/-- A solution with the job id, nonce and extraNonce2 of the credit `c` has its
timestamp and merkle root, and the task that is active under the job id, if any
is, has the version, previous hash and `nBits` of the task of the credit. -/
def Unchanged (s : ShareSystem) (c : Credit) (sol : DispatcherMiningSolution) : Prop :=
  (c.sol.nTime = sol.nTime ∧ c.sol.merkleRoot = sol.merkleRoot) ∧
    ∀ task, s.activeTasks.get sol.jobId = some task →
      task.partialHeader = c.task.partialHeader ∧ task.nBits = c.task.nBits

/-- No solution comes in with the id of a share credited since the set was
emptied and with another field of the header. -/
def NotRolled (s : ShareSystem) : ShareEvent → Prop
  | .pop sol _ _ => ∀ c ∈ s.window, shareId c.sol = shareId sol → Unchanged s c sol
  | _ => True

theorem header_eq_iff_unchanged {s : ShareSystem} {c : Credit} {sol : DispatcherMiningSolution}
    (hid : shareId c.sol = shareId sol) :
    s.header c sol = fullHeader c.task c.sol ↔ Unchanged s c sol := by
  simp only [shareId, Prod.mk.injEq] at hid
  obtain ⟨-, hnonce, -⟩ := hid
  rw [ShareSystem.header, fullHeader_inj, Unchanged]
  cases s.activeTasks.get sol.jobId with
  | none => simp [hnonce, eq_comm]
  | some task => simp [hnonce, eq_comm]

theorem skipsDuplicate_of_notRolled (s : ShareSystem) (e : ShareEvent) (h : WindowInv s)
    (hrolled : NotRolled s e) : SkipsDuplicate s e := by
  cases e with
  | insert jobId task => trivial
  | clear => trivial
  | pop sol connected now =>
      intro hskipped
      obtain ⟨c, hc, hid⟩ := (h.mem_recentSubmits sol).mp hskipped
      exact ⟨c, List.mem_of_mem_take hc, congrArg Prod.fst hid,
        (header_eq_iff_unchanged hid).mpr (hrolled c hc hid)⟩

/-- Otherwise a solution is skipped for a share with another header. -/
def SkipsRolled (s : ShareSystem) : Prop := ∀ sol, ∀ c ∈ s.window, shareId c.sol = shareId sol →
  ¬ Unchanged s c sol →
    dedupeKey sol ∈ s.share.recentSubmits ∧ s.header c sol ≠ fullHeader c.task c.sol

theorem skipsRolled_of_windowInv {s : ShareSystem} (h : WindowInv s) : SkipsRolled s := by
  intro sol c hc hid hrolled
  refine ⟨(h.mem_recentSubmits sol).mpr ⟨c, hc, hid⟩, ?_⟩
  exact fun hsame => hrolled ((header_eq_iff_unchanged hid).mp hsame)

/-- **What deduplication suppresses.**  In a run in which no share comes back
under its key with another field of the header, whatever is skipped has the
header that was hashed for a credited share of its job; and in every run, a
solution that does come back so is skipped for a share with another header. -/
theorem skipsDuplicate_along (scrypt : List UInt8 → ByteArr 32) (workerName : Str)
    (run : List ShareEvent) :
    (Run.Along (shareStep scrypt workerName) NotRolled .initial run →
      Run.Along (shareStep scrypt workerName) SkipsDuplicate .initial run) ∧
    Run.Always (shareStep scrypt workerName) SkipsRolled .initial run := by
  constructor
  · exact Run.along_of_along (windowInv_step scrypt workerName) skipsDuplicate_of_notRolled
      windowInv_initial
  · have hinv : Run.Always (shareStep scrypt workerName) WindowInv .initial run :=
      Run.always_of_step (windowInv_step scrypt workerName) windowInv_initial
    exact hinv.mono fun _ h => skipsRolled_of_windowInv h

end

/-! ## A rolled timestamp -/

/-- The same share, a second later. -/
def rolledSolution (jobId : UInt64) : DispatcherMiningSolution :=
  { zeroSolution jobId with nTime := ByteArr.fill 4 1 }

/-- One task, one share, which then comes in again, at last when its job has
been cleared. -/
def repeatedRun : List ShareEvent :=
  [.insert 1 (easyTask "a".toList), .pop (zeroSolution 1) true 100, .pop (zeroSolution 1) true 101,
    .clear, .pop (zeroSolution 1) true 102]

theorem skipsDuplicate_along_repeated :
    Run.Along (shareStep (fun _ => ByteArr.fill 32 0) "worker".toList) SkipsDuplicate .initial
      repeatedRun := by
  refine (skipsDuplicate_along _ _ repeatedRun).1 ?_
  refine Run.Along.cons rfl trivial (Run.Along.cons rfl ?_ (Run.Along.cons rfl ?_
    (Run.Along.cons rfl trivial (Run.Along.cons rfl ?_ trivial))))
  · exact fun c hc => absurd hc List.not_mem_nil
  · intro c hc _
    rcases List.mem_singleton.mp hc with rfl
    refine ⟨⟨rfl, rfl⟩, fun task htask => ?_⟩
    cases htask
    exact ⟨rfl, rfl⟩
  · intro c hc _
    rcases List.mem_singleton.mp hc with rfl
    exact ⟨⟨rfl, rfl⟩, fun task htask => nomatch htask⟩

/-- The same with the timestamp rolled in between. -/
def rolledRun : List ShareEvent :=
  [.insert 1 (easyTask "a".toList), .pop (zeroSolution 1) true 100, .pop (rolledSolution 1) true 101]

/-- A task on another block. -/
def nextTask : DispatcherMiningTask :=
  { easyTask "b".toList with partialHeader := ByteArr.fill 36 1 }

/-- The job id is stored again, with that task, before the share comes back. -/
def restoredRun : List ShareEvent :=
  [.insert 1 (easyTask "a".toList), .pop (zeroSolution 1) true 100, .insert 1 nextTask,
    .pop (zeroSolution 1) true 101]

/-- In both runs the second share meets the target too and has another header,
and is skipped all the same. -/
theorem rolledRun_skipped :
    (¬ Run.Along (shareStep (fun _ => ByteArr.fill 32 0) "worker".toList) SkipsDuplicate .initial
        rolledRun ∧
      meetsTarget (fun _ => ByteArr.fill 32 0) (easyTask "a".toList) (rolledSolution 1) = true ∧
      ∃ s, Run.exec (shareStep (fun _ => ByteArr.fill 32 0) "worker".toList) .initial rolledRun
          = some s ∧
        s.history.map Credit.sol = [zeroSolution 1] ∧ s.share.stats.solutionsReceived = 1) ∧
    ¬ Run.Along (shareStep (fun _ => ByteArr.fill 32 0) "worker".toList) SkipsDuplicate .initial
        restoredRun ∧
      meetsTarget (fun _ => ByteArr.fill 32 0) nextTask (zeroSolution 1) = true ∧
      ∃ s, Run.exec (shareStep (fun _ => ByteArr.fill 32 0) "worker".toList) .initial restoredRun
          = some s ∧
        s.history.map Credit.task = [easyTask "a".toList] ∧
        s.share.stats.solutionsReceived = 1 := by
  refine ⟨⟨?_, rfl, _, rfl, rfl, rfl⟩, ?_, rfl, _, rfl, rfl, rfl⟩
  · intro h
    obtain ⟨-, h⟩ := h _ rfl
    obtain ⟨-, h⟩ := h _ rfl
    obtain ⟨hskips, -⟩ := h _ rfl
    obtain ⟨c, hc, -, hheader⟩ := hskips (by decide)
    rcases List.mem_singleton.mp hc with rfl
    exact absurd (fullHeader_inj.mp hheader).1.1 (by decide)
  · intro h
    obtain ⟨-, h⟩ := h _ rfl
    obtain ⟨-, h⟩ := h _ rfl
    obtain ⟨-, h⟩ := h _ rfl
    obtain ⟨hskips, -⟩ := h _ rfl
    obtain ⟨c, hc, -, hheader⟩ := hskips (by decide)
    rcases List.mem_singleton.mp hc with rfl
    exact absurd (fullHeader_inj.mp hheader).2.1 (by decide)

end DogeConnect
