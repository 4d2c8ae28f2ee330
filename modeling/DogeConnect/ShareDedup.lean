/-
Repeated solutions: how often one share is credited.

Solutions reach the queue several times, and solutions of several active jobs
come mixed.  The system here is the validation loop with the task distributor:
one pops solutions, the other inserts and clears tasks, in any order.  Since an
iteration looks at the map once, an iteration is one step.

Two ghost lists record the credits: `history` all of them, `live` those whose
task has stayed in `activeTasks` since, each with a mark whether a solution of
another job has been popped after it.  The counters agree with the history in
every run (`books_always`), so that crediting once is a property of `live`.

`recentSubmits` holds the credited keys of the job seen last and of no other,
because it is emptied whenever the job id *changes*, not when a clean job
arrives.  So a share of an active job is credited again when it comes back
after a solution of another job, and in no other case (`creditedOnce_iff`).
-/
import DogeConnect.ShareValid
import DogeConnect.Lib.Run

namespace DogeConnect

/-! ## The system -/

/-- A credited share, with the task it was judged by and the message sent for it. -/
structure Credit where
  sol : DispatcherMiningSolution
  task : DispatcherMiningTask
  message : Option Json

/-- A credited share whose task has not been removed since. -/
structure LiveCredit where
  sol : DispatcherMiningSolution
  /-- A solution of another job has been popped since. -/
  switched : Bool
  deriving DecidableEq

structure ShareSystem where
  activeTasks : ConcurrentHashMap UInt64 DispatcherMiningTask
  share : ShareState
  /-- The messages sent to the pool. -/
  sent : List Json
  /-- Every credit, the last first. -/
  history : List Credit
  live : List LiveCredit

/-- Nothing distributed, nothing received. -/
def ShareSystem.initial : ShareSystem := ⟨.empty, .initial, [], [], []⟩

inductive ShareEvent
  /-- The distributor stores a task. -/
  | insert (jobId : UInt64) (task : DispatcherMiningTask)
  /-- The distributor starts a clean job. -/
  | clear
  /-- The loop takes a solution from the queue. -/
  | pop (sol : DispatcherMiningSolution) (connected : Bool) (now : Int)

/-- Mark the credits of other jobs. -/
def switchTo (jobId : UInt64) (live : List LiveCredit) : List LiveCredit :=
  live.map fun c => if c.sol.jobId ≠ jobId then { c with switched := true } else c

section
variable (scrypt : List UInt8 → ByteArr 32) (workerName : Str)

/-- The effect of one iteration on the system. -/
def ShareSystem.validate (s : ShareSystem) (sol : DispatcherMiningSolution) (connected : Bool)
    (now : Int) : ShareSystem :=
  match validateShare scrypt workerName s.activeTasks connected now s.share sol with
  | (share, none) => { s with share, live := switchTo sol.jobId s.live }
  | (share, some accepted) =>
    { s with
      share
      sent := s.sent ++ accepted.message.toList
      history := ⟨sol, accepted.task, accepted.message⟩ :: s.history
      live := ⟨sol, false⟩ :: switchTo sol.jobId s.live }

/-- Every event is possible in every state. -/
def shareStep (s : ShareSystem) : ShareEvent → Option ShareSystem
  | .insert jobId task => some { s with
      activeTasks := s.activeTasks.insert jobId task
      live := s.live.filter fun c => c.sol.jobId ≠ jobId }
  | .clear => some { s with activeTasks := s.activeTasks.clear, live := [] }
  | .pop sol connected now => some (s.validate scrypt workerName sol connected now)

/-- Everything an iteration can do to the system: drop a repetition, judge a
solution without crediting it, or credit it. -/
theorem ShareSystem.validate_cases (s : ShareSystem) (sol : DispatcherMiningSolution)
    (connected : Bool) (now : Int) :
    (dedupeKey sol ∈ s.share.recentSubmits ∧
      s.validate scrypt workerName sol connected now
        = { s with live := switchTo sol.jobId s.live }) ∨
    (dedupeKey sol ∉ s.share.recentSubmits ∧
      (∀ task, s.activeTasks.get sol.jobId = some task → meetsTarget scrypt task sol = false) ∧
      ∃ share, s.validate scrypt workerName sol connected now
          = { s with share, live := switchTo sol.jobId s.live } ∧
        share.stats.solutionsAccepted = s.share.stats.solutionsAccepted ∧
        share.stats.computorShares = s.share.stats.computorShares ∧
        share.recentSubmits = (admitted s.share sol).recentSubmits ∧
        share.lastCleanJobId = sol.jobId) ∨
    (dedupeKey sol ∉ s.share.recentSubmits ∧
      ∃ task share message,
        (s.activeTasks.get sol.jobId = some task ∧ meetsTarget scrypt task sol = true) ∧
        s.validate scrypt workerName sol connected now
          = { s with
              share
              sent := s.sent ++ message.toList
              history := ⟨sol, task, message⟩ :: s.history
              live := ⟨sol, false⟩ :: switchTo sol.jobId s.live } ∧
        share.stats.solutionsAccepted = s.share.stats.solutionsAccepted + 1 ∧
        share.stats.computorShares = Function.update s.share.stats.computorShares
          (creditedComputor sol) (s.share.stats.computorShares (creditedComputor sol) + 1) ∧
        share.recentSubmits = dedupeKey sol :: (admitted s.share sol).recentSubmits ∧
        share.lastCleanJobId = sol.jobId) := by
  cases hv : validateShare scrypt workerName s.activeTasks connected now s.share sol with
  | mk share accepted =>
      have hvalidate : s.validate scrypt workerName sol connected now = match (share, accepted) with
          | (share, none) => { s with share, live := switchTo sol.jobId s.live }
          | (share, some accepted) =>
            { s with
              share
              sent := s.sent ++ accepted.message.toList
              history := ⟨sol, accepted.task, accepted.message⟩ :: s.history
              live := ⟨sol, false⟩ :: switchTo sol.jobId s.live } := by
        rw [ShareSystem.validate, hv]
      rcases validateShare_cases scrypt workerName hv with ⟨hkey, rfl, rfl⟩ |
        ⟨hkey, htask, rfl, rfl⟩ | ⟨hkey, task, htask, hmeets, rfl, rfl⟩ |
        ⟨hkey, task, htask, hmeets, rfl, rfl⟩
      · exact .inl ⟨hkey, hvalidate⟩
      · refine .inr (.inl ⟨hkey, ?_, _, hvalidate, ?_⟩)
        · intro task h
          rw [htask] at h
          cases h
        · exact ⟨admitted_solutionsAccepted _ _, admitted_computorShares _ _, rfl,
            admitted_lastCleanJobId _ _⟩
      · refine .inr (.inl ⟨hkey, ?_, _, hvalidate, ?_⟩)
        · intro task' h
          rw [htask] at h
          cases h
          exact hmeets
        · exact ⟨admitted_solutionsAccepted _ _, admitted_computorShares _ _, rfl,
            admitted_lastCleanJobId _ _⟩
      · refine .inr (.inr ⟨hkey, task, _, _, ⟨htask, hmeets⟩, hvalidate, ?_⟩)
        simp only [submit_stats, submit_recentSubmits, submit_lastCleanJobId,
          credit_solutionsAccepted, credit_computorShares, admitted_solutionsAccepted,
          admitted_computorShares]
        exact ⟨trivial, trivial, rfl, admitted_lastCleanJobId _ _⟩

/-! ## The counters -/

/-- The counters and the messages are those of the history. -/
structure Books (s : ShareSystem) : Prop where
  accepted : s.share.stats.solutionsAccepted = s.history.length
  shares : ∀ i, s.share.stats.computorShares i
    = s.history.countP fun c => creditedComputor c.sol = i
  submitted : s.sent = s.history.reverse.filterMap Credit.message

theorem books_step (s : ShareSystem) (e : ShareEvent) (s' : ShareSystem) (h : Books s)
    (hs : shareStep scrypt workerName s e = some s') : Books s' := by
  cases e with
  | insert jobId task => cases hs; exact ⟨h.accepted, h.shares, h.submitted⟩
  | clear => cases hs; exact ⟨h.accepted, h.shares, h.submitted⟩
  | pop sol connected now =>
      cases hs
      rcases s.validate_cases scrypt workerName sol connected now with ⟨-, hs⟩ |
        ⟨-, -, share, hs, haccepted, hshares, -⟩ |
        ⟨-, task, share, message, -, hs, haccepted, hshares, -⟩
      · rw [hs]
        exact ⟨h.accepted, h.shares, h.submitted⟩
      · rw [hs]
        exact ⟨haccepted.trans h.accepted, fun i => hshares ▸ h.shares i, h.submitted⟩
      · rw [hs]
        refine ⟨?_, ?_, ?_⟩
        · rw [haccepted, h.accepted]
          rfl
        · intro i
          rw [hshares, List.countP_cons, ← h.shares i]
          by_cases hi : creditedComputor sol = i
          · subst hi
            simp
          · rw [Function.update_of_ne (Ne.symm hi)]
            simp [hi]
        · simp only [List.reverse_cons, List.filterMap_append, ← h.submitted]
          cases message <;> rfl

theorem books_initial : Books .initial := ⟨rfl, fun _ => rfl, rfl⟩

/-! ## Crediting once -/

/-- No share is credited twice while its task stays. -/
def CreditedOnce (s : ShareSystem) : Prop := (s.live.map fun c => shareId c.sol).Nodup

/-- The step does not pop a share that is credited already for its still active
task, after a solution of another job, and passes the target. -/
def NotRecredited (s : ShareSystem) : ShareEvent → Prop
  | .pop sol _ _ => ¬ ((∃ c ∈ s.live, c.switched = true ∧ shareId c.sol = shareId sol) ∧
      ∃ task, s.activeTasks.get sol.jobId = some task ∧ meetsTarget scrypt task sol = true)
  | _ => True

/-- What the set holds. -/
structure ShareInv (s : ShareSystem) : Prop where
  /-- Keys of the job seen last. -/
  recent : ∀ sol, dedupeKey sol ∈ s.share.recentSubmits → sol.jobId = s.share.lastCleanJobId
  /-- The live credits after which no other job was seen. -/
  covered : ∀ c ∈ s.live, c.switched = false →
    c.sol.jobId = s.share.lastCleanJobId ∧ dedupeKey c.sol ∈ s.share.recentSubmits
  /-- None of the others. -/
  forgotten : ∀ c ∈ s.live, c.switched = true → dedupeKey c.sol ∉ s.share.recentSubmits

theorem mem_switchTo {jobId : UInt64} {live : List LiveCredit} {c : LiveCredit}
    (h : c ∈ switchTo jobId live) :
    ∃ c₀ ∈ live, c₀.sol = c.sol ∧
      (c.switched = false → c₀.switched = false ∧ c.sol.jobId = jobId) ∧
      (c.switched = true → c₀.switched = true ∨ c.sol.jobId ≠ jobId) := by
  obtain ⟨c₀, hc₀, rfl⟩ := List.mem_map.mp h
  refine ⟨c₀, hc₀, ?_⟩
  split
  next hne => exact ⟨rfl, fun h => (nomatch h), fun _ => .inr hne⟩
  next heq => exact ⟨rfl, fun h => ⟨h, not_not.mp heq⟩, fun h => .inl h⟩

theorem switchTo_ids (jobId : UInt64) (live : List LiveCredit) :
    (switchTo jobId live).map (fun c => shareId c.sol) = live.map fun c => shareId c.sol := by
  rw [switchTo, List.map_map]
  refine List.map_congr_left fun c _ => ?_
  simp only [Function.comp]
  split <;> rfl

/-- Admitting a solution keeps the invariant: the set is emptied just when the
credits it covers are marked. -/
theorem ShareInv.fresh {s : ShareSystem} (h : ShareInv s) (sol : DispatcherMiningSolution)
    {share : ShareState} (hrecent : share.recentSubmits = (admitted s.share sol).recentSubmits)
    (hlast : share.lastCleanJobId = sol.jobId) :
    ShareInv { s with share, live := switchTo sol.jobId s.live } := by
  rw [admitted_recentSubmits] at hrecent
  by_cases hjob : sol.jobId = s.share.lastCleanJobId
  · rw [if_neg (not_not.mpr hjob)] at hrecent
    refine ⟨?_, ?_, ?_⟩
    · intro sol' hsol'
      rw [hrecent] at hsol'
      rw [hlast, hjob]
      exact h.recent sol' hsol'
    · intro c hc hfresh
      obtain ⟨c₀, hc₀, hsol, hmark, -⟩ := mem_switchTo hc
      obtain ⟨hfresh₀, hid⟩ := hmark hfresh
      exact ⟨hid.trans hlast.symm, hrecent ▸ hsol ▸ (h.covered c₀ hc₀ hfresh₀).2⟩
    · intro c hc hswitched
      obtain ⟨c₀, hc₀, hsol, -, hmark⟩ := mem_switchTo hc
      rw [hrecent, ← hsol]
      cases hm : c₀.switched with
      | true => exact h.forgotten c₀ hc₀ hm
      | false =>
          rcases hmark hswitched with hm' | hne
          · rw [hm] at hm'
            cases hm'
          · exact absurd (hsol ▸ (h.covered c₀ hc₀ hm).1.trans hjob.symm) hne
  · rw [if_pos hjob] at hrecent
    refine ⟨?_, ?_, ?_⟩
    · intro sol' hsol'
      rw [hrecent] at hsol'
      exact absurd hsol' List.not_mem_nil
    · intro c hc hfresh
      obtain ⟨c₀, hc₀, hsol, hmark, -⟩ := mem_switchTo hc
      obtain ⟨hfresh₀, hid⟩ := hmark hfresh
      exact absurd (hid.symm.trans (hsol ▸ (h.covered c₀ hc₀ hfresh₀).1)) hjob
    · intro c _ _
      rw [hrecent]
      exact List.not_mem_nil

/-- A repetition is of the job seen last, for which nothing changes. -/
theorem ShareInv.repeated {s : ShareSystem} (h : ShareInv s) {sol : DispatcherMiningSolution}
    (hkey : dedupeKey sol ∈ s.share.recentSubmits) :
    ShareInv { s with live := switchTo sol.jobId s.live } := by
  have hjob := h.recent sol hkey
  refine h.fresh sol ?_ hjob.symm
  rw [admitted_recentSubmits, if_neg (not_not.mpr hjob)]

/-- A share that is credited enters the set, and is not among the live ones. -/
theorem ShareInv.credited {s : ShareSystem} (h : ShareInv s) {sol : DispatcherMiningSolution}
    {task : DispatcherMiningTask} {share : ShareState} {message : Option Json}
    (hrecent : share.recentSubmits = dedupeKey sol :: (admitted s.share sol).recentSubmits)
    (hlast : share.lastCleanJobId = sol.jobId)
    (hnew : shareId sol ∉ s.live.map fun c => shareId c.sol) :
    ShareInv { s with
      share
      sent := s.sent ++ message.toList
      history := ⟨sol, task, message⟩ :: s.history
      live := ⟨sol, false⟩ :: switchTo sol.jobId s.live } := by
  have hadmit : ShareInv { s with
      share := { share with recentSubmits := (admitted s.share sol).recentSubmits }
      live := switchTo sol.jobId s.live } := h.fresh sol rfl hlast
  refine ⟨?_, ?_, ?_⟩
  · intro sol' hsol'
    dsimp only at hsol'
    rw [hrecent] at hsol'
    rcases List.mem_cons.mp hsol' with heq | hmem
    · have hid := dedupeKey_inj.mp heq
      simp only [shareId, Prod.mk.injEq] at hid
      exact hid.1.trans hlast.symm
    · exact hadmit.recent sol' hmem
  · intro c hc hfresh
    dsimp only
    rw [hrecent]
    rcases List.mem_cons.mp hc with rfl | hc
    · exact ⟨hlast.symm, List.mem_cons_self⟩
    · obtain ⟨hid, hmem⟩ := hadmit.covered c hc hfresh
      exact ⟨hid, List.mem_cons_of_mem _ hmem⟩
  · intro c hc hswitched
    dsimp only
    rw [hrecent]
    rcases List.mem_cons.mp hc with rfl | hc
    · cases hswitched
    · intro hmem
      rcases List.mem_cons.mp hmem with heq | hmem
      · rw [← switchTo_ids sol.jobId s.live] at hnew
        exact hnew (List.mem_map.mpr ⟨c, hc, dedupeKey_inj.mp heq⟩)
      · exact hadmit.forgotten c hc hswitched hmem

/-- One step: when the property survives, and that the invariant does with it. -/
theorem creditedOnce_step (s : ShareSystem) (e : ShareEvent) (s' : ShareSystem) (h : ShareInv s)
    (hq : CreditedOnce s) (hs : shareStep scrypt workerName s e = some s') :
    (CreditedOnce s' ↔ NotRecredited scrypt s e) ∧ (CreditedOnce s' → ShareInv s') := by
  cases e with
  | insert jobId task =>
      cases hs
      refine ⟨⟨fun _ => trivial, fun _ => hq.sublist (List.filter_sublist.map _)⟩, fun _ => ?_⟩
      exact ⟨h.recent, fun c hc => h.covered c (List.mem_of_mem_filter hc),
        fun c hc => h.forgotten c (List.mem_of_mem_filter hc)⟩
  | clear =>
      cases hs
      exact ⟨⟨fun _ => trivial, fun _ => List.nodup_nil⟩, fun _ =>
        ⟨h.recent, fun c hc => absurd hc List.not_mem_nil, fun c hc => absurd hc List.not_mem_nil⟩⟩
  | pop sol connected now =>
      cases hs
      have hids : CreditedOnce { s with live := switchTo sol.jobId s.live } := by
        rw [CreditedOnce, switchTo_ids]
        exact hq
      rcases s.validate_cases scrypt workerName sol connected now with ⟨hkey, hs⟩ |
        ⟨-, hfails, share, hs, -, -, hrecent, hlast⟩ |
        ⟨hkey, task, share, message, hpasses, hs, -, -, hrecent, hlast⟩
      · rw [hs]
        refine ⟨⟨fun _ => ?_, fun _ => hids⟩, fun _ => h.repeated hkey⟩
        rintro ⟨⟨c, hc, hswitched, hid⟩, -⟩
        exact h.forgotten c hc hswitched (dedupeKey_inj.mpr hid ▸ hkey)
      · rw [hs]
        refine ⟨⟨fun _ => ?_, fun _ => hids⟩, fun _ => h.fresh sol hrecent hlast⟩
        rintro ⟨-, task, htask, hmeets⟩
        rw [hfails task htask] at hmeets
        cases hmeets
      · rw [hs]
        have hcons : CreditedOnce { s with
              share
              sent := s.sent ++ message.toList
              history := ⟨sol, task, message⟩ :: s.history
              live := ⟨sol, false⟩ :: switchTo sol.jobId s.live } ↔
            shareId sol ∉ s.live.map (fun c => shareId c.sol) := by
          rw [CreditedOnce, List.map_cons, List.nodup_cons, switchTo_ids]
          exact ⟨fun h => h.1, fun h => ⟨h, hq⟩⟩
        refine ⟨?_, fun hq' => ?_⟩
        · rw [hcons]
          constructor
          · rintro hnew ⟨⟨c, hc, -, hid⟩, -⟩
            exact hnew (List.mem_map.mpr ⟨c, hc, hid⟩)
          · intro hok hmem
            obtain ⟨c, hc, hid⟩ := List.mem_map.mp hmem
            cases hm : c.switched with
            | true => exact hok ⟨⟨c, hc, hm, hid⟩, task, hpasses⟩
            | false => exact hkey (dedupeKey_inj.mpr hid ▸ (h.covered c hc hm).2)
        · exact h.credited hrecent hlast (hcons.mp hq')

theorem shareInv_initial : ShareInv .initial :=
  ⟨fun _ h => absurd h List.not_mem_nil, fun _ h => absurd h List.not_mem_nil,
    fun _ h => absurd h List.not_mem_nil⟩

/-- **Crediting once.**  In every run the counters and the submissions are
those of the credits; and no share is credited twice for one task if and only
if no credited share of an active task is popped again after a solution of
another job and passes the target. -/
theorem creditedOnce_iff (run : List ShareEvent) :
    Run.Always (shareStep scrypt workerName) Books .initial run ∧
    (Run.Always (shareStep scrypt workerName) CreditedOnce .initial run ↔
      Run.Along (shareStep scrypt workerName) (NotRecredited scrypt) .initial run) :=
  ⟨Run.always_of_step (books_step scrypt workerName) books_initial,
    Run.always_iff_along (creditedOnce_step scrypt workerName) shareInv_initial List.nodup_nil⟩

end

/-! ## Two jobs, three arrivals -/

/-- A task every hash passes. -/
def easyTask (taskId : Str) : DispatcherMiningTask where
  taskId := taskId
  targetPool := ByteArr.fill 32 0xff
  partialHeader := ByteArr.fill 36 0
  nBits := ByteArr.fill 4 0
  extraNonce1 := []
  coinbase1 := []
  coinbase2 := []
  merkleBranches := []

/-- A solution of a job; everything else is zero. -/
def zeroSolution (jobId : UInt64) : DispatcherMiningSolution where
  jobId := jobId
  nTime := ByteArr.fill 4 0
  nonce := ByteArr.fill 4 0
  merkleRoot := ByteArr.fill 32 0
  extraNonce2 := ByteArr.fill 8 0
  sourcePublicKey := ByteArr.fill 32 0

/-- Jobs 1 and 2 are active; the solution of job 1 comes before and after the
one of job 2. -/
def gossipRun : List ShareEvent :=
  [.insert 1 (easyTask "a".toList), .insert 2 (easyTask "b".toList),
    .pop (zeroSolution 1) true 100, .pop (zeroSolution 2) true 101, .pop (zeroSolution 1) true 102]

/-- The share of job 1 is credited and submitted twice while its task stays. -/
theorem gossipRun_creditedTwice :
    ¬ Run.Always (shareStep (fun _ => ByteArr.fill 32 0) "worker".toList) CreditedOnce .initial
        gossipRun ∧
    ∃ s, Run.exec (shareStep (fun _ => ByteArr.fill 32 0) "worker".toList) .initial gossipRun
        = some s ∧
      s.activeTasks.get 1 = some (easyTask "a".toList) ∧
      s.live.map LiveCredit.sol = [zeroSolution 1, zeroSolution 2, zeroSolution 1] ∧
      s.share.stats.solutionsAccepted = 3 ∧
      s.share.stats.computorShares (creditedComputor (zeroSolution 1)) = 3 ∧ s.sent.length = 3 := by
  constructor
  · intro h
    have hlast := h.exec rfl
    unfold CreditedOnce at hlast
    revert hlast
    decide
  · exact ⟨_, rfl, rfl, rfl, rfl, rfl, rfl⟩

end DogeConnect
