/-
Live jobs: is a solution for a job that is out ever taken for stale?

A job is live from its first successful send until a clean job clears it.
`distributeTask` stores it only after it has tried every peer, so between the
first send and the store it is live and not in `activeTasks`: a miner that
answers in that window is told that its work is stale.  Nothing else makes a
live job fail the lookup.

    liveInv_always     in every run the live jobs are the active ones, and
                       the one in flight
    staleCount_always  the counter counts the solutions recorded as stale
    noLiveStale_iff    no live job's solution is counted stale, just when no
                       solution of the job in flight is looked up
-/
import DogeConnect.Dispatcher
import DogeConnect.ShareDedup
import DogeConnect.TaskPacket

namespace DogeConnect

/-- Whether the job at hand has reached a peer. -/
def DistPhase.reached : DistPhase → Bool
  | .sending _ _ _ reached => reached
  | _ => false

namespace Dispatcher

/-- The job has reached a peer and is not stored yet. -/
def InFlight (s : Dispatcher) (jobId : UInt64) : Prop :=
  ∃ task i, s.dist = .sending jobId task i true

structure LiveInv (s : Dispatcher) : Prop where
  active : ∀ jobId ∈ s.live, s.activeTasks.get jobId ≠ none ∨ s.InFlight jobId
  inFlight : ∀ jobId, s.InFlight jobId → jobId ∈ s.live

/-- No solution of a live job was counted as stale. -/
def NoLiveStale (s : Dispatcher) : Prop := ∀ entry ∈ s.stale, entry.2 = false

/-- The step looks up no solution of the job in flight, unless an active task
has the same id. -/
def NotInFlight (s : Dispatcher) : Event → Prop
  | .valid (.judge _) => ∀ sol, s.valid = .popped sol → s.InFlight sol.jobId →
      s.activeTasks.get sol.jobId ≠ none
  | _ => True

/-! ## The live jobs -/

theorem LiveInv.of_eq {s s' : Dispatcher} (h : LiveInv s) (hdist : s'.dist = s.dist)
    (hactive : s'.activeTasks = s.activeTasks) (hlive : s'.live = s.live) : LiveInv s' := by
  constructor
  · intro jobId hjob
    rw [hlive] at hjob
    rw [hactive, InFlight, hdist]
    exact h.active jobId hjob
  · rintro jobId ⟨task, i, hsending⟩
    rw [hlive]
    exact h.inFlight jobId ⟨task, i, hdist ▸ hsending⟩

theorem LiveInv.of_none {s s' : Dispatcher} (h : LiveInv s)
    (hbefore : ∀ jobId, ¬ s.InFlight jobId) (hafter : ∀ jobId, ¬ s'.InFlight jobId)
    (hactive : s'.activeTasks = s.activeTasks) (hlive : s'.live = s.live) : LiveInv s' := by
  constructor
  · intro jobId hjob
    rw [hlive] at hjob
    rw [hactive]
    exact .inl ((h.active jobId hjob).resolve_right (hbefore jobId))
  · intro jobId hflight
    exact absurd hflight (hafter jobId)

theorem not_inFlight {s : Dispatcher} (h : s.dist.reached = false) (jobId : UInt64) :
    ¬ s.InFlight jobId := by
  rintro ⟨task, i, hsending⟩
  rw [hsending] at h
  cases h

theorem applyMessage_frame (s : Dispatcher) (msg : Json) (m : StratumMessage) :
    (s.applyMessage msg m).dist = s.dist ∧ (s.applyMessage msg m).activeTasks = s.activeTasks ∧
      (s.applyMessage msg m).live = s.live ∧ (s.applyMessage msg m).stale = s.stale := by
  cases m <;> exact ⟨rfl, rfl, rfl, rfl⟩

variable {signTaskPacket : List UInt8 → ByteArr 64} {numPeers : Nat}
  {scrypt : List UInt8 → ByteArr 32} {workerName : Str}

theorem distStep_liveInv {s s' : Dispatcher} {e : DistEvent} (h : LiveInv s)
    (hs : DistStep signTaskPacket numPeers s e s') : LiveInv s' := by
  cases hs with
  | apply hevent hpop =>
      obtain ⟨hdist, hactive, hlive, -⟩ := applyMessage_frame s _ _
      exact h.of_eq hdist hactive hlive
  | popNotify hdist hpop hread =>
      exact h.of_none (not_inFlight (by rw [hdist]; rfl)) (not_inFlight rfl) rfl rfl
  | drained hdist => exact h.of_none (not_inFlight (by rw [hdist]; rfl)) (not_inFlight rfl) rfl rfl
  | drainNotify hdist hpop hread =>
      exact h.of_none (not_inFlight (by rw [hdist]; rfl)) (not_inFlight rfl) rfl rfl
  | clean hdist =>
      constructor
      · intro jobId hjob
        exact absurd hjob List.not_mem_nil
      · intro jobId hflight
        exact absurd hflight (not_inFlight rfl jobId)
  | keep hdist => exact h.of_none (not_inFlight (by rw [hdist]; rfl)) (not_inFlight rfl) rfl rfl
  | dropped now buffer hdist =>
      exact h.of_none (not_inFlight (by rw [hdist]; rfl)) (not_inFlight rfl) rfl rfl
  | prepared now buffer hdist hready =>
      exact h.of_none (not_inFlight (by rw [hdist]; rfl)) (not_inFlight rfl) rfl rfl
  | @send ok jobId task i reached hdist hi =>
      constructor
      · intro k hk
        by_cases hkjob : k = jobId ∧ (reached || ok) = true
        · right
          rw [hkjob.1]
          exact ⟨task, i + 1, by rw [← hkjob.2]⟩
        · have hold : k ∈ s.live := by
            cases ok with
            | false => exact hk
            | true =>
                rcases List.mem_cons.mp hk with rfl | hk
                · exact absurd ⟨rfl, Bool.or_true _⟩ hkjob
                · exact hk
          refine .inl ((h.active k hold).resolve_right ?_)
          rintro ⟨task', i', hsending⟩
          rw [hdist] at hsending
          cases hsending
          exact hkjob ⟨rfl, rfl⟩
      · rintro k ⟨task', i', hsending⟩
        obtain ⟨hjob, -, -, hreached⟩ := DistPhase.sending.inj hsending
        rw [← hjob]
        cases ok with
        | true => exact List.mem_cons_self
        | false =>
            rw [Bool.or_false] at hreached
            rw [hreached] at hdist
            exact h.inFlight jobId ⟨task, i, hdist⟩
  | @store jobId task i reached hdist hi =>
      constructor
      · intro k hk
        left
        by_cases hkjob : k = jobId
        · rw [hkjob]
          change (s.activeTasks.insert jobId task).get jobId ≠ none
          rw [ConcurrentHashMap.get_insert_self]
          exact Option.some_ne_none task
        · change (s.activeTasks.insert jobId task).get k ≠ none
          rw [ConcurrentHashMap.get_insert_of_ne _ _ hkjob]
          refine (h.active k hk).resolve_right ?_
          rintro ⟨task', i', hsending⟩
          rw [hdist] at hsending
          cases hsending
          exact hkjob rfl
      · intro k hflight
        exact absurd hflight (not_inFlight rfl k)

theorem liveInv_step (s : Dispatcher) (e : Event) (s' : Dispatcher) (h : LiveInv s)
    (hs : s.step signTaskPacket numPeers scrypt workerName e = some s') : LiveInv s' := by
  cases e with
  | pool e => cases poolStep_cases hs <;> exact h.of_eq rfl rfl rfl
  | dist e => exact distStep_liveInv h (distStep_cases hs)
  | valid e => cases validStep_cases hs <;> exact h.of_eq rfl rfl rfl
  | solution sol => cases hs; exact h.of_eq rfl rfl rfl

theorem liveInv_initial (extraNonce1 : List UInt8) (messages : List Json) :
    LiveInv (initial extraNonce1 messages) :=
  ⟨fun _ h => absurd h List.not_mem_nil, fun jobId h => absurd h (not_inFlight rfl jobId)⟩

theorem liveInv_always (extraNonce1 : List UInt8) (messages : List Json) (es : List Event) :
    Run.Always (step signTaskPacket numPeers scrypt workerName) LiveInv
      (initial extraNonce1 messages) es :=
  Run.always_of_step liveInv_step (liveInv_initial extraNonce1 messages)

/-! ## The counter -/

theorem checkShareResponse_solutionsStale (msg : Json) (stats : DispatcherStats) :
    (checkShareResponse msg stats).solutionsStale = stats.solutionsStale := by
  unfold checkShareResponse
  split
  · rfl
  · split <;> rfl

theorem admitted_solutionsStale (st : ShareState) (sol : DispatcherMiningSolution) :
    (admitted st sol).stats.solutionsStale = st.stats.solutionsStale := by
  unfold admitted startJob
  split <;> rfl

theorem credit_solutionsStale (st : ShareState) (sol : DispatcherMiningSolution) (now : Int) :
    (credit st sol now).stats.solutionsStale = st.stats.solutionsStale := by
  simp [credit, computorIdx_lt]

/-- `solutionsStale` is the number of solutions recorded as stale. -/
def StaleCount (s : Dispatcher) : Prop := s.share.stats.solutionsStale = s.stale.length

theorem staleCount_step (s : Dispatcher) (e : Event) (s' : Dispatcher) (h : StaleCount s)
    (hs : s.step signTaskPacket numPeers scrypt workerName e = some s') : StaleCount s' := by
  cases e with
  | pool e => cases poolStep_cases hs <;> exact h
  | dist e =>
      cases distStep_cases hs with
      | @apply e msg queue other hevent hpop =>
          cases other with
          | shareResponse => exact (checkShareResponse_solutionsStale _ _).trans h
          | _ => exact h
      | _ => exact h
  | valid e =>
      cases validStep_cases hs with
      | popped hvalid hpop => exact (admitted_solutionsStale _ _).trans h
      | stale now hvalid hget => exact congrArg (· + 1) h
      | accepted now hvalid hget hmeets => exact (credit_solutionsStale _ _ now).trans h
      | _ => exact h
  | solution sol => cases hs; exact h

/-! ## Stale solutions -/

theorem noLiveStale_step {s s' : Dispatcher} {e : Event} (hlive : LiveInv s) (h : NoLiveStale s)
    (hs : s.step signTaskPacket numPeers scrypt workerName e = some s') :
    NoLiveStale s' ↔ s.NotInFlight e := by
  cases e with
  | pool e => cases poolStep_cases hs <;> exact ⟨fun _ => trivial, fun _ => h⟩
  | dist e =>
      refine ⟨fun _ => trivial, fun _ => ?_⟩
      cases distStep_cases hs with
      | apply hevent hpop =>
          obtain ⟨-, -, -, hstale⟩ := applyMessage_frame s _ _
          intro entry hentry
          exact h entry (hstale ▸ hentry)
      | _ => exact h
  | solution sol => cases hs; exact ⟨fun _ => trivial, fun _ => h⟩
  | valid e =>
      cases validStep_cases hs with
      | @stale now sol hvalid hget =>
          constructor
          · intro hnext sol' hvalid' hflight
            rw [hvalid] at hvalid'
            cases hvalid'
            have hmark := hnext _ List.mem_cons_self
            exact absurd (hlive.inFlight _ hflight) (of_decide_eq_false hmark)
          · intro hok entry hentry
            rcases List.mem_cons.mp hentry with rfl | hentry
            · refine decide_eq_false fun hmem => ?_
              rcases hlive.active _ hmem with hactive | hflight
              · exact hactive hget
              · exact hok sol hvalid hflight hget
            · exact h entry hentry
      | @failed now sol task hvalid hget =>
          refine ⟨fun _ sol' hvalid' _ => ?_, fun _ => h⟩
          rw [hvalid] at hvalid'
          cases hvalid'
          rw [hget]
          exact Option.some_ne_none task
      | @accepted now sol task hvalid hget hmeets =>
          refine ⟨fun _ sol' hvalid' _ => ?_, fun _ => h⟩
          rw [hvalid] at hvalid'
          cases hvalid'
          rw [hget]
          exact Option.some_ne_none task
      | _ => exact ⟨fun _ => trivial, fun _ => h⟩

/-- **When no solution of a live job is stale.**  In every run the counter is
that of the recorded solutions, and none of these is a live job's just when no
solution of the job in flight is looked up. -/
theorem noLiveStale_iff (extraNonce1 : List UInt8) (messages : List Json) (es : List Event) :
    Run.Always (step signTaskPacket numPeers scrypt workerName) StaleCount
      (initial extraNonce1 messages) es ∧
    (Run.Always (step signTaskPacket numPeers scrypt workerName) NoLiveStale
        (initial extraNonce1 messages) es ↔
      Run.Along (step signTaskPacket numPeers scrypt workerName) NotInFlight
        (initial extraNonce1 messages) es) := by
  constructor
  · exact Run.always_of_step staleCount_step rfl
  · refine Run.always_iff_along ?_ (liveInv_initial extraNonce1 messages) ?_
    · intro s e s' hinv h hs
      exact ⟨noLiveStale_step hinv h hs, fun _ => liveInv_step s e s' hinv hs⟩
    · intro entry hentry
      exact absurd hentry List.not_mem_nil

/-! ## A quick miner -/

/-- Two peers; a miner answers before the second has the task. -/
def quickMinerRun : List Event :=
  [.dist .popMessage, .dist .tryPop, .dist .clear, .dist (.prepare 1700000000000),
    .dist (.send true), .solution (zeroSolution 1700000000000), .valid .popSolution,
    .valid (.judge 1700000000), .dist (.send true), .dist .store]

theorem quickMinerRun_stale :
    ¬ Run.Always (step (fun _ => ByteArr.fill 64 0xab) 2 (fun _ => ByteArr.fill 32 0)
        "worker".toList) NoLiveStale (initial [1, 2, 3, 4] [sampleNotify]) quickMinerRun ∧
    ∃ s, Run.exec (step (fun _ => ByteArr.fill 64 0xab) 2 (fun _ => ByteArr.fill 32 0)
        "worker".toList) (initial [1, 2, 3, 4] [sampleNotify]) quickMinerRun = some s ∧
      s.stale = [(1700000000000, true)] ∧ s.share.stats.solutionsStale = 1 ∧
      (s.activeTasks.get 1700000000000).isSome = true := by
  have hlast : ∃ s, Run.exec (step (fun _ => ByteArr.fill 64 0xab) 2
      (fun _ => ByteArr.fill 32 0) "worker".toList) (initial [1, 2, 3, 4] [sampleNotify])
        quickMinerRun = some s ∧
      s.stale = [(1700000000000, true)] ∧ s.share.stats.solutionsStale = 1 ∧
      (s.activeTasks.get 1700000000000).isSome = true := ⟨_, rfl, rfl, rfl, rfl⟩
  refine ⟨fun h => ?_, hlast⟩
  obtain ⟨s, hs, hstale, -⟩ := hlast
  have hnone := h.exec hs (1700000000000, true) (by rw [hstale]; exact List.mem_singleton_self _)
  cases hnone

end Dispatcher

end DogeConnect
