/-
Share accounting: the counters of the validation loop balance.

`shareValidationLoop` has six ways through an iteration, and each of them
touches other counters.  Over the system of `ShareDedup` (pops, stored and
cleared tasks, the connection as each iteration finds it):

    shareStep_effect    what a step does to the credits, the counters, the messages
    balanced_step       the sums are kept by every step
    shareAccounting     all of it, for every run

The ids are 3, 4, 5, … in 64 bits.  Nothing stops them from starting over, and
solutions of two jobs taken in turn are credited without end.
-/
import DogeConnect.ShareDedup

namespace DogeConnect

/-! ## The computor of a share -/

/-- The first four bytes of `extraNonce2` as a number, most significant first. -/
def extraNonce2Prefix (sol : DispatcherMiningSolution) : Nat :=
  leVal (sol.extraNonce2.toList.take 4).reverse

theorem shiftLeft_or {a b i j : Nat} (hb : b < 2 ^ j) :
    (a <<< (i + j)) ||| (b <<< i) = (a * 2 ^ j + b) <<< i := by
  have hlt : b <<< i < 2 ^ (i + j) := by
    rw [Nat.shiftLeft_eq, Nat.pow_add, Nat.mul_comm]
    exact Nat.mul_lt_mul_of_pos_left hb (Nat.two_pow_pos i)
  rw [← Nat.shiftLeft_add_eq_or_of_lt hlt, Nat.shiftLeft_eq, Nat.shiftLeft_eq, Nat.shiftLeft_eq,
    Nat.pow_add]
  ring

theorem extraNonce2High_eq (sol : DispatcherMiningSolution) :
    extraNonce2High sol = extraNonce2Prefix sol := by
  cases hsol : sol.extraNonce2 with
  | mk bytes hlen =>
  match bytes, hlen with
  | [a, b, c, d, e, f, g, h], hlen =>
    have hb := b.toNat_lt
    have hc := c.toNat_lt
    have hd := d.toNat_lt
    have hhigh : extraNonce2High sol
        = (a.toNat <<< 24) ||| (b.toNat <<< 16) ||| (c.toNat <<< 8) ||| d.toNat := by
      rw [extraNonce2High, hsol]
      rfl
    have hprefix : extraNonce2Prefix sol = leVal [d, c, b, a] := by
      rw [extraNonce2Prefix, hsol]
      rfl
    have h1 : (a.toNat <<< 24) ||| (b.toNat <<< 16) = (a.toNat * 2 ^ 8 + b.toNat) <<< 16 :=
      shiftLeft_or (i := 16) (j := 8) hb
    have h2 : ((a.toNat * 2 ^ 8 + b.toNat) <<< 16) ||| (c.toNat <<< 8)
        = ((a.toNat * 2 ^ 8 + b.toNat) * 2 ^ 8 + c.toNat) <<< 8 :=
      shiftLeft_or (i := 8) (j := 8) hc
    have h3 : (((a.toNat * 2 ^ 8 + b.toNat) * 2 ^ 8 + c.toNat) <<< 8) ||| d.toNat
        = ((a.toNat * 2 ^ 8 + b.toNat) * 2 ^ 8 + c.toNat) <<< 8 + d.toNat :=
      (Nat.shiftLeft_add_eq_or_of_lt (i := 8) hd _).symm
    rw [hhigh, hprefix, h1, h2, h3, Nat.shiftLeft_eq]
    simp only [leVal_cons, leVal_nil]
    omega

/-! ## The messages -/

/-- The `id` of a message, where it is an unsigned number. -/
def submitId (message : Json) : Option Nat :=
  match message.field "id".toList with
  | .ok (.unsigned id) => some id
  | _ => none

/-- The ids of the messages sent. -/
def ShareSystem.submitIds (s : ShareSystem) : List Nat := s.sent.filterMap submitId

/-- The first `n` values of a 64-bit counter that starts at 3. -/
def counterIds (n : Nat) : List Nat := (List.range n).map fun k => (3 + k) % 2 ^ 64

theorem counterIds_succ (n : Nat) : counterIds (n + 1) = counterIds n ++ [(3 + n) % 2 ^ 64] := by
  rw [counterIds, List.range_succ, List.map_append]
  rfl

theorem counterIds_increasing_iff (n : Nat) :
    (counterIds n).Pairwise (· < ·) ↔ n ≤ 2 ^ 64 - 3 := by
  have hlen : (counterIds n).length = n := by
    rw [counterIds, List.length_map, List.length_range]
  have hget : ∀ k (hk : k < (counterIds n).length), (counterIds n)[k] = (3 + k) % 2 ^ 64 := by
    intro k hk
    simp only [counterIds, List.getElem_map, List.getElem_range]
  rw [List.pairwise_iff_getElem]
  constructor
  · intro h
    by_contra hn
    -- the id after the largest one is 0
    have hover := h 0 (2 ^ 64 - 3) (by omega) (by omega) (by omega)
    rw [hget, hget] at hover
    omega
  · intro hn i j hi hj hij
    rw [hget, hget]
    omega

/-! ## What a step does -/

section
variable (scrypt : List UInt8 → ByteArr 32) (workerName : Str)

theorem admitted_stats (st : ShareState) (sol : DispatcherMiningSolution) :
    (admitted st sol).stats
      = { st.stats with solutionsReceived := st.stats.solutionsReceived + 1 } := by
  rw [admitted, startJob]
  split <;> rfl

theorem credit_stats (st : ShareState) (sol : DispatcherMiningSolution) (now : Int) :
    (credit st sol now).stats = { st.stats with
      solutionsAccepted := st.stats.solutionsAccepted + 1
      solutionsPassedPoolDiff := st.stats.solutionsPassedPoolDiff + 1
      computorShares := Function.update st.stats.computorShares (creditedComputor sol)
        (st.stats.computorShares (creditedComputor sol) + 1)
      computorLastSeen :=
        Function.update st.stats.computorLastSeen (creditedComputor sol) now } := by
  rw [credit, dif_pos (computorIdx_lt sol)]
  rfl

/-- The counters the loop writes. -/
structure Counters where
  received : Nat
  accepted : Nat
  rejected : Nat
  stale : Nat
  passedPoolDiff : Nat
  shares : Fin NUM_COMPUTORS → Nat

def DispatcherStats.counters (s : DispatcherStats) : Counters where
  received := s.solutionsReceived
  accepted := s.solutionsAccepted
  rejected := s.solutionsRejected
  stale := s.solutionsStale
  passedPoolDiff := s.solutionsPassedPoolDiff
  shares := s.computorShares

def ShareSystem.counters (s : ShareSystem) : Counters := s.share.stats.counters

/-- Everything a pop can do to the counters and the messages. -/
inductive PopEffect (s : ShareSystem) (sol : DispatcherMiningSolution) (connected : Bool)
    (s' : ShareSystem) : Prop
  | duplicate (counters : s'.counters = s.counters) (sent : s'.sent = s.sent)
      (nextId : s'.share.nextStratumSendId = s.share.nextStratumSendId)
  | stale
      (counters : s'.counters = { s.counters with
        received := s.counters.received + 1, stale := s.counters.stale + 1 })
      (sent : s'.sent = s.sent)
      (nextId : s'.share.nextStratumSendId = s.share.nextStratumSendId)
  | rejected
      (counters : s'.counters = { s.counters with
        received := s.counters.received + 1, rejected := s.counters.rejected + 1 })
      (sent : s'.sent = s.sent)
      (nextId : s'.share.nextStratumSendId = s.share.nextStratumSendId)
  | accepted (task : DispatcherMiningTask)
      (active : s.activeTasks.get sol.jobId = some task)
      (counters : s'.counters = { s.counters with
        received := s.counters.received + 1
        accepted := s.counters.accepted + 1
        passedPoolDiff := s.counters.passedPoolDiff + 1
        shares := Function.update s.counters.shares (creditedComputor sol)
          (s.counters.shares (creditedComputor sol) + 1) })
      (sent : s'.sent = s.sent ++
        if connected then [submitMessage workerName s.share.nextStratumSendId task sol] else [])
      (nextId : s'.share.nextStratumSendId
        = if connected then s.share.nextStratumSendId + 1 else s.share.nextStratumSendId)

theorem ShareSystem.validate_effect (s : ShareSystem) (sol : DispatcherMiningSolution)
    (connected : Bool) (now : Int) :
    PopEffect workerName s sol connected (s.validate scrypt workerName sol connected now) := by
  cases hv : validateShare scrypt workerName s.activeTasks connected now s.share sol with
  | mk share accepted =>
      rcases validateShare_cases scrypt workerName hv with ⟨-, rfl, rfl⟩ | ⟨-, -, rfl, rfl⟩ |
        ⟨-, task, -, -, rfl, rfl⟩ | ⟨-, task, htask, -, rfl, rfl⟩
      · rw [ShareSystem.validate, hv]
        exact .duplicate rfl rfl rfl
      · rw [ShareSystem.validate, hv]
        refine .stale ?_ rfl (admitted_nextStratumSendId _ _)
        simp only [ShareSystem.counters, countStale, admitted_stats]
        rfl
      · rw [ShareSystem.validate, hv]
        refine .rejected ?_ rfl (admitted_nextStratumSendId _ _)
        simp only [ShareSystem.counters, reject, admitted_stats]
        rfl
      · rw [ShareSystem.validate, hv]
        refine .accepted task htask ?_ ?_ ?_
        · simp only [ShareSystem.counters, submit_stats, credit_stats, admitted_stats]
          rfl
        · cases connected with
          | false => rfl
          | true =>
              show s.sent ++ [submitMessage workerName
                (credit (admitted s.share sol) sol now).nextStratumSendId task sol] = _
              rw [credit_nextStratumSendId, admitted_nextStratumSendId]
              rfl
        · cases connected with
          | false => exact admitted_nextStratumSendId _ _
          | true =>
              show (admitted s.share sol).nextStratumSendId + 1 = _
              rw [admitted_nextStratumSendId]
              rfl

/-! ## The sums -/

structure Balanced (s : ShareSystem) : Prop where
  received : s.share.stats.solutionsReceived = s.share.stats.solutionsAccepted
    + s.share.stats.solutionsRejected + s.share.stats.solutionsStale
  passed : s.share.stats.solutionsAccepted = s.share.stats.solutionsPassedPoolDiff
  shares : s.share.stats.solutionsAccepted = s.share.stats.totalShares
  /-- Every message carries the next value of the counter. -/
  ids : s.submitIds = counterIds s.sent.length
  nextId : s.share.nextStratumSendId.toNat = (3 + s.sent.length) % 2 ^ 64

theorem balanced_iff (s : ShareSystem) :
    Balanced s ↔ s.counters.received = s.counters.accepted + s.counters.rejected + s.counters.stale ∧
      s.counters.accepted = s.counters.passedPoolDiff ∧
      s.counters.accepted = ∑ i, s.counters.shares i ∧
      s.submitIds = counterIds s.sent.length ∧
      s.share.nextStratumSendId.toNat = (3 + s.sent.length) % 2 ^ 64 :=
  ⟨fun h => ⟨h.received, h.passed, h.shares, h.ids, h.nextId⟩,
    fun ⟨h1, h2, h3, h4, h5⟩ => ⟨h1, h2, h3, h4, h5⟩⟩

theorem sum_update_succ (shares : Fin NUM_COMPUTORS → Nat) (i : Fin NUM_COMPUTORS) :
    ∑ j, Function.update shares i (shares i + 1) j = (∑ j, shares j) + 1 := by
  rw [Finset.sum_update_of_mem (Finset.mem_univ i), ← Finset.add_sum_erase _ shares (Finset.mem_univ i),
    Finset.sdiff_singleton_eq_erase]
  omega

theorem balanced_initial : Balanced .initial := by
  refine ⟨rfl, rfl, ?_, rfl, rfl⟩
  exact (Finset.sum_const_zero).symm

/-- A step that leaves the counters it does not sum and sends nothing. -/
theorem balanced_of_same {s s' : ShareSystem} (h : Balanced s)
    (hreceived : s'.counters.received
      = s'.counters.accepted + s'.counters.rejected + s'.counters.stale)
    (haccepted : s'.counters.accepted = s.counters.accepted)
    (hpassed : s'.counters.passedPoolDiff = s.counters.passedPoolDiff)
    (hshares : s'.counters.shares = s.counters.shares) (hsent : s'.sent = s.sent)
    (hnext : s'.share.nextStratumSendId = s.share.nextStratumSendId) : Balanced s' := by
  obtain ⟨-, h2, h3, h4, h5⟩ := (balanced_iff s).mp h
  refine (balanced_iff s').mpr ⟨hreceived, ?_, ?_, ?_, ?_⟩
  · rw [haccepted, hpassed]
    exact h2
  · rw [haccepted, hshares]
    exact h3
  · rw [ShareSystem.submitIds, hsent]
    exact h4
  · rw [hnext, hsent]
    exact h5

theorem balanced_of_effect {s s' : ShareSystem} {sol : DispatcherMiningSolution} {connected : Bool}
    (h : Balanced s) (heffect : PopEffect workerName s sol connected s') : Balanced s' := by
  obtain ⟨h1, h2, h3, h4, h5⟩ := (balanced_iff s).mp h
  cases heffect with
  | duplicate hcounters hsent hnext =>
      exact balanced_of_same h (by rw [hcounters]; exact h1) (by rw [hcounters]) (by rw [hcounters])
        (by rw [hcounters]) hsent hnext
  | stale hcounters hsent hnext =>
      refine balanced_of_same h ?_ (by rw [hcounters]) (by rw [hcounters]) (by rw [hcounters])
        hsent hnext
      rw [hcounters]
      show s.counters.received + 1 = s.counters.accepted + s.counters.rejected + (s.counters.stale + 1)
      omega
  | rejected hcounters hsent hnext =>
      refine balanced_of_same h ?_ (by rw [hcounters]) (by rw [hcounters]) (by rw [hcounters])
        hsent hnext
      rw [hcounters]
      show s.counters.received + 1 = s.counters.accepted + (s.counters.rejected + 1) + s.counters.stale
      omega
  | accepted task _ hcounters hsent hnext =>
      refine (balanced_iff s').mpr ⟨?_, ?_, ?_, ?_⟩
      · rw [hcounters]
        show s.counters.received + 1
          = s.counters.accepted + 1 + s.counters.rejected + s.counters.stale
        omega
      · rw [hcounters]
        exact congrArg (· + 1) h2
      · rw [hcounters]
        show s.counters.accepted + 1 = ∑ j, Function.update s.counters.shares (creditedComputor sol)
          (s.counters.shares (creditedComputor sol) + 1) j
        rw [sum_update_succ, h3]
      · cases connected with
        | false =>
            rw [if_neg Bool.false_ne_true] at hnext
            rw [if_neg Bool.false_ne_true, List.append_nil] at hsent
            rw [ShareSystem.submitIds, hnext, hsent]
            exact ⟨h4, h5⟩
        | true =>
            rw [if_pos rfl] at hnext hsent
            have hids : s'.submitIds = s.submitIds ++ [s.share.nextStratumSendId.toNat] := by
              rw [ShareSystem.submitIds, hsent, List.filterMap_append]
              rfl
            have hlen : s'.sent.length = s.sent.length + 1 := by
              rw [hsent, List.length_append]
              rfl
            refine ⟨?_, ?_⟩
            · rw [hids, hlen, counterIds_succ, h4, h5]
            · rw [hnext, hlen, UInt64.toNat_add, h5, UInt64.toNat_one]
              omega

theorem balanced_step (s : ShareSystem) (e : ShareEvent) (s' : ShareSystem) (h : Balanced s)
    (hs : shareStep scrypt workerName s e = some s') : Balanced s' := by
  cases e with
  | insert jobId task =>
      cases hs
      exact ⟨h.received, h.passed, h.shares, h.ids, h.nextId⟩
  | clear =>
      cases hs
      exact ⟨h.received, h.passed, h.shares, h.ids, h.nextId⟩
  | pop sol connected now =>
      cases hs
      exact balanced_of_effect workerName h (s.validate_effect scrypt workerName sol connected now)

/-! ## The accounting of a run -/

/-- What a step credits: nothing, or one accepted solution to one computor. -/
inductive StepCredit (s : ShareSystem) : ShareEvent → ShareSystem → Prop
  | nothing {e : ShareEvent} {s' : ShareSystem}
      (accepted : s'.share.stats.solutionsAccepted = s.share.stats.solutionsAccepted)
      (shares : s'.share.stats.computorShares = s.share.stats.computorShares)
      (sent : s'.sent = s.sent) : StepCredit s e s'
  | one {sol : DispatcherMiningSolution} {connected : Bool} {now : Int} {s' : ShareSystem}
      (i : Fin NUM_COMPUTORS) (computor : i.val = extraNonce2Prefix sol % 676)
      (accepted : s'.share.stats.solutionsAccepted = s.share.stats.solutionsAccepted + 1)
      (share : s'.share.stats.computorShares i = s.share.stats.computorShares i + 1)
      (others : ∀ j ≠ i, s'.share.stats.computorShares j = s.share.stats.computorShares j)
      (task : DispatcherMiningTask) (active : s.activeTasks.get sol.jobId = some task)
      (sent : s'.sent = s.sent ++
        if connected then [submitMessage workerName s.share.nextStratumSendId task sol] else []) :
      StepCredit s (.pop sol connected now) s'

theorem shareStep_effect (s : ShareSystem) (e : ShareEvent) (s' : ShareSystem)
    (hs : shareStep scrypt workerName s e = some s') : StepCredit workerName s e s' := by
  cases e with
  | insert jobId task =>
      cases hs
      exact .nothing rfl rfl rfl
  | clear =>
      cases hs
      exact .nothing rfl rfl rfl
  | pop sol connected now =>
      cases hs
      cases s.validate_effect scrypt workerName sol connected now with
      | duplicate hcounters hsent =>
          exact .nothing (congrArg Counters.accepted hcounters) (congrArg Counters.shares hcounters)
            hsent
      | stale hcounters hsent =>
          exact .nothing (congrArg Counters.accepted hcounters) (congrArg Counters.shares hcounters)
            hsent
      | rejected hcounters hsent =>
          exact .nothing (congrArg Counters.accepted hcounters) (congrArg Counters.shares hcounters)
            hsent
      | accepted task hactive hcounters hsent =>
          have hshares : (s.validate scrypt workerName sol connected now).share.stats.computorShares
              = Function.update s.share.stats.computorShares (creditedComputor sol)
                  (s.share.stats.computorShares (creditedComputor sol) + 1) :=
            congrArg Counters.shares hcounters
          refine .one (creditedComputor sol) ?_ (congrArg Counters.accepted hcounters) ?_ ?_ task
            hactive hsent
          · rw [← extraNonce2High_eq]
            rfl
          · rw [hshares, Function.update_self]
          · intro j hj
            rw [hshares, Function.update_of_ne hj]

/-- **Share accounting.**  Between two pops the counters balance and the
messages carry the values of the counter one after another; a step credits at
most one solution, to its computor, and sends a message for it just when the
pool is connected; the ids grow until the counter starts over. -/
theorem shareAccounting (run : List ShareEvent) :
    Run.Always (shareStep scrypt workerName) Balanced .initial run ∧
    Run.Always (shareStep scrypt workerName)
      (fun s => ∀ e s', shareStep scrypt workerName s e = some s' → StepCredit workerName s e s')
      .initial run ∧
    Run.Always (shareStep scrypt workerName)
      (fun s => s.submitIds.Pairwise (· < ·) ↔ s.sent.length ≤ 2 ^ 64 - 3) .initial run := by
  have hbalanced : Run.Always (shareStep scrypt workerName) Balanced .initial run :=
    Run.always_of_step (balanced_step scrypt workerName) balanced_initial
  refine ⟨hbalanced, ?_, ?_⟩
  · exact hbalanced.mono fun s _ e s' hs => shareStep_effect scrypt workerName s e s' hs
  · refine hbalanced.mono fun s h => ?_
    rw [h.ids]
    exact counterIds_increasing_iff s.sent.length

end

/-! ## Two jobs in turn -/

/-- The other one of jobs 1 and 2. -/
def otherJob (jobId : UInt64) : UInt64 := if jobId = 1 then 2 else 1

/-- Solutions of the two jobs in turn. -/
def inTurn : Nat → UInt64 → List ShareEvent
  | 0, _ => []
  | n + 1, jobId => .pop (zeroSolution jobId) true 0 :: inTurn n (otherJob jobId)

/-- Both jobs are active, and the last solution was not of `jobId`. -/
structure TurnOf (jobId : UInt64) (s : ShareSystem) : Prop where
  job : jobId = 1 ∨ jobId = 2
  first : s.activeTasks.get 1 = some (easyTask "a".toList)
  second : s.activeTasks.get 2 = some (easyTask "b".toList)
  fresh : dedupeKey (zeroSolution jobId) ∉ s.share.recentSubmits
  last : s.share.lastCleanJobId ≠ jobId

theorem otherJob_ne {jobId : UInt64} (h : jobId = 1 ∨ jobId = 2) :
    (otherJob jobId = 1 ∨ otherJob jobId = 2) ∧ otherJob jobId ≠ jobId := by
  rcases h with rfl | rfl <;> decide

/-- Each of them is accepted and submitted, since the other one emptied the set. -/
theorem turnOf_step {jobId : UInt64} {s : ShareSystem} (h : TurnOf jobId s) :
    ∃ s', shareStep (fun _ => ByteArr.fill 32 0) "worker".toList s
        (.pop (zeroSolution jobId) true 0) = some s' ∧
      TurnOf (otherJob jobId) s' ∧ s'.sent.length = s.sent.length + 1 := by
  obtain ⟨task, htask, hmeets⟩ : ∃ task, s.activeTasks.get (zeroSolution jobId).jobId = some task ∧
      meetsTarget (fun _ => ByteArr.fill 32 0) task (zeroSolution jobId) = true := by
    rcases h.job with rfl | rfl
    · exact ⟨_, h.first, rfl⟩
    · exact ⟨_, h.second, rfl⟩
  obtain ⟨hjob, hother⟩ := otherJob_ne h.job
  have heffect := s.validate_effect (fun _ => ByteArr.fill 32 0) "worker".toList
    (zeroSolution jobId) true 0
  refine ⟨_, rfl, ?_⟩
  rcases s.validate_cases (fun _ => ByteArr.fill 32 0) "worker".toList (zeroSolution jobId) true 0
    with ⟨hkey, -⟩ | ⟨-, hfails, -⟩ | ⟨-, _, share, message, -, hs, haccepted, -, hrecent, hlast⟩
  · exact absurd hkey h.fresh
  · rw [hfails task htask] at hmeets
    cases hmeets
  · rw [hs] at heffect ⊢
    have hnew : share.recentSubmits = [dedupeKey (zeroSolution jobId)] := by
      rw [hrecent, admitted_recentSubmits, if_pos]
      exact fun hsame => h.last hsame.symm
    refine ⟨⟨hjob, h.first, h.second, ?_, ?_⟩, ?_⟩
    · show dedupeKey (zeroSolution (otherJob jobId)) ∉ share.recentSubmits
      rw [hnew, List.mem_singleton, dedupeKey_inj]
      exact fun hid => hother (congrArg Prod.fst hid)
    · show share.lastCleanJobId ≠ otherJob jobId
      rw [hlast]
      exact hother.symm
    · have hcounted : ∀ {n : Nat}, share.stats.solutionsAccepted = n → n = s.counters.accepted → False := by
        intro n hn hsame
        have : s.counters.accepted = s.share.stats.solutionsAccepted := rfl
        omega
      cases heffect with
      | duplicate hcounters => exact (hcounted rfl (congrArg Counters.accepted hcounters)).elim
      | stale hcounters => exact (hcounted rfl (congrArg Counters.accepted hcounters)).elim
      | rejected hcounters => exact (hcounted rfl (congrArg Counters.accepted hcounters)).elim
      | accepted _ _ _ hsent =>
          rw [hsent, List.length_append]
          rfl

theorem inTurn_exec (n : Nat) : ∀ {jobId : UInt64} {s : ShareSystem}, TurnOf jobId s →
    ∃ s', Run.exec (shareStep (fun _ => ByteArr.fill 32 0) "worker".toList) s (inTurn n jobId)
        = some s' ∧ s'.sent.length = s.sent.length + n := by
  induction n with
  | zero =>
      intro jobId s _
      exact ⟨s, rfl, rfl⟩
  | succ n ih =>
      intro jobId s h
      obtain ⟨s₁, hs₁, hturn, hlen₁⟩ := turnOf_step h
      obtain ⟨s₂, hs₂, hlen₂⟩ := ih hturn
      refine ⟨s₂, ?_, by omega⟩
      rw [inTurn, Run.exec, hs₁]
      exact hs₂

theorem exists_run_sent (n : Nat) :
    ∃ run s, Run.exec (shareStep (fun _ => ByteArr.fill 32 0) "worker".toList) .initial run = some s ∧
      s.sent.length = n := by
  have hstart : ∃ s, Run.exec (shareStep (fun _ => ByteArr.fill 32 0) "worker".toList) .initial
      [.insert 1 (easyTask "a".toList), .insert 2 (easyTask "b".toList)] = some s ∧
      TurnOf 1 s ∧ s.sent.length = 0 :=
    ⟨_, rfl, ⟨.inl rfl, rfl, rfl, List.not_mem_nil, by decide⟩, rfl⟩
  obtain ⟨s, hs, hturn, hsent⟩ := hstart
  obtain ⟨s', hs', hlen⟩ := inTurn_exec n hturn
  refine ⟨[.insert 1 (easyTask "a".toList), .insert 2 (easyTask "b".toList)] ++ inTurn n 1, s', ?_,
    by omega⟩
  rw [Run.exec_append, hs]
  exact hs'

/-- The ids do not grow for ever. -/
theorem submitIds_start_over :
    ¬ ∀ run, Run.Always (shareStep (fun _ => ByteArr.fill 32 0) "worker".toList)
      (fun s => s.submitIds.Pairwise (· < ·)) .initial run := by
  intro h
  obtain ⟨run, s, hs, hlen⟩ := exists_run_sent (2 ^ 64 - 2)
  have hbalanced : Run.Always (shareStep (fun _ => ByteArr.fill 32 0) "worker".toList) Balanced
      .initial run :=
    Run.always_of_step (balanced_step _ _) balanced_initial
  have hids : (counterIds s.sent.length).Pairwise (· < ·) := by
    rw [← (hbalanced.exec hs).ids]
    exact (h run).exec hs
  have hle := (counterIds_increasing_iff s.sent.length).mp hids
  omega

end DogeConnect
