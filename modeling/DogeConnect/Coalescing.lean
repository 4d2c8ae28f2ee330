/-
Coalescing queued jobs.

For a stream of well-formed messages and every interleaving of their arrival
with the two loops: the distributed jobs are a subsequence of the notifies, each
is the last notify of its batch and carries the clean flags of all of them, and
every share response is counted once.  Whenever the loop waits in `queue.pop()`,
nothing taken is left undistributed, and the active jobs are no older than the
last clean notify taken.

While the inner loop runs, a notify that has been taken is not distributed yet,
and if it is clean the jobs before it are still active: the map is only cleared
in `distributeTask` (`draining_lags`).
-/
import DogeConnect.DistLoop
import DogeConnect.TaskDrops

namespace DogeConnect

/-! ## Well-formed messages -/

/-- Parameters `distributeTask` can read, and a packet that fits. -/
def WellFormedNotify (extraNonce1 : List UInt8) (value : Json) : Prop :=
  ∃ params, value.field "params".toList = .ok params ∧
    (∃ clean, (params.constIndex 8).bind Json.getBool = .ok clean) ∧
    ∀ difficulty, ∃ p, parseTask params extraNonce1 difficulty = .ok (some p) ∧
      totalNumBytes p.dispatcherTask ≤ packetBufferSize

/-- A response `checkShareResponse` understands. -/
def hasError (value : Json) : Bool := value.fieldSatisfies "error".toList (fun e => !e.isNull)

def hasResult (value : Json) : Bool := value.fieldSatisfies "result".toList (fun r => r.eqBool true)

def WellFormedMessage (extraNonce1 : List UInt8) (value : Json) : Prop :=
  match readMessage value with
  | .error _ => False
  | .ok (.notify _) => WellFormedNotify extraNonce1 value
  | .ok .shareResponse => hasError value = true ∨ hasResult value = true
  | .ok _ => True

theorem index_of_constIndex {v w : Json} {i : Nat} (h : v.constIndex i = .ok w) :
    v.index i = .ok w := by
  cases v with
  | array elements =>
      simp only [Json.constIndex] at h
      split at h
      next hget =>
        cases h
        rw [Json.index, List.getD_eq_getElem?_getD, hget]
        rfl
      next => cases h
  | _ => cases h

theorem readMessage_notify {value : Json} {clean : Bool}
    (h : readMessage value = .ok (.notify clean)) :
    ∃ params, value.field "params".toList = .ok params ∧
      (params.index 8).bind Json.getBool = .ok clean := by
  obtain hm | ⟨_, _, -, -, hm⟩ | ⟨params, _, hparams, hflag, hm⟩ | ⟨_, -, hm⟩ := readMessage_cases h
  · cases hm
  · cases hm
  · cases hm
    exact ⟨params, hparams, hflag⟩
  · cases hm

/-- A well-formed notify is sent, with its flag or the one handed on. -/
theorem run_wellFormed (signTaskPacket : List UInt8 → ByteArr 64) {c : NotifyCall} {clean : Bool}
    (hread : readMessage c.msg = .ok (.notify clean))
    (hwell : WellFormedNotify c.extraNonce1 c.msg) (st : DistState) :
    cleanRequested c.msg c.propagateCleanJobFlag = .ok (clean || c.propagateCleanJobFlag) ∧
      ∃ st' task, c.run signTaskPacket st = .ok (st', some task) := by
  obtain ⟨params, hparams, ⟨clean', hclean'⟩, hparse⟩ := hwell
  obtain ⟨params', hparams', hclean⟩ := readMessage_notify hread
  obtain rfl := Except.ok.inj (hparams.symm.trans hparams')
  obtain ⟨last, hlast, hbool⟩ := except_bind_eq_ok.mp hclean'
  rw [index_of_constIndex hlast] at hclean
  obtain rfl := Except.ok.inj (hbool.symm.trans hclean)
  have hflag : cleanFlag params c.propagateCleanJobFlag
      = .ok (clean' || c.propagateCleanJobFlag) := by
    simp only [cleanFlag, hlast, except_ok_bind, hbool]
    rfl
  refine ⟨by simp only [cleanRequested, hparams, except_ok_bind, hflag], ?_⟩
  obtain ⟨p, hp, hsize⟩ := hparse c.currentPoolDifficulty
  exact (run_some_iff signTaskPacket c st).mpr ⟨_, _, p, hparams, hflag, hp, hsize⟩

/-! ## Responses -/

/-- A response counted as accepted, or as rejected. -/
def StreamMessage.isAcceptance (m : StreamMessage) : Bool :=
  m.isResponse && !hasError m.value && hasResult m.value

def StreamMessage.isRejection (m : StreamMessage) : Bool := m.isResponse && hasError m.value

/-- The counters hold the responses taken. -/
structure ResponsesCounted (s : DistLoop) : Prop where
  accepted : s.dist.stats.poolSharesAccepted = s.taken.countP StreamMessage.isAcceptance
  rejected : s.dist.stats.poolSharesRejected = s.taken.countP StreamMessage.isRejection

theorem isResponse_of_read {m : StreamMessage} {other : StratumMessage}
    (h : readMessage m.value = .ok other) : m.isResponse = decide (other = .shareResponse) := by
  rw [StreamMessage.isResponse, h]
  cases other <;> rfl

theorem isNotify_of_read {m : StreamMessage} {other : StratumMessage}
    (h : readMessage m.value = .ok other) (hother : ∀ clean, other ≠ .notify clean) :
    m.isNotify = false ∧ m.isClean = false := by
  rw [StreamMessage.isNotify, StreamMessage.isClean, h]
  cases other with
  | notify clean => exact absurd rfl (hother clean)
  | _ => exact ⟨rfl, rfl⟩

theorem notify_of_read {m : StreamMessage} {clean : Bool}
    (h : readMessage m.value = .ok (.notify clean)) :
    m.isNotify = true ∧ m.isClean = clean ∧ m.isResponse = false := by
  rw [StreamMessage.isNotify, StreamMessage.isClean, StreamMessage.isResponse, h]
  exact ⟨rfl, rfl, rfl⟩

theorem isNotify_of_isClean {m : StreamMessage} (h : m.isClean = true) : m.isNotify = true := by
  unfold StreamMessage.isClean at h
  unfold StreamMessage.isNotify
  split at h
  · rfl
  · cases h

theorem read_of_isNotify {m : StreamMessage} (h : m.isNotify = true) :
    readMessage m.value = .ok (.notify m.isClean) := by
  unfold StreamMessage.isNotify at h
  split at h
  next clean hread => rw [(notify_of_read hread).2.1, hread]
  next => cases h

/-! ## Counters -/

theorem checkShareResponse_counts (value : Json) (stats : DispatcherStats) :
    (checkShareResponse value stats).poolSharesAccepted
        = stats.poolSharesAccepted + (if !hasError value && hasResult value then 1 else 0) ∧
      (checkShareResponse value stats).poolSharesRejected
        = stats.poolSharesRejected + (if hasError value then 1 else 0) := by
  unfold checkShareResponse
  rw [← hasError, ← hasResult]
  cases hasError value <;> cases hasResult value <;> exact ⟨rfl, rfl⟩

theorem ResponsesCounted.taken {s s' : DistLoop} (h : ResponsesCounted s) {msg : StreamMessage}
    (htaken : s'.taken = s.taken ++ [msg])
    (haccepted : s'.dist.stats.poolSharesAccepted
      = s.dist.stats.poolSharesAccepted + if msg.isAcceptance then 1 else 0)
    (hrejected : s'.dist.stats.poolSharesRejected
      = s.dist.stats.poolSharesRejected + if msg.isRejection then 1 else 0) :
    ResponsesCounted s' := by
  constructor
  · rw [haccepted, htaken, List.countP_append, List.countP_singleton, h.accepted]
  · rw [hrejected, htaken, List.countP_append, List.countP_singleton, h.rejected]

theorem DistLoop.apply_counts (s : DistLoop) {msg : StreamMessage} {other : StratumMessage}
    (hread : readMessage msg.value = .ok other) :
    (s.apply msg other).dist.stats.poolSharesAccepted
        = s.dist.stats.poolSharesAccepted + (if msg.isAcceptance then 1 else 0) ∧
      (s.apply msg other).dist.stats.poolSharesRejected
        = s.dist.stats.poolSharesRejected + if msg.isRejection then 1 else 0 := by
  rw [StreamMessage.isAcceptance, StreamMessage.isRejection, isResponse_of_read hread]
  cases other with
  | shareResponse =>
      rw [decide_eq_true rfl, Bool.true_and, Bool.true_and]
      exact checkShareResponse_counts msg.value s.dist.stats
  | _ => exact ⟨rfl, rfl⟩

theorem ResponsesCounted.apply {s : DistLoop} (h : ResponsesCounted s) {msg : StreamMessage}
    {queue : ConcurrentQueue StreamMessage} {other : StratumMessage}
    (hread : readMessage msg.value = .ok other) :
    ResponsesCounted ((s.take msg queue).apply msg other) := by
  obtain ⟨haccepted, hrejected⟩ := (s.take msg queue).apply_counts hread
  exact h.taken (s.taken_apply msg queue other) haccepted hrejected

theorem ResponsesCounted.notify {s : DistLoop} (h : ResponsesCounted s) {msg : StreamMessage}
    {queue : ConcurrentQueue StreamMessage} {clean : Bool} {phase : LoopPhase}
    (hread : readMessage msg.value = .ok (.notify clean)) :
    ResponsesCounted { s.take msg queue with phase } := by
  have hresponse := (notify_of_read hread).2.2
  refine h.taken (s.taken_take msg queue) ?_ ?_
  · rw [StreamMessage.isAcceptance, hresponse]
    rfl
  · rw [StreamMessage.isRejection, hresponse]
    rfl

/-! ## The order of the stream -/

theorem position_of_mem_numberedFrom {m : StreamMessage} : ∀ {stream : List Json} {k : Nat},
    m ∈ numberedFrom k stream → k ≤ m.position ∧ m.value ∈ stream
  | value :: stream, k, h => by
      rcases List.mem_cons.mp h with rfl | h
      · exact ⟨Nat.le_refl k, List.mem_cons_self⟩
      · obtain ⟨hle, hmem⟩ := position_of_mem_numberedFrom h
        exact ⟨Nat.le_of_succ_le hle, List.mem_cons_of_mem _ hmem⟩

theorem numberedFrom_pairwise : ∀ (stream : List Json) (k : Nat),
    (numberedFrom k stream).Pairwise fun a b => a.position < b.position
  | [], _ => List.Pairwise.nil
  | _ :: stream, k =>
      List.Pairwise.cons (fun _ hm => (position_of_mem_numberedFrom hm).1)
        (numberedFrom_pairwise stream (k + 1))

theorem position_le_getLast {l : List StreamMessage} {last m : StreamMessage}
    (hl : l.Pairwise fun a b => a.position < b.position) (hlast : l.getLast? = some last)
    (hm : m ∈ l) : m.position ≤ last.position := by
  obtain ⟨init, rfl⟩ := List.getLast?_eq_some_iff.mp hlast
  rcases List.mem_append.mp hm with hm | hm
  · exact ((List.pairwise_append.mp hl).2.2 m hm last (List.mem_singleton.mpr rfl)).le
  · rw [List.mem_singleton.mp hm]

/-! ## The invariant -/

/-- The current batch: no notify while the loop waits; in the inner loop, the
last one and the flags of all. -/
def BatchInv (s : DistLoop) : Prop :=
  match s.phase with
  | .idle => ∀ m ∈ s.batch, m.isNotify = false
  | .draining latest clean =>
    (s.batch.filter StreamMessage.isNotify).getLast? = some latest ∧
      clean = s.batch.any StreamMessage.isClean

/-- A distributed job: the last notify of its batch, with the flags of all. -/
structure Distribution.OfBatch (extraNonce1 : List UInt8) (d : Distribution) : Prop where
  latest : (d.consumed.filter StreamMessage.isNotify).getLast? = some d.msg
  parsed : ∃ params difficulty, d.msg.value.field "params".toList = .ok params ∧
    ParsedFrom params extraNonce1 difficulty d.task.parsed
  carriesClean : d.task.CarriesClean ↔ ∃ m ∈ d.consumed, m.isClean = true

structure LoopInv (extraNonce1 : List UInt8) (stream : List Json) (s : DistLoop) : Prop where
  arrived : s.arrived ++ s.incoming = numbered stream
  batch : BatchInv s
  jobs : ∀ d ∈ s.distributed, d.OfBatch extraNonce1
  responses : ResponsesCounted s
  active : ∀ j task, s.dist.activeTasks.get j = some task → ∃ d ∈ s.distributed,
    d.jobId = j ∧ d.task.parsed.dispatcherTask = task ∧
      ∀ m ∈ s.finished, m.isClean = true → m.position ≤ d.msg.position

section
variable {extraNonce1 : List UInt8} {stream : List Json} {s : DistLoop}

theorem LoopInv.taken_pairwise (h : LoopInv extraNonce1 stream s) :
    s.taken.Pairwise fun a b => a.position < b.position := by
  have hall := numberedFrom_pairwise stream 0
  rw [← numbered, ← h.arrived] at hall
  exact (List.pairwise_append.mp (List.pairwise_append.mp hall).1).1

theorem LoopInv.mem_stream (h : LoopInv extraNonce1 stream s) {m : StreamMessage}
    (hm : m ∈ s.arrived) : m.value ∈ stream := by
  have hall : m ∈ numbered stream := by
    rw [← h.arrived]
    exact List.mem_append_left _ hm
  exact (position_of_mem_numberedFrom hall).2

/-- The messages at the queue's front and in the batch are of the stream. -/
theorem LoopInv.mem_of_queue (h : LoopInv extraNonce1 stream s) {m : StreamMessage}
    {rest : List StreamMessage} (hqueue : s.queue.items = m :: rest) : m.value ∈ stream :=
  h.mem_stream (List.mem_append_right _ (hqueue ▸ List.mem_cons_self))

theorem LoopInv.latest_mem (h : LoopInv extraNonce1 stream s) {latest : StreamMessage}
    {clean : Bool} (hphase : s.phase = .draining latest clean) :
    latest ∈ s.batch ∧ latest.isNotify = true ∧ clean = s.batch.any StreamMessage.isClean ∧
      (s.batch.filter StreamMessage.isNotify).getLast? = some latest := by
  have hbatch := h.batch
  rw [BatchInv, hphase] at hbatch
  have hmem := List.mem_filter.mp (List.mem_of_getLast? hbatch.1)
  exact ⟨hmem.1, hmem.2, hbatch.2, hbatch.1⟩

/-- While the loop waits, all notifies taken are in finished batches. -/
theorem LoopInv.idle (h : LoopInv extraNonce1 stream s) (hphase : s.phase = .idle) :
    ∀ m ∈ s.batch, m.isNotify = false := by
  have hbatch := h.batch
  rwa [BatchInv, hphase] at hbatch

theorem LoopInv.arrive (h : LoopInv extraNonce1 stream s) {msg : StreamMessage}
    {incoming : List StreamMessage} (hnext : s.incoming = msg :: incoming) :
    LoopInv extraNonce1 stream { s with incoming, queue := s.queue.push msg } := by
  refine ⟨?_, h.batch, h.jobs, ⟨h.responses.accepted, h.responses.rejected⟩, h.active⟩
  have harrived : DistLoop.arrived { s with incoming, queue := s.queue.push msg }
      = s.arrived ++ [msg] := (List.append_assoc s.taken s.queue.items [msg]).symm
  rw [harrived, List.append_assoc, ← h.arrived, hnext]
  rfl

theorem LoopInv.apply (h : LoopInv extraNonce1 stream s) {msg : StreamMessage}
    {queue : ConcurrentQueue StreamMessage} {other : StratumMessage}
    (hqueue : s.queue.items = msg :: queue.items) (hread : readMessage msg.value = .ok other)
    (hother : ∀ clean, other ≠ .notify clean) :
    LoopInv extraNonce1 stream ((s.take msg queue).apply msg other) := by
  obtain ⟨hnotify, hclean⟩ := isNotify_of_read hread hother
  have hframe := (s.take msg queue).apply_sameJobs msg other
  have hfinished : ((s.take msg queue).apply msg other).finished = s.finished := by
    rw [DistLoop.finished, hframe.distributed]
    rfl
  have hbatch : ((s.take msg queue).apply msg other).batch = s.batch ++ [msg] := hframe.batch
  refine ⟨?_, ?_, ?_, h.responses.apply hread, ?_⟩
  · rw [s.arrived_apply other hqueue, hframe.incoming]
    exact h.arrived
  · have hinv := h.batch
    have hphase : ((s.take msg queue).apply msg other).phase = s.phase := hframe.phase
    unfold BatchInv at hinv ⊢
    rw [hphase, hbatch]
    cases hp : s.phase with
    | idle =>
        rw [hp] at hinv
        intro m hm
        rcases List.mem_append.mp hm with hm | hm
        · exact hinv m hm
        · rw [List.mem_singleton.mp hm]
          exact hnotify
    | draining latest clean =>
        rw [hp] at hinv
        simp only [List.filter_append, List.any_append, List.filter_cons, hnotify,
          List.filter_nil, List.append_nil, List.any_cons, hclean, List.any_nil, Bool.or_false,
          Bool.false_eq_true, if_false]
        exact hinv
  · rw [hframe.distributed]
    exact h.jobs
  · rw [hframe.activeTasks, hframe.distributed, hfinished]
    exact h.active

theorem LoopInv.takeNotify (h : LoopInv extraNonce1 stream s) {msg : StreamMessage}
    {queue : ConcurrentQueue StreamMessage} {next clean : Bool}
    (hqueue : s.queue.items = msg :: queue.items)
    (hread : readMessage msg.value = .ok (.notify next))
    (hclean : clean = (s.batch.any StreamMessage.isClean || next)) :
    LoopInv extraNonce1 stream { s.take msg queue with phase := .draining msg clean } := by
  obtain ⟨hnotify, hflag, -⟩ := notify_of_read hread
  refine ⟨?_, ?_, h.jobs, h.responses.notify hread, h.active⟩
  · rw [← h.arrived, ← s.arrived_take hqueue]
    rfl
  · constructor
    · show ((s.batch ++ [msg]).filter StreamMessage.isNotify).getLast? = some msg
      rw [List.filter_append, List.filter_cons_of_pos hnotify, List.filter_nil,
        List.getLast?_append]
      rfl
    · show clean = (s.batch ++ [msg]).any StreamMessage.isClean
      rw [List.any_append, List.any_cons, List.any_nil, hflag, Bool.or_false]
      exact hclean

/-! ## The distribution -/

variable {signTaskPacket : List UInt8 → ByteArr 64}

variable (signTaskPacket) in
/-- The call that ends the inner loop sends its job, with the batch's flag. -/
theorem LoopInv.call_sent (h : LoopInv extraNonce1 stream s)
    (hwell : ∀ value ∈ stream, WellFormedMessage extraNonce1 value) {latest : StreamMessage}
    {clean : Bool} (hphase : s.phase = .draining latest clean) (now : UInt64) :
    ∃ dist task, (s.call extraNonce1 latest clean now).run signTaskPacket s.dist
        = .ok (dist, some task) ∧
      SentFrom signTaskPacket (s.call extraNonce1 latest clean now) s.dist dist clean task := by
  obtain ⟨hmem, hnotify, hclean, -⟩ := h.latest_mem hphase
  have hread := read_of_isNotify hnotify
  have hvalue : latest.value ∈ stream :=
    h.mem_stream (List.mem_append_left _ (List.mem_append_right _ hmem))
  have hmessage := hwell latest.value hvalue
  rw [WellFormedMessage, hread] at hmessage
  obtain ⟨hrequested, dist, task, hrun⟩ := run_wellFormed signTaskPacket
    (c := s.call extraNonce1 latest clean now) hread hmessage s.dist
  obtain ⟨clean', hsent⟩ := run_some signTaskPacket hrun
  -- the latest notify's own flag is among those of the batch
  have hflag : (latest.isClean || clean) = clean := by
    cases hl : latest.isClean with
    | false => rfl
    | true =>
        rw [hclean]
        exact (List.any_eq_true.mpr ⟨latest, hmem, hl⟩).symm
  have hclean' : clean' = clean := by
    rw [hsent.requested] at hrequested
    exact (Except.ok.inj hrequested).trans hflag
  exact ⟨dist, task, hrun, hclean' ▸ hsent⟩

/-- A clean job replaces the active ones; if an old one has survived, no notify of
the batch was clean. -/
theorem LoopInv.active_stored (h : LoopInv extraNonce1 stream s) {latest : StreamMessage}
    {clean : Bool} (hphase : s.phase = .draining latest clean) {now : UInt64}
    {task : DispatcherMiningTask} {d : Distribution} (hmsg : d.msg = latest) (hid : d.jobId = now)
    (htask : d.task.parsed.dispatcherTask = task) {j : UInt64} {active : DispatcherMiningTask}
    (hget : ((s.dist.cleared clean).insert now task).get j = some active) :
    ∃ d' ∈ s.distributed ++ [d], d'.jobId = j ∧ d'.task.parsed.dispatcherTask = active ∧
      ∀ m ∈ s.taken, m.isClean = true → m.position ≤ d'.msg.position := by
  obtain ⟨hmem, -, hclean, hlast⟩ := h.latest_mem hphase
  have hpairwise := h.taken_pairwise
  rw [ConcurrentHashMap.get_insert] at hget
  by_cases hj : j = now
  · -- the new job: the last notify of all that was taken
    rw [if_pos hj] at hget
    refine ⟨d, List.mem_append_right _ (List.mem_singleton.mpr rfl), hid.trans hj.symm,
      htask.trans (Option.some.inj hget), ?_⟩
    intro m hm hmclean
    rw [hmsg]
    rcases List.mem_append.mp hm with hm | hm
    · exact ((List.pairwise_append.mp hpairwise).2.2 m hm latest hmem).le
    · exact position_le_getLast ((List.pairwise_append.mp hpairwise).2.1.filter _) hlast
        (List.mem_filter.mpr ⟨hm, isNotify_of_isClean hmclean⟩)
  · rw [if_neg hj] at hget
    cases hflag : clean with
    | true =>
        rw [hflag] at hget
        cases hget
    | false =>
        rw [hflag] at hget
        obtain ⟨d', hd', hid', htask', hbehind⟩ := h.active j active hget
        refine ⟨d', List.mem_append_left _ hd', hid', htask', ?_⟩
        intro m hm hmclean
        rcases List.mem_append.mp hm with hm | hm
        · exact hbehind m hm hmclean
        · have hany := List.any_eq_true.mpr ⟨m, hm, hmclean⟩
          rw [← hclean, hflag] at hany
          cases hany

theorem LoopInv.distribute (h : LoopInv extraNonce1 stream s) {latest : StreamMessage}
    {clean : Bool} (hphase : s.phase = .draining latest clean) {now : UInt64} {dist : DistState}
    {task : SentTask} (hstats : dist.stats.poolSharesAccepted = s.dist.stats.poolSharesAccepted ∧
      dist.stats.poolSharesRejected = s.dist.stats.poolSharesRejected)
    (hsent : SentFrom signTaskPacket (s.call extraNonce1 latest clean now) s.dist dist clean task) :
    LoopInv extraNonce1 stream { s with
      dist
      phase := .idle
      distributed := s.distributed ++ [⟨latest, now, task, s.batch⟩]
      batch := [] } := by
  obtain ⟨-, -, hclean, hlast⟩ := h.latest_mem hphase
  have hfinished := s.finished_distribute dist latest now task
  have htaken := s.taken_distribute dist latest now task
  refine ⟨?_, fun m hm => absurd hm List.not_mem_nil, ?_, ⟨?_, ?_⟩, ?_⟩
  · rw [DistLoop.arrived, htaken]
    exact h.arrived
  · intro d hd
    rcases List.mem_append.mp hd with hd | hd
    · exact h.jobs d hd
    · rw [List.mem_singleton.mp hd]
      obtain ⟨params, hparams, hparsed⟩ := hsent.parsed
      refine ⟨hlast, ⟨params, _, hparams, hparsed⟩, ?_⟩
      rw [hsent.carriesClean_iff, hsent.requested, ← List.any_eq_true, ← hclean]
      exact ⟨fun hok => Except.ok.inj hok, fun hok => congrArg _ hok⟩
  · rw [htaken, ← h.responses.accepted]
    exact hstats.1
  · rw [htaken, ← h.responses.rejected]
    exact hstats.2
  · intro j active hget
    rw [hfinished]
    dsimp only at hget
    rw [hsent.stored] at hget
    exact h.active_stored hphase rfl rfl rfl hget

theorem run_some_counts {c : NotifyCall} {st st' : DistState} {task : SentTask}
    (h : c.run signTaskPacket st = .ok (st', some task)) :
    st'.stats.poolSharesAccepted = st.stats.poolSharesAccepted ∧
      st'.stats.poolSharesRejected = st.stats.poolSharesRejected := by
  simp only [NotifyCall.run, distributeTask, bind, pure, except_bind_eq_ok] at h
  obtain ⟨params, -, clean, -, outcome, -, h⟩ := h
  cases outcome with
  | ready p built => cases h; exact ⟨rfl, rfl⟩
  | _ => cases h

theorem loopInv_step (hwell : ∀ value ∈ stream, WellFormedMessage extraNonce1 value)
    (s : DistLoop) (e : LoopEvent) (s' : DistLoop) (h : LoopInv extraNonce1 stream s)
    (hs : loopStep signTaskPacket extraNonce1 s e = some s') : LoopInv extraNonce1 stream s' := by
  cases loopStep_cases hs with
  | arrive hnext => exact h.arrive hnext
  | apply hqueue hread hother => exact h.apply hqueue hread hother
  | popNotify hphase hqueue hread =>
      refine h.takeNotify hqueue hread ?_
      have hnone : s.batch.any StreamMessage.isClean = false := by
        rw [← Bool.not_eq_true, List.any_eq_true]
        rintro ⟨m, hm, hclean⟩
        have hnotify := isNotify_of_isClean hclean
        rw [h.idle hphase m hm] at hnotify
        cases hnotify
      rw [hnone, Bool.false_or]
  | drainNotify hphase hqueue hread =>
      obtain ⟨-, -, hclean, -⟩ := h.latest_mem hphase
      exact h.takeNotify hqueue hread (by rw [hclean])
  | @drop now latest clean dist hphase hqueue hrun =>
      obtain ⟨dist', task, hsent, -⟩ :=
        h.call_sent signTaskPacket hwell hphase now
      rw [hrun] at hsent
      cases hsent
  | @distribute now latest clean dist task hphase hqueue hrun =>
      obtain ⟨dist', task', hrun', hsent⟩ :=
        h.call_sent signTaskPacket hwell hphase now
      rw [hrun] at hrun'
      cases hrun'
      exact h.distribute hphase (run_some_counts hrun) hsent

theorem loopInv_initial (extraNonce1 : List UInt8) (stream : List Json) :
    LoopInv extraNonce1 stream (.initial stream) where
  arrived := rfl
  batch := fun _ hm => absurd hm List.not_mem_nil
  jobs := fun _ hd => absurd hd List.not_mem_nil
  responses := ⟨rfl, rfl⟩
  active := fun _ _ hget => nomatch hget

end

/-! ## Soundness -/

/-- What the distributed jobs of a stream are. -/
structure Coalesced (signTaskPacket : List UInt8 → ByteArr 64) (extraNonce1 : List UInt8)
    (stream : List Json) (s : DistLoop) : Prop where
  arrived : s.arrived ++ s.incoming = numbered stream
  /-- Each job is an occurrence of a notify, none twice, in order. -/
  subsequence : (s.distributed.map Distribution.msg).Sublist
    ((numbered stream).filter StreamMessage.isNotify)
  /-- Waiting on an empty queue, the last job is the last notify. -/
  latest : s.phase = .idle → s.queue.items = [] →
    (s.distributed.map Distribution.msg).getLast?
      = (s.arrived.filter StreamMessage.isNotify).getLast?
  /-- At any time, it is the last of the finished batches. -/
  latestFinished : (s.distributed.map Distribution.msg).getLast?
    = (s.finished.filter StreamMessage.isNotify).getLast?
  /-- A packet is that of its notify and carries the flags of its batch. -/
  packets : ∀ d ∈ s.distributed, d.OfBatch extraNonce1
  /-- Every response taken was counted, as what it says. -/
  responses : ResponsesCounted s
  counted : s.dist.stats.poolSharesAccepted + s.dist.stats.poolSharesRejected
    = s.taken.countP StreamMessage.isResponse
  /-- While the loop waits, no active job is older than a clean notify taken. -/
  active : s.phase = .idle → ∀ j task, s.dist.activeTasks.get j = some task →
    ∃ d ∈ s.distributed, d.jobId = j ∧ d.task.parsed.dispatcherTask = task ∧
      ∀ m ∈ s.taken, m.isClean = true → m.position ≤ d.msg.position
  /-- At any time, none is older than a clean notify of a finished batch. -/
  activeFinished : ∀ j task, s.dist.activeTasks.get j = some task → ∃ d ∈ s.distributed,
    d.jobId = j ∧ d.task.parsed.dispatcherTask = task ∧
      ∀ m ∈ s.finished, m.isClean = true → m.position ≤ d.msg.position
  /-- No exception: a message can be taken, and the inner loop ends. -/
  alive : (s.phase = .idle → s.queue.items ≠ [] →
      (loopStep signTaskPacket extraNonce1 s .pop).isSome) ∧
    ∀ latest clean now, s.phase = .draining latest clean →
      (loopStep signTaskPacket extraNonce1 s (.tryPop now)).isSome

theorem sublist_flatMap {α β : Type} {f : α → β} {g : α → List β} : ∀ {l : List α},
    (∀ x ∈ l, [f x].Sublist (g x)) → (l.map f).Sublist (l.flatMap g)
  | [], _ => List.Sublist.refl _
  | x :: l, h => by
      have hhead := h x List.mem_cons_self
      have htail := sublist_flatMap fun y hy => h y (List.mem_cons_of_mem _ hy)
      rw [List.map_cons, List.flatMap_cons]
      exact hhead.append htail

section
variable {extraNonce1 : List UInt8} {stream : List Json} {s : DistLoop}

theorem LoopInv.subsequence (h : LoopInv extraNonce1 stream s) :
    (s.distributed.map Distribution.msg).Sublist
      ((numbered stream).filter StreamMessage.isNotify) := by
  have heach : ∀ d ∈ s.distributed,
      [d.msg].Sublist (d.consumed.filter StreamMessage.isNotify) := by
    intro d hd
    obtain ⟨init, hinit⟩ := List.getLast?_eq_some_iff.mp (h.jobs d hd).latest
    rw [hinit]
    exact List.sublist_append_right init [d.msg]
  have hfinished : (s.distributed.flatMap fun d => d.consumed.filter StreamMessage.isNotify)
      = s.finished.filter StreamMessage.isNotify := by
    rw [DistLoop.finished, List.filter_flatMap]
  have hbegin : s.finished.Sublist (numbered stream) := by
    rw [← h.arrived, DistLoop.arrived, DistLoop.taken, List.append_assoc, List.append_assoc]
    exact List.sublist_append_left _ _
  exact (hfinished ▸ sublist_flatMap heach).trans (hbegin.filter _)

theorem LoopInv.getLast_distributed (h : LoopInv extraNonce1 stream s) :
    (s.distributed.map Distribution.msg).getLast?
      = (s.finished.filter StreamMessage.isNotify).getLast? := by
  rcases List.eq_nil_or_concat s.distributed with hnil | ⟨init, d, hinit⟩
  · rw [DistLoop.finished, hnil]
    rfl
  · have hd : d ∈ s.distributed := by
      rw [hinit, List.concat_eq_append]
      exact List.mem_append_right _ (List.mem_singleton.mpr rfl)
    rw [DistLoop.finished, hinit, List.concat_eq_append, List.map_append, List.flatMap_append,
      List.filter_append, List.getLast?_append, List.getLast?_append]
    have hlast := (h.jobs d hd).latest
    simp only [List.flatMap_cons, List.flatMap_nil, List.append_nil, hlast, List.map_cons,
      List.map_nil, List.getLast?_singleton, Option.some_or]

theorem countP_isResponse {messages : List StreamMessage}
    (hwell : ∀ m ∈ messages, WellFormedMessage extraNonce1 m.value) :
    messages.countP StreamMessage.isAcceptance + messages.countP StreamMessage.isRejection
      = messages.countP StreamMessage.isResponse := by
  induction messages with
  | nil => rfl
  | cons m rest ih =>
      have hrest := ih fun m' hm' => hwell m' (List.mem_cons_of_mem _ hm')
      have hm := hwell m List.mem_cons_self
      simp only [List.countP_cons, ← hrest]
      have hone : (if m.isAcceptance = true then 1 else 0) + (if m.isRejection = true then 1 else 0)
          = if m.isResponse = true then 1 else 0 := by
        unfold StreamMessage.isAcceptance StreamMessage.isRejection
        cases hr : m.isResponse with
        | false => rfl
        | true =>
            unfold StreamMessage.isResponse at hr
            unfold WellFormedMessage at hm
            split at hr
            next hread =>
              rw [hread] at hm
              cases he : hasError m.value with
              | true => rfl
              | false =>
                  rw [he] at hm
                  rw [hm.resolve_left (by simp)]
                  rfl
            next => cases hr
      omega

theorem readMessage_wellFormed {value : Json} (h : WellFormedMessage extraNonce1 value) :
    ∃ message, readMessage value = .ok message := by
  unfold WellFormedMessage at h
  split at h
  · exact h.elim
  all_goals exact ⟨_, by assumption⟩

theorem LoopInv.alive {signTaskPacket : List UInt8 → ByteArr 64}
    (hwell : ∀ value ∈ stream, WellFormedMessage extraNonce1 value)
    (h : LoopInv extraNonce1 stream s) :
    (s.phase = .idle → s.queue.items ≠ [] →
      (loopStep signTaskPacket extraNonce1 s .pop).isSome) ∧
    ∀ latest clean now, s.phase = .draining latest clean →
      (loopStep signTaskPacket extraNonce1 s (.tryPop now)).isSome := by
  constructor
  · intro hphase hqueue
    obtain ⟨msg, rest, hitems⟩ := List.exists_cons_of_ne_nil hqueue
    have hpop : s.queue.tryPop = some (msg, ⟨rest⟩) := ConcurrentQueue.tryPop_eq_some.mpr hitems
    obtain ⟨message, hread⟩ := readMessage_wellFormed (hwell _ (h.mem_of_queue hitems))
    simp only [loopStep, hphase, hpop, hread]
    cases message <;> rfl
  · intro latest clean now hphase
    cases hitems : s.queue.items with
    | nil =>
        have hpop : s.queue.tryPop = none := ConcurrentQueue.tryPop_eq_none.mpr hitems
        obtain ⟨dist, task, hrun, -⟩ :=
          h.call_sent signTaskPacket hwell hphase now
        simp only [loopStep, hphase, hpop, hrun, Option.isSome_some]
    | cons msg rest =>
        have hpop : s.queue.tryPop = some (msg, ⟨rest⟩) :=
          ConcurrentQueue.tryPop_eq_some.mpr hitems
        obtain ⟨message, hread⟩ := readMessage_wellFormed (hwell _ (h.mem_of_queue hitems))
        simp only [loopStep, hphase, hpop, hread]
        cases message <;> rfl

theorem LoopInv.coalesced {signTaskPacket : List UInt8 → ByteArr 64}
    (hwell : ∀ value ∈ stream, WellFormedMessage extraNonce1 value)
    (h : LoopInv extraNonce1 stream s) : Coalesced signTaskPacket extraNonce1 stream s where
  arrived := h.arrived
  subsequence := h.subsequence
  latest := by
    intro hphase hqueue
    have hbatch : s.batch.filter StreamMessage.isNotify = [] :=
      List.filter_eq_nil_iff.mpr fun m hm => by simp [h.idle hphase m hm]
    rw [h.getLast_distributed, DistLoop.arrived, DistLoop.taken, hqueue, List.append_nil,
      List.filter_append, hbatch, List.append_nil]
  latestFinished := h.getLast_distributed
  packets := h.jobs
  responses := h.responses
  counted := by
    rw [h.responses.accepted, h.responses.rejected]
    exact countP_isResponse fun m hm =>
      hwell _ (h.mem_stream (List.mem_append_left _ hm))
  active := by
    intro hphase j task hget
    obtain ⟨d, hd, hid, htask, hbehind⟩ := h.active j task hget
    refine ⟨d, hd, hid, htask, fun m hm hclean => ?_⟩
    rcases List.mem_append.mp hm with hm | hm
    · exact hbehind m hm hclean
    · have hnotify := isNotify_of_isClean hclean
      rw [h.idle hphase m hm] at hnotify
      cases hnotify
  activeFinished := h.active
  alive := h.alive hwell

/-- **Coalescing is sound.**  For every stream of well-formed messages and every
interleaving of their arrival with the loop. -/
theorem coalesced_always (signTaskPacket : List UInt8 → ByteArr 64) (extraNonce1 : List UInt8)
    (stream : List Json) (hwell : ∀ value ∈ stream, WellFormedMessage extraNonce1 value)
    (run : List LoopEvent) :
    Run.Always (loopStep signTaskPacket extraNonce1)
      (Coalesced signTaskPacket extraNonce1 stream) (.initial stream) run := by
  have hinv : Run.Always (loopStep signTaskPacket extraNonce1) (LoopInv extraNonce1 stream)
      (.initial stream) run :=
    Run.always_of_step (loopInv_step hwell) (loopInv_initial extraNonce1 stream)
  exact hinv.mono fun _ h => h.coalesced hwell

end

/-! ## A job, a response, a clean job -/

def sampleResponse : Json :=
  .object [("id".toList, .unsigned 4), ("result".toList, .boolean true), ("error".toList, .null)]

def sampleStream : List Json :=
  [stratumNotification "mining.set_difficulty".toList [.unsigned 65536], jobA, sampleResponse,
    cleanJob]

theorem sampleStream_wellFormed :
    ∀ value ∈ sampleStream, WellFormedMessage [1, 2, 3, 4] value := by
  have hnotify : ∀ taskId clean,
      WellFormedNotify [1, 2, 3, 4] (sampleNotifyOf taskId samplePrevHash clean) := by
    intro taskId clean
    exact ⟨_, rfl, ⟨_, rfl⟩, fun difficulty => ⟨_, rfl, Nat.le_of_ble_eq_true rfl⟩⟩
  intro value hvalue
  simp only [sampleStream, List.mem_cons, List.not_mem_nil, or_false] at hvalue
  rcases hvalue with rfl | rfl | rfl | rfl
  · exact trivial
  · exact hnotify _ _
  · exact Or.inr rfl
  · exact hnotify _ _

/-- The response comes while the inner loop runs. -/
def sampleLoopRun : List LoopEvent :=
  [.arrive, .arrive, .pop, .pop, .arrive, .tryPop 1, .tryPop 2, .arrive, .pop, .tryPop 3]

theorem coalesced_always_sample :
    ∃ s, Run.exec (loopStep (fun _ => ByteArr.fill 64 0xab) [1, 2, 3, 4]) (.initial sampleStream)
        sampleLoopRun = some s ∧
      s.distributed.map (fun d => d.msg.position) = [1, 3] ∧
      Coalesced (fun _ => ByteArr.fill 64 0xab) [1, 2, 3, 4] sampleStream s := by
  have hlast : ∃ s, Run.exec (loopStep (fun _ => ByteArr.fill 64 0xab) [1, 2, 3, 4])
      (.initial sampleStream) sampleLoopRun = some s ∧
      s.distributed.map (fun d => d.msg.position) = [1, 3] := ⟨_, rfl, rfl⟩
  obtain ⟨s, hs, hpositions⟩ := hlast
  exact ⟨s, hs, hpositions,
    (coalesced_always _ _ sampleStream sampleStream_wellFormed sampleLoopRun).exec hs⟩

/-- The last two clauses without "while the loop waits". -/
def LatestDistributed (s : DistLoop) : Prop :=
  s.queue.items = [] → (s.distributed.map Distribution.msg).getLast?
    = (s.arrived.filter StreamMessage.isNotify).getLast?

def NoOlderActive (s : DistLoop) : Prop :=
  ∀ j task, s.dist.activeTasks.get j = some task → ∃ d ∈ s.distributed,
    d.jobId = j ∧ ∀ m ∈ s.taken, m.isClean = true → m.position ≤ d.msg.position

/-- The clean job has been taken and the queue is empty; the job before it is
the last that was distributed, and active. -/
theorem draining_lags :
    ¬ Run.Always (loopStep (fun _ => ByteArr.fill 64 0xab) [1, 2, 3, 4]) LatestDistributed
        (.initial sampleStream) (sampleLoopRun.take 9) ∧
    ¬ Run.Always (loopStep (fun _ => ByteArr.fill 64 0xab) [1, 2, 3, 4]) NoOlderActive
        (.initial sampleStream) (sampleLoopRun.take 9) := by
  have hlast : ∃ s, Run.exec (loopStep (fun _ => ByteArr.fill 64 0xab) [1, 2, 3, 4])
      (.initial sampleStream) (sampleLoopRun.take 9) = some s ∧ s.queue.items = [] ∧
      (s.dist.activeTasks.get 2).isSome ∧
      s.distributed.map (fun d => (d.jobId, d.msg.position)) = [(2, 1)] ∧
      (s.arrived.filter StreamMessage.isNotify).map StreamMessage.position = [1, 3] ∧
      (s.taken.filter StreamMessage.isClean).map StreamMessage.position = [3] :=
    ⟨_, rfl, rfl, rfl, rfl, rfl, rfl⟩
  obtain ⟨s, hs, hqueue, hactive, hjobs, harrived, hclean⟩ := hlast
  constructor
  · intro h
    have hlatest := congrArg (Option.map StreamMessage.position) (h.exec hs hqueue)
    have hpositions := congrArg (List.map Prod.snd) hjobs
    rw [List.map_map] at hpositions
    rw [← List.getLast?_map, ← List.getLast?_map, harrived, List.map_map] at hlatest
    exact absurd (hlatest.symm.trans (congrArg List.getLast? hpositions)) (by decide)
  · intro h
    obtain ⟨task, htask⟩ := Option.isSome_iff_exists.mp hactive
    obtain ⟨d, hd, -, hbehind⟩ := h.exec hs 2 task htask
    have hmem := List.mem_map_of_mem (f := fun d : Distribution => (d.jobId, d.msg.position)) hd
    rw [hjobs] at hmem
    have hposition : d.msg.position = 1 := congrArg Prod.snd (List.mem_singleton.mp hmem)
    have hthree : 3 ∈ (s.taken.filter StreamMessage.isClean).map StreamMessage.position := by
      rw [hclean]
      exact List.mem_singleton.mpr rfl
    obtain ⟨m, hm, hm3⟩ := List.mem_map.mp hthree
    obtain ⟨hm, hmclean⟩ := List.mem_filter.mp hm
    have hle := hbehind m hm hmclean
    rw [hm3, hposition] at hle
    exact absurd hle (by decide)

end DogeConnect
