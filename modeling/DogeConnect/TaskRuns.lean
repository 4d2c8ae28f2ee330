/-
Runs of `distributeTask`: which task stands under which job id.

Each call is made with some notify, the difficulty, the first nonce, the flag of
the jobs skipped before it and a reading of the clock, all arbitrary: the clock
may stand still or go back.  A call clears `activeTasks` if the job is clean,
and stores its task under the reading once the packet is out.

Three ghost fields are kept: every packet sent, those sent since the last
clear, and whether a clean job was dropped after the last packet.

A task overwrites an active one exactly when its packet goes out at a reading
that is an active job id (`noOverwrite_iff`); an active job id belongs to one
packet, whose task is the one looked up for its solutions, exactly when no
packet goes out at a reading that an earlier one had (`onePacket_iff`).
-/
import DogeConnect.TaskPacket
import DogeConnect.ShareValid
import DogeConnect.Lib.Run

namespace DogeConnect

/-! ## Calls -/

/-- The flag of a notify or of the jobs skipped before it. -/
def cleanRequested (msg : Json) (propagateCleanJobFlag : Bool) : Except JsonError Bool := do
  cleanFlag (← msg.field "params".toList) propagateCleanJobFlag

/-- The arguments of a call, and the clock. -/
structure NotifyCall where
  msg : Json
  currentPoolDifficulty : DifficultyTarget
  extraNonce1 : List UInt8
  propagateCleanJobFlag : Bool
  now : UInt64

/-- A packet that was sent. -/
structure SentPacket where
  jobId : UInt64
  difficulty : DifficultyTarget
  cleanJobQueue : Bool
  task : SentTask

structure DistSystem where
  dist : DistState
  /-- Ghost: every packet, the last first. -/
  packets : List SentPacket
  /-- Ghost: the packets since the last clear. -/
  live : List SentPacket
  /-- Ghost: a clean job was dropped after the last packet. -/
  droppedClean : Bool

/-- Nothing distributed; the buffer is static. -/
def DistSystem.initial : DistSystem := ⟨⟨.empty, .initial, ByteArr.fill _ 0⟩, [], [], false⟩

section
variable (signTaskPacket : List UInt8 → ByteArr 64)

/-- The call itself. -/
def NotifyCall.run (c : NotifyCall) (st : DistState) :
    Except JsonError (DistState × Option SentTask) :=
  distributeTask signTaskPacket c.msg st c.currentPoolDifficulty c.extraNonce1
    c.propagateCleanJobFlag c.now

/-- The packet of a call that sends one. -/
def NotifyCall.packet (c : NotifyCall) (cleanJobQueue : Bool) (task : SentTask) : SentPacket :=
  ⟨c.now, c.currentPoolDifficulty, cleanJobQueue, task⟩

/-- One call; an exception ends the process. -/
def callStep (s : DistSystem) (c : NotifyCall) : Option DistSystem :=
  match cleanRequested c.msg c.propagateCleanJobFlag, c.run signTaskPacket s.dist with
  | .ok clean, .ok (dist, none) =>
    some { s with
      dist
      live := if clean then [] else s.live
      droppedClean := s.droppedClean || clean }
  | .ok clean, .ok (dist, some task) =>
    some {
      dist
      packets := c.packet clean task :: s.packets
      live := c.packet clean task :: if clean then [] else s.live
      droppedClean := false }
  | _, _ => none

/-! ## What a call can do -/

/-- `activeTasks` after the clear. -/
def DistState.cleared (st : DistState) (clean : Bool) :
    ConcurrentHashMap UInt64 DispatcherMiningTask :=
  if clean then st.activeTasks.clear else st.activeTasks

/-- A return without a packet has cleared the active tasks if the job was clean,
and done nothing else that other threads see. -/
theorem run_none {c : NotifyCall} {st st' : DistState}
    (h : c.run signTaskPacket st = .ok (st', none)) :
    ∃ clean, cleanRequested c.msg c.propagateCleanJobFlag = .ok clean ∧
      st'.activeTasks = st.cleared clean ∧ st'.stats = st.stats := by
  simp only [NotifyCall.run, distributeTask, bind, pure, except_bind_eq_ok] at h
  obtain ⟨params, hparams, clean, hclean, outcome, -, h⟩ := h
  have hrequested : cleanRequested c.msg c.propagateCleanJobFlag = .ok clean := by
    simp only [cleanRequested, hparams, except_ok_bind, hclean]
  refine ⟨clean, hrequested, ?_⟩
  cases outcome with
  | wrongSize => cases h; exact ⟨rfl, rfl⟩
  | tooLarge => cases h; exact ⟨rfl, rfl⟩
  | offsetMismatch built => cases h; exact ⟨rfl, rfl⟩
  | ready p built => cases h

/-- A call that sent a packet has stored its task. -/
structure SentFrom (c : NotifyCall) (st st' : DistState) (clean : Bool) (task : SentTask) :
    Prop where
  requested : cleanRequested c.msg c.propagateCleanJobFlag = .ok clean
  stored : st'.activeTasks = (st.cleared clean).insert c.now task.parsed.dispatcherTask
  parsed : ∃ params, c.msg.field "params".toList = .ok params ∧
    ParsedFrom params c.extraNonce1 c.currentPoolDifficulty task.parsed
  roundTrip : RoundTrip signTaskPacket c.currentPoolDifficulty.compactRep clean c.now task
  dispatcherDifficulty : task.dispatcherDifficulty = c.currentPoolDifficulty.compactRep

theorem run_some {c : NotifyCall} {st st' : DistState} {task : SentTask}
    (h : c.run signTaskPacket st = .ok (st', some task)) :
    ∃ clean, SentFrom signTaskPacket c st st' clean task := by
  obtain ⟨params, clean, hparams, hclean, hready, hactive⟩ :=
    distributeTask_some signTaskPacket h
  have hparsed := parseTask_spec (prepareTask_ready signTaskPacket hready).1
  refine ⟨clean, ?_, hactive, ⟨params, hparams, hparsed⟩, roundTrip_of_ready hready,
    dispatcherDifficulty_of_ready hready⟩
  simp only [cleanRequested, hparams, except_ok_bind, hclean]

/-- What a notify needs to be sent: fields of the right sizes and a packet that
fits. -/
def NotifyCall.Sendable (c : NotifyCall) : Prop :=
  ∃ params clean p, c.msg.field "params".toList = .ok params ∧
    cleanFlag params c.propagateCleanJobFlag = .ok clean ∧
    parseTask params c.extraNonce1 c.currentPoolDifficulty = .ok (some p) ∧
    totalNumBytes p.dispatcherTask ≤ packetBufferSize

theorem run_some_iff (c : NotifyCall) (st : DistState) :
    (∃ st' task, c.run signTaskPacket st = .ok (st', some task)) ↔ c.Sendable := by
  constructor
  · rintro ⟨st', task, h⟩
    obtain ⟨params, clean, hparams, hclean, hready, -⟩ := distributeTask_some signTaskPacket h
    obtain ⟨hparse, hsize, -⟩ := prepareTask_ready signTaskPacket hready
    exact ⟨params, clean, task.parsed, hparams, hclean, hparse, hsize⟩
  · rintro ⟨params, clean, p, hparams, hclean, hparse, hsize⟩
    simp only [NotifyCall.run, distributeTask, hparams, except_ok_bind, hclean, prepareTask, hparse,
      if_neg (Nat.not_lt.mpr hsize), buildPacket_offset, ne_eq, not_true_eq_false, if_false]
    exact ⟨_, _, rfl⟩

/-- The miner reads the clean flag off the packet. -/
def SentTask.CarriesClean (task : SentTask) : Prop :=
  ∃ received, receiveTask (task.packet.drop RequestResponseHeader.layout.width)
      (task.packet.length - RequestResponseHeader.layout.width : Nat) = some received ∧
    received.cleanJobQueue = true

variable {signTaskPacket} in
theorem SentFrom.carriesClean_iff {c : NotifyCall} {st st' : DistState} {clean : Bool}
    {task : SentTask} (h : SentFrom signTaskPacket c st st' clean task) :
    task.CarriesClean ↔ cleanRequested c.msg c.propagateCleanJobFlag = .ok true := by
  have hdecoded := h.roundTrip.decoded []
  rw [List.append_nil] at hdecoded
  rw [SentTask.CarriesClean, hdecoded, h.requested]
  constructor
  · rintro ⟨received, hreceived, hclean⟩
    cases hreceived
    exact congrArg _ hclean
  · intro hclean
    exact ⟨_, rfl, Except.ok.inj hclean⟩

inductive CallStep (s : DistSystem) (c : NotifyCall) : DistSystem → Prop
  | dropped {dist : DistState} {clean : Bool} (hrun : c.run signTaskPacket s.dist = .ok (dist, none))
      (hclean : cleanRequested c.msg c.propagateCleanJobFlag = .ok clean)
      (hactive : dist.activeTasks = s.dist.cleared clean) (hstats : dist.stats = s.dist.stats) :
      CallStep s c { s with
        dist
        live := if clean then [] else s.live
        droppedClean := s.droppedClean || clean }
  | sent {dist : DistState} {clean : Bool} {task : SentTask}
      (hrun : c.run signTaskPacket s.dist = .ok (dist, some task))
      (hsent : SentFrom signTaskPacket c s.dist dist clean task) :
      CallStep s c {
        dist
        packets := c.packet clean task :: s.packets
        live := c.packet clean task :: if clean then [] else s.live
        droppedClean := false }

variable {signTaskPacket}

theorem callStep_cases {s s' : DistSystem} {c : NotifyCall}
    (h : callStep signTaskPacket s c = some s') : CallStep signTaskPacket s c s' := by
  unfold callStep at h
  split at h
  next clean dist hclean hrun =>
    cases h
    obtain ⟨clean', hclean', hactive, hstats⟩ := run_none signTaskPacket hrun
    rw [hclean] at hclean'
    cases hclean'
    exact .dropped hrun hclean hactive hstats
  next clean dist task hclean hrun =>
    cases h
    obtain ⟨clean', hsent⟩ := run_some signTaskPacket hrun
    have hclean' := hsent.requested
    rw [hclean] at hclean'
    cases hclean'
    exact .sent hrun hsent
  next => cases h

theorem callStep_isSome {s : DistSystem} {c : NotifyCall} {dist : DistState}
    {task : Option SentTask} (h : c.run signTaskPacket s.dist = .ok (dist, task)) :
    (callStep signTaskPacket s c).isSome := by
  cases task with
  | none =>
      obtain ⟨clean, hclean, -, -⟩ := run_none signTaskPacket h
      simp only [callStep, hclean, h, Option.isSome_some]
  | some task =>
      obtain ⟨clean, hsent⟩ := run_some signTaskPacket h
      simp only [callStep, hsent.requested, h, Option.isSome_some]

/-! ## Overwritten tasks -/

/-- The packets whose tasks were stored and not cleared have different job ids. -/
def NoOverwrite (s : DistSystem) : Prop := (s.live.map SentPacket.jobId).Nodup

/-- The keys of `activeTasks` are the job ids of the live packets. -/
structure KeysInv (s : DistSystem) : Prop where
  keys : ∀ j, s.dist.activeTasks.get j ≠ none ↔ j ∈ s.live.map SentPacket.jobId
  sent : s.live ⊆ s.packets

theorem keysInv_initial : KeysInv .initial :=
  ⟨fun _ => ⟨fun h => absurd rfl h, fun h => absurd h List.not_mem_nil⟩, List.nil_subset _⟩

theorem KeysInv.cleared {s : DistSystem} (h : KeysInv s) (clean : Bool) (j : UInt64) :
    (s.dist.cleared clean).get j ≠ none
      ↔ j ∈ (if clean then [] else s.live).map SentPacket.jobId := by
  cases clean with
  | true => exact ⟨fun hget => absurd rfl hget, fun hmem => absurd hmem List.not_mem_nil⟩
  | false => exact h.keys j

theorem live_cleared_sublist (s : DistSystem) (clean : Bool) :
    (if clean then [] else s.live).Sublist s.live := by
  cases clean with
  | true => exact List.nil_sublist _
  | false => exact List.Sublist.refl _

theorem keysInv_step {s s' : DistSystem} {c : NotifyCall} (h : KeysInv s)
    (hs : callStep signTaskPacket s c = some s') : KeysInv s' := by
  cases callStep_cases hs with
  | @dropped dist clean hrun hclean hactive hstats =>
      refine ⟨fun j => ?_, fun p hp => h.sent ((live_cleared_sublist s clean).subset hp)⟩
      dsimp only
      rw [hactive]
      exact h.cleared clean j
  | @sent dist clean task hrun hsent =>
      refine ⟨fun j => ?_, fun p hp => ?_⟩
      · dsimp only
        rw [hsent.stored, ConcurrentHashMap.get_insert, List.map_cons, List.mem_cons,
          ← h.cleared clean j]
        by_cases hj : j = c.now
        · simp [hj, NotifyCall.packet]
        · simp [hj, NotifyCall.packet]
      · rcases List.mem_cons.mp hp with rfl | hp
        · exact List.mem_cons_self
        · exact List.mem_cons_of_mem _ (h.sent ((live_cleared_sublist s clean).subset hp))

variable (signTaskPacket) in
/-- No packet goes out at a reading that is an active job id. -/
def InactiveReading (s : DistSystem) (c : NotifyCall) : Prop :=
  ∀ dist task clean, c.run signTaskPacket s.dist = .ok (dist, some task) →
    cleanRequested c.msg c.propagateCleanJobFlag = .ok clean →
    (s.dist.cleared clean).get c.now = none

theorem noOverwrite_step (s : DistSystem) (c : NotifyCall) (s' : DistSystem) (h : KeysInv s)
    (hq : NoOverwrite s) (hs : callStep signTaskPacket s c = some s') :
    (NoOverwrite s' ↔ InactiveReading signTaskPacket s c) ∧ (NoOverwrite s' → KeysInv s') := by
  refine ⟨?_, fun _ => keysInv_step h hs⟩
  cases callStep_cases hs with
  | @dropped dist clean hrun hclean hactive hstats =>
      constructor
      · intro _ dist' task _ hrun'
        rw [hrun] at hrun'
        cases hrun'
      · intro _
        exact hq.sublist ((live_cleared_sublist s clean).map _)
  | @sent dist clean task hrun hsent =>
      have hkept : ((if clean then [] else s.live).map SentPacket.jobId).Nodup :=
        hq.sublist ((live_cleared_sublist s clean).map _)
      have hcons : NoOverwrite {
            dist
            packets := c.packet clean task :: s.packets
            live := c.packet clean task :: if clean then [] else s.live
            droppedClean := false }
          ↔ (s.dist.cleared clean).get c.now = none := by
        have hjob : (c.packet clean task).jobId = c.now := rfl
        rw [NoOverwrite, List.map_cons, List.nodup_cons, and_iff_left hkept, hjob,
          ← not_iff_not.mpr (h.cleared clean c.now), not_not]
      rw [hcons]
      constructor
      · intro hnone dist' task' clean' _ hclean'
        rw [hsent.requested] at hclean'
        cases hclean'
        exact hnone
      · intro hreading
        exact hreading dist task clean hrun hsent.requested

/-! ## One packet for each job -/

/-- What a packet says and a stored task is: the miner's decoder reads the task
off the packet, and a solution's header is built around the same fields. -/
structure PacketOf (signTaskPacket : List UInt8 → ByteArr 64) (j : UInt64) (p : SentPacket)
    (task : DispatcherMiningTask) : Prop where
  stored : task = p.task.parsed.dispatcherTask
  decoded : RoundTrip signTaskPacket p.difficulty.compactRep p.cleanJobQueue j p.task
  target : task.targetPool = p.difficulty.fullRep
  header : ∀ sol, fullHeader task sol
    = p.task.parsed.version.toList ++ p.task.parsed.prevHash.toList ++ sol.merkleRoot.toList
      ++ sol.nTime.toList ++ p.task.parsed.nbits.toList ++ sol.nonce.toList

variable (signTaskPacket) in
/-- The task looked up for a job id is that of the one packet sent with it. -/
def OnePacket (s : DistSystem) : Prop := ∀ j task, s.dist.activeTasks.get j = some task →
  ∃ p, s.packets.filter (·.jobId = j) = [p] ∧ PacketOf signTaskPacket j p task

variable (signTaskPacket) in
/-- No packet goes out at a reading that an earlier one had. -/
def FreshReading (s : DistSystem) (c : NotifyCall) : Prop :=
  ∀ dist task, c.run signTaskPacket s.dist = .ok (dist, some task) →
    c.now ∉ s.packets.map SentPacket.jobId

theorem SentFrom.packetOf {c : NotifyCall} {st st' : DistState} {clean : Bool} {task : SentTask}
    (h : SentFrom signTaskPacket c st st' clean task) :
    PacketOf signTaskPacket c.now (c.packet clean task) task.parsed.dispatcherTask := by
  obtain ⟨params, -, hparsed⟩ := h.parsed
  refine ⟨rfl, h.roundTrip, hparsed.targetPool, fun sol => ?_⟩
  rw [fullHeader, hparsed.partialHeader, hparsed.nBits]
  rfl

theorem filter_packets_of_ne {p : SentPacket} {packets : List SentPacket} {j : UInt64}
    (h : j ≠ p.jobId) :
    (p :: packets).filter (·.jobId = j) = packets.filter (·.jobId = j) :=
  List.filter_cons_of_neg (by simpa using Ne.symm h)

theorem filter_packets_eq_nil {packets : List SentPacket} {j : UInt64} :
    packets.filter (·.jobId = j) = [] ↔ j ∉ packets.map SentPacket.jobId := by
  rw [List.filter_eq_nil_iff, List.mem_map]
  constructor
  · rintro h ⟨p, hp, rfl⟩
    exact h p hp (decide_eq_true rfl)
  · intro h p hp hj
    exact h ⟨p, hp, of_decide_eq_true hj⟩

theorem OnePacket.cleared {s : DistSystem} (h : OnePacket signTaskPacket s) {clean : Bool}
    {j : UInt64} {task : DispatcherMiningTask} (hget : (s.dist.cleared clean).get j = some task) :
    ∃ p, s.packets.filter (·.jobId = j) = [p] ∧ PacketOf signTaskPacket j p task := by
  cases clean with
  | true => cases hget
  | false => exact h j task hget

theorem onePacket_step {s s' : DistSystem} {c : NotifyCall} (hq : OnePacket signTaskPacket s)
    (hs : callStep signTaskPacket s c = some s') :
    OnePacket signTaskPacket s' ↔ FreshReading signTaskPacket s c := by
  cases callStep_cases hs with
  | @dropped dist clean hrun hclean hactive hstats =>
      constructor
      · intro _ dist' task hrun'
        rw [hrun] at hrun'
        cases hrun'
      · intro _ j task hget
        dsimp only at hget
        rw [hactive] at hget
        exact hq.cleared hget
  | @sent dist clean task hrun hsent =>
      constructor
      · intro hone dist' task' _
        have hstored : dist.activeTasks.get c.now = some task.parsed.dispatcherTask := by
          rw [hsent.stored, ConcurrentHashMap.get_insert_self]
        obtain ⟨p, hp, -⟩ := hone c.now _ hstored
        rw [List.filter_cons_of_pos (by exact decide_eq_true rfl)] at hp
        exact filter_packets_eq_nil.mp (List.cons.inj hp).2
      · intro hfresh j task' hget
        dsimp only at hget
        rw [hsent.stored, ConcurrentHashMap.get_insert] at hget
        by_cases hj : j = c.now
        · rw [if_pos hj] at hget
          cases hget
          refine ⟨c.packet clean task, ?_, hj ▸ hsent.packetOf⟩
          rw [List.filter_cons_of_pos (by exact decide_eq_true hj.symm), hj,
            filter_packets_eq_nil.mpr (hfresh dist task hrun)]
        · rw [if_neg hj] at hget
          obtain ⟨p, hp, hpacket⟩ := hq.cleared hget
          exact ⟨p, (filter_packets_of_ne hj).trans hp, hpacket⟩

/-- No packet goes out twice under one id: then no active task is overwritten. -/
theorem noOverwrite_of_freshReading {s s' : DistSystem} {c : NotifyCall} (h : KeysInv s)
    (hq : NoOverwrite s) (hfresh : FreshReading signTaskPacket s c)
    (hs : callStep signTaskPacket s c = some s') : NoOverwrite s' := by
  refine (noOverwrite_step s c s' h hq hs).1.mpr ?_
  intro dist task clean hrun _
  by_contra hactive
  have hlive := (h.cleared clean c.now).mp hactive
  obtain ⟨p, hp, hjob⟩ := List.mem_map.mp hlive
  exact hfresh dist task hrun
    (List.mem_map.mpr ⟨p, h.sent ((live_cleared_sublist s clean).subset hp), hjob⟩)

/-- Different job ids, and for each active one a single packet. -/
def JobIdsUnique (signTaskPacket : List UInt8 → ByteArr 64) (s : DistSystem) : Prop :=
  NoOverwrite s ∧ OnePacket signTaskPacket s

theorem jobIdsUnique_step (s : DistSystem) (c : NotifyCall) (s' : DistSystem) (h : KeysInv s)
    (hq : JobIdsUnique signTaskPacket s) (hs : callStep signTaskPacket s c = some s') :
    (JobIdsUnique signTaskPacket s' ↔ FreshReading signTaskPacket s c) ∧
      (JobIdsUnique signTaskPacket s' → KeysInv s') := by
  refine ⟨⟨fun h' => (onePacket_step hq.2 hs).mp h'.2, fun hfresh => ?_⟩,
    fun _ => keysInv_step h hs⟩
  exact ⟨noOverwrite_of_freshReading h hq.1 hfresh hs, (onePacket_step hq.2 hs).mpr hfresh⟩

theorem jobIdsUnique_initial : JobIdsUnique signTaskPacket .initial :=
  ⟨List.nodup_nil, fun _ _ hget => nomatch hget⟩

/-- **Job ids from the clock.**  In any run, tasks are never overwritten just
when no packet goes out at a reading that is an active job id; and every active
job id belongs to one packet, whose task its solutions are checked against, just
when no packet goes out at a reading an earlier one had. -/
theorem jobIdsUnique_iff (signTaskPacket : List UInt8 → ByteArr 64) (calls : List NotifyCall) :
    (Run.Always (callStep signTaskPacket) NoOverwrite .initial calls ↔
      Run.Along (callStep signTaskPacket) (InactiveReading signTaskPacket) .initial calls) ∧
    (Run.Always (callStep signTaskPacket) (JobIdsUnique signTaskPacket) .initial calls ↔
      Run.Along (callStep signTaskPacket) (FreshReading signTaskPacket) .initial calls) :=
  ⟨Run.always_iff_along noOverwrite_step keysInv_initial List.nodup_nil,
    Run.always_iff_along jobIdsUnique_step keysInv_initial jobIdsUnique_initial⟩

end

/-! ## Two jobs in one millisecond -/

def sampleNotifyOf (taskId prevHash : Str) (cleanJobQueue : Bool) : Json :=
  stratumNotification "mining.notify".toList [
    .string taskId, .string prevHash, .string "01".toList, .string "ff".toList, .array [],
    .string "20000000".toList, .string "192a848a".toList, .string "698da47c".toList,
    .boolean cleanJobQueue]

def samplePrevHash : Str := "cbf0a10805b2fceb439afcfd59c606e1493eea5842fd466594310cbabbfc0eef".toList

def callOf (msg : Json) (now : UInt64) : NotifyCall :=
  ⟨msg, poolBaseDifficulty, [1, 2, 3, 4], false, now⟩

/-- Two jobs that are not clean. -/
def jobA : Json := sampleNotifyOf "a".toList samplePrevHash false

def jobB : Json := sampleNotifyOf "b".toList samplePrevHash false

/-- The second task takes the place of the first, which is still active. -/
theorem sameReading_overwrites :
    ¬ Run.Always (callStep fun _ => ByteArr.fill 64 0xab) NoOverwrite .initial
        [callOf jobA 7, callOf jobB 7] ∧
    ∃ s, Run.exec (callStep fun _ => ByteArr.fill 64 0xab) .initial
        [callOf jobA 7, callOf jobB 7] = some s ∧
      s.live.map SentPacket.jobId = [7, 7] ∧
      (s.dist.activeTasks.get 7).map DispatcherMiningTask.taskId = some "b".toList := by
  have hlast : ∃ s, Run.exec (callStep fun _ => ByteArr.fill 64 0xab) .initial
        [callOf jobA 7, callOf jobB 7] = some s ∧
      s.live.map SentPacket.jobId = [7, 7] ∧
      (s.dist.activeTasks.get 7).map DispatcherMiningTask.taskId = some "b".toList :=
    ⟨_, rfl, rfl, rfl⟩
  refine ⟨fun h => ?_, hlast⟩
  obtain ⟨s, hs, hids, -⟩ := hlast
  have hnodup := h.exec hs
  rw [NoOverwrite, hids] at hnodup
  exact absurd hnodup (by decide)

end DogeConnect
