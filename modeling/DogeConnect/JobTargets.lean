/-
The target a job is distributed with.

A `mining.set_difficulty` is for the jobs that follow it.  The outer loop takes
messages in order, and while it has no notify in hand the current difficulty is
that of the last one before.  The inner loop goes on to take messages while it
holds a notify: a `mining.set_difficulty` behind the notify then changes the
difficulty the notify is distributed with, if it is queued in time.

    targetInv_step       the current difficulty is that of the messages taken
    jobTargets_iff       the runs in which every job gets the target that
                         precedes it in the stream
-/
import DogeConnect.Coalescing

namespace DogeConnect

/-! ## The target due to a notify -/

/-- The divisor a message announces. -/
def StreamMessage.divisor? (m : StreamMessage) : Option UInt64 :=
  match readMessage m.value with
  | .ok (.setDifficulty divisor) => some divisor
  | _ => none

def lastSetDifficulty (messages : List StreamMessage) : Option UInt64 :=
  (messages.filterMap StreamMessage.divisor?).getLast?

theorem lastSetDifficulty_append (a b : List StreamMessage) :
    lastSetDifficulty (a ++ b) = (lastSetDifficulty b).or (lastSetDifficulty a) := by
  simp only [lastSetDifficulty, List.filterMap_append, List.getLast?_append]

theorem lastSetDifficulty_singleton (m : StreamMessage) :
    lastSetDifficulty [m] = m.divisor? := by
  simp only [lastSetDifficulty, List.filterMap_cons, List.filterMap_nil]
  cases m.divisor? <;> rfl

/-- The target after some messages: difficulty 1 if none announced another. -/
def targetAfter (messages : List StreamMessage) : DifficultyTarget :=
  announcedTarget poolBaseDifficulty ((lastSetDifficulty messages).getD 1)

theorem targetAfter_nil : targetAfter [] = poolBaseDifficulty := by decide

/-- The messages before and behind a notify. -/
def before (m : StreamMessage) (messages : List StreamMessage) : List StreamMessage :=
  messages.filter fun n => n.position < m.position

def behind (m : StreamMessage) (messages : List StreamMessage) : List StreamMessage :=
  messages.filter fun n => m.position < n.position

theorem before_behind {messages : List StreamMessage} {m : StreamMessage}
    (hl : messages.Pairwise fun a b => a.position < b.position) (hm : m ∈ messages) :
    messages = before m messages ++ m :: behind m messages := by
  obtain ⟨front, back, rfl⟩ := List.append_of_mem hm
  obtain ⟨-, hback, hfront⟩ := List.pairwise_append.mp hl
  have hfront : ∀ n ∈ front, n.position < m.position :=
    fun n hn => hfront n hn m List.mem_cons_self
  have hback : ∀ n ∈ back, m.position < n.position := (List.pairwise_cons.mp hback).1
  have hbefore : before m (front ++ m :: back) = front := by
    have hnone : (m :: back).filter (fun n => n.position < m.position) = [] := by
      refine List.filter_eq_nil_iff.mpr fun n hn => ?_
      rcases List.mem_cons.mp hn with rfl | hn
      · simp
      · simp [(hback n hn).le]
    rw [before, List.filter_append, hnone, List.append_nil]
    exact List.filter_eq_self.mpr fun n hn => by simp [hfront n hn]
  have hbehind : behind m (front ++ m :: back) = back := by
    have hnone : front.filter (fun n => m.position < n.position) = [] :=
      List.filter_eq_nil_iff.mpr fun n hn => by simp [(hfront n hn).le]
    rw [behind, List.filter_append, hnone, List.nil_append, List.filter_cons_of_neg (by simp)]
    exact List.filter_eq_self.mpr fun n hn => by simp [hback n hn]
  rw [hbefore, hbehind]

/-- What comes later is not before a message that is there already. -/
theorem before_append {messages more : List StreamMessage} {m : StreamMessage}
    (hl : (messages ++ more).Pairwise fun a b => a.position < b.position) (hm : m ∈ messages) :
    before m (messages ++ more) = before m messages := by
  have hnone : more.filter (fun n => n.position < m.position) = [] :=
    List.filter_eq_nil_iff.mpr fun n hn => by
      simp [((List.pairwise_append.mp hl).2.2 m hm n hn).le]
  rw [before, List.filter_append, hnone, List.append_nil, before]

/-- The target due to a notify of the stream. -/
def targetAt (stream : List Json) (m : StreamMessage) : DifficultyTarget :=
  targetAfter (before m (numbered stream))

/-- Every job so far was distributed with the target due to its notify. -/
def TargetsInOrder (stream : List Json) (s : DistLoop) : Prop :=
  ∀ d ∈ s.distributed,
    d.task.parsed.dispatcherTask.targetPool = (targetAt stream d.msg).fullRep ∧
    d.task.dispatcherDifficulty = (targetAt stream d.msg).compactRep

/-! ## The current difficulty -/

structure TargetInv (stream : List Json) (s : DistLoop) : Prop where
  arrived : s.arrived ++ s.incoming = numbered stream
  current : s.currentPoolDifficulty = targetAfter s.taken
  latest : ∀ m clean, s.phase = .draining m clean → m ∈ s.taken ∧ m.isNotify = true

theorem divisor?_of_isNotify {m : StreamMessage} (h : m.isNotify = true) : m.divisor? = none := by
  rw [StreamMessage.divisor?, read_of_isNotify h]

theorem divisor?_of_read {m : StreamMessage} {other : StratumMessage}
    (h : readMessage m.value = .ok other) (hother : ∀ divisor, other ≠ .setDifficulty divisor) :
    m.divisor? = none := by
  rw [StreamMessage.divisor?, h]
  cases other with
  | setDifficulty divisor => exact absurd rfl (hother divisor)
  | _ => rfl

theorem targetAfter_append_none {messages : List StreamMessage} {m : StreamMessage}
    (h : m.divisor? = none) : targetAfter (messages ++ [m]) = targetAfter messages := by
  rw [targetAfter, lastSetDifficulty_append, lastSetDifficulty_singleton, h, Option.none_or,
    targetAfter]

theorem targetAfter_append_some {messages : List StreamMessage} {m : StreamMessage}
    {divisor : UInt64} (h : m.divisor? = some divisor) :
    targetAfter (messages ++ [m]) = announcedTarget poolBaseDifficulty divisor := by
  rw [targetAfter, lastSetDifficulty_append, lastSetDifficulty_singleton, h, Option.some_or,
    Option.getD_some]

section
variable {stream : List Json} {s : DistLoop}

theorem TargetInv.taken_pairwise (h : TargetInv stream s) :
    (s.taken ++ (s.queue.items ++ s.incoming)).Pairwise fun a b => a.position < b.position := by
  have hall := numberedFrom_pairwise stream 0
  rw [← numbered, ← h.arrived, DistLoop.arrived, List.append_assoc] at hall
  exact hall

/-- The current difficulty, around the notify in hand: one that was announced
behind it replaces the target due to it. -/
theorem TargetInv.current_eq (h : TargetInv stream s) {latest : StreamMessage} {clean : Bool}
    (hphase : s.phase = .draining latest clean) :
    s.currentPoolDifficulty = match lastSetDifficulty (behind latest s.taken) with
      | some divisor => announcedTarget poolBaseDifficulty divisor
      | none => targetAt stream latest := by
  obtain ⟨hmem, hnotify⟩ := h.latest latest clean hphase
  have hpairwise := h.taken_pairwise
  have hsplit := before_behind (List.pairwise_append.mp hpairwise).1 hmem
  have hbefore : before latest (numbered stream) = before latest s.taken := by
    rw [← h.arrived, DistLoop.arrived, List.append_assoc]
    exact before_append hpairwise hmem
  have hlast : lastSetDifficulty s.taken
      = (lastSetDifficulty (behind latest s.taken)).or (lastSetDifficulty (before latest s.taken)) := by
    have hcons : latest :: behind latest s.taken = [latest] ++ behind latest s.taken := rfl
    conv_lhs => rw [hsplit]
    rw [lastSetDifficulty_append, hcons, lastSetDifficulty_append, lastSetDifficulty_singleton,
      divisor?_of_isNotify hnotify, Option.or_none]
  rw [h.current, targetAfter, hlast]
  cases lastSetDifficulty (behind latest s.taken) with
  | some divisor => rw [Option.some_or, Option.getD_some]
  | none => rw [Option.none_or, targetAt, targetAfter, hbefore]

/-! ## Steps -/

variable {signTaskPacket : List UInt8 → ByteArr 64} {extraNonce1 : List UInt8}

/-- Whichever loop takes it, an announcement is in force once it is taken. -/
theorem TargetInv.apply_current (h : TargetInv stream s) {msg : StreamMessage}
    {queue : ConcurrentQueue StreamMessage} {other : StratumMessage}
    (hread : readMessage msg.value = .ok other) :
    ((s.take msg queue).apply msg other).currentPoolDifficulty
      = targetAfter (s.taken ++ [msg]) := by
  cases other with
  | setDifficulty divisor =>
      have hdivisor : msg.divisor? = some divisor := by rw [StreamMessage.divisor?, hread]
      rw [targetAfter_append_some hdivisor]
      rfl
  | _ =>
      have hnone := divisor?_of_read hread (fun divisor h => by cases h)
      rw [targetAfter_append_none hnone, ← h.current]
      rfl

theorem TargetInv.takeNotify (h : TargetInv stream s) {msg : StreamMessage}
    {queue : ConcurrentQueue StreamMessage} {next clean : Bool}
    (hqueue : s.queue.items = msg :: queue.items)
    (hread : readMessage msg.value = .ok (.notify next)) :
    TargetInv stream { s.take msg queue with phase := .draining msg clean } := by
  have hnotify := (notify_of_read hread).1
  have htaken : DistLoop.taken { s.take msg queue with phase := .draining msg clean }
      = s.taken ++ [msg] := s.taken_take msg queue
  refine ⟨?_, ?_, ?_⟩
  · rw [← h.arrived, ← s.arrived_take hqueue]
    rfl
  · rw [htaken, targetAfter_append_none (divisor?_of_isNotify hnotify), ← h.current]
    rfl
  · rintro m flag hphase
    cases hphase
    rw [htaken]
    exact ⟨List.mem_append_right _ (List.mem_singleton.mpr rfl), hnotify⟩

theorem targetInv_step (s : DistLoop) (e : LoopEvent) (s' : DistLoop) (h : TargetInv stream s)
    (hs : loopStep signTaskPacket extraNonce1 s e = some s') : TargetInv stream s' := by
  have harrived := (arrived_step hs).trans h.arrived
  cases loopStep_cases hs with
  | arrive hnext => exact ⟨harrived, h.current, h.latest⟩
  | @apply _ msg queue other hqueue hread hother =>
      have hframe := (s.take msg queue).apply_sameJobs msg other
      refine ⟨harrived, ?_, ?_⟩
      · rw [s.taken_apply]
        exact h.apply_current hread
      · intro m clean hphase
        rw [hframe.phase] at hphase
        obtain ⟨hmem, hnotify⟩ := h.latest m clean hphase
        rw [s.taken_apply]
        exact ⟨List.mem_append_left _ hmem, hnotify⟩
  | popNotify hphase hqueue hread => exact h.takeNotify hqueue hread
  | drainNotify hphase hqueue hread => exact h.takeNotify hqueue hread
  | drop hphase hqueue hrun => exact ⟨harrived, h.current, fun _ _ hidle => nomatch hidle⟩
  | distribute hphase hqueue hrun =>
      refine ⟨harrived, ?_, fun _ _ hidle => nomatch hidle⟩
      rw [s.taken_distribute]
      exact h.current

theorem targetInv_initial (stream : List Json) : TargetInv stream (.initial stream) where
  arrived := rfl
  current := targetAfter_nil.symm
  latest := fun _ _ hphase => nomatch hphase

/-- Where the held notify is sent: the last difficulty announced behind it, if
any, stands for the target due to the notify. -/
def NoLateDifficulty (extraNonce1 : List UInt8) (stream : List Json) (s : DistLoop) :
    LoopEvent → Prop
  | .tryPop now => ∀ latest clean, s.phase = .draining latest clean → s.queue.items = [] →
      (s.call extraNonce1 latest clean now).Sendable →
      ∀ divisor, lastSetDifficulty (behind latest s.taken) = some divisor →
        announcedTarget poolBaseDifficulty divisor = targetAt stream latest
  | _ => True

theorem DifficultyTarget.eq_iff {a b : DifficultyTarget} :
    (a.fullRep = b.fullRep ∧ a.compactRep = b.compactRep) ↔ a = b := by
  constructor
  · rintro ⟨hfull, hcompact⟩
    cases a
    cases b
    cases hfull
    cases hcompact
    rfl
  · rintro rfl
    exact ⟨rfl, rfl⟩

theorem noLateDifficulty_of_queue {e : LoopEvent} (hqueue : s.queue.items ≠ []) :
    NoLateDifficulty extraNonce1 stream s e := by
  cases e with
  | tryPop now => exact fun _ _ _ hempty => absurd hempty hqueue
  | _ => trivial

/-- The job sent has the current difficulty: that due to its notify, just when no
other was announced behind the notify. -/
theorem TargetInv.distribute_iff (h : TargetInv stream s) {latest : StreamMessage} {clean : Bool}
    (hphase : s.phase = .draining latest clean) {now : UInt64} {dist : DistState}
    {task : SentTask} (hrun : (s.call extraNonce1 latest clean now).run signTaskPacket s.dist
      = .ok (dist, some task)) :
    (task.parsed.dispatcherTask.targetPool = (targetAt stream latest).fullRep ∧
        task.dispatcherDifficulty = (targetAt stream latest).compactRep) ↔
      ∀ divisor, lastSetDifficulty (behind latest s.taken) = some divisor →
        announcedTarget poolBaseDifficulty divisor = targetAt stream latest := by
  obtain ⟨_, hsent⟩ := run_some signTaskPacket hrun
  obtain ⟨_, -, hparsed⟩ := hsent.parsed
  have hcall : (s.call extraNonce1 latest clean now).currentPoolDifficulty
      = s.currentPoolDifficulty := rfl
  rw [hparsed.targetPool, hsent.dispatcherDifficulty, hcall, DifficultyTarget.eq_iff,
    h.current_eq hphase]
  cases lastSetDifficulty (behind latest s.taken) with
  | none => exact ⟨fun _ _ hdivisor => (nomatch hdivisor), fun _ => rfl⟩
  | some divisor =>
      constructor
      · intro heq divisor' hdivisor
        cases hdivisor
        exact heq
      · intro hlate
        exact hlate divisor rfl

theorem targetsInOrder_step (s : DistLoop) (e : LoopEvent) (s' : DistLoop)
    (h : TargetInv stream s) (hq : TargetsInOrder stream s)
    (hs : loopStep signTaskPacket extraNonce1 s e = some s') :
    TargetsInOrder stream s' ↔ NoLateDifficulty extraNonce1 stream s e := by
  cases loopStep_cases hs with
  | arrive hnext => exact ⟨fun _ => trivial, fun _ => hq⟩
  | @apply _ msg queue other hqueue hread hother =>
      have hframe := (s.take msg queue).apply_sameJobs msg other
      have hqueue' : s.queue.items ≠ [] := by
        rw [hqueue]
        exact List.cons_ne_nil _ _
      refine ⟨fun _ => noLateDifficulty_of_queue hqueue', ?_⟩
      intro _ d hd
      rw [hframe.distributed] at hd
      exact hq d hd
  | popNotify hphase hqueue hread => exact ⟨fun _ => trivial, fun _ => hq⟩
  | drainNotify hphase hqueue hread =>
      have hqueue' : s.queue.items ≠ [] := by
        rw [hqueue]
        exact List.cons_ne_nil _ _
      exact ⟨fun _ => noLateDifficulty_of_queue hqueue', fun _ => hq⟩
  | @drop now latest clean dist hphase hqueue hrun =>
      refine ⟨fun _ latest' clean' hphase' _ hsendable => ?_, fun _ => hq⟩
      rw [hphase] at hphase'
      cases hphase'
      obtain ⟨dist', task, hrun'⟩ := (run_some_iff signTaskPacket _ s.dist).mpr hsendable
      rw [hrun] at hrun'
      cases hrun'
  | @distribute now latest clean dist task hphase hqueue hrun =>
      have hiff := h.distribute_iff hphase hrun
      constructor
      · intro hall latest' clean' hphase' _ _
        rw [hphase] at hphase'
        cases hphase'
        exact hiff.mp (hall _ (List.mem_append_right _ (List.mem_singleton.mpr rfl)))
      · intro hok d hd
        rcases List.mem_append.mp hd with hd | hd
        · exact hq d hd
        · rw [List.mem_singleton.mp hd]
          have hsendable := (run_some_iff signTaskPacket _ s.dist).mp ⟨dist, task, hrun⟩
          exact hiff.mpr (hok latest clean hphase hqueue hsendable)

theorem targetAt_eq {m m' : StreamMessage} (h : m.position = m'.position) :
    targetAt stream m = targetAt stream m' := by
  rw [targetAt, targetAt, before, before, h]

end

/-- The jobs that two interleavings of one stream both distributed. -/
def SameTargets (s s' : DistLoop) : Prop :=
  ∀ d ∈ s.distributed, ∀ d' ∈ s'.distributed, d.msg.position = d'.msg.position →
    d.task.parsed.dispatcherTask.targetPool = d'.task.parsed.dispatcherTask.targetPool ∧
    d.task.dispatcherDifficulty = d'.task.dispatcherDifficulty

theorem TargetsInOrder.same {stream : List Json} {s s' : DistLoop} (h : TargetsInOrder stream s)
    (h' : TargetsInOrder stream s') : SameTargets s s' := by
  intro d hd d' hd' hposition
  obtain ⟨hpool, hdifficulty⟩ := h d hd
  obtain ⟨hpool', hdifficulty'⟩ := h' d' hd'
  rw [hpool, hdifficulty, hpool', hdifficulty', targetAt_eq hposition]
  exact ⟨rfl, rfl⟩

/-- **Targets of jobs.**  In a run, every job has the target that precedes it in
the stream exactly when none is sent with another one announced behind it; and
any two such interleavings agree on the jobs they share. -/
theorem jobTargets_iff (signTaskPacket : List UInt8 → ByteArr 64) (extraNonce1 : List UInt8)
    (stream : List Json) :
    (∀ run, Run.Always (loopStep signTaskPacket extraNonce1) (TargetsInOrder stream)
        (.initial stream) run ↔
      Run.Along (loopStep signTaskPacket extraNonce1) (NoLateDifficulty extraNonce1 stream)
        (.initial stream) run) ∧
    ∀ run run' s s', Run.exec (loopStep signTaskPacket extraNonce1) (.initial stream) run = some s →
      Run.exec (loopStep signTaskPacket extraNonce1) (.initial stream) run' = some s' →
      Run.Along (loopStep signTaskPacket extraNonce1) (NoLateDifficulty extraNonce1 stream)
        (.initial stream) run →
      Run.Along (loopStep signTaskPacket extraNonce1) (NoLateDifficulty extraNonce1 stream)
        (.initial stream) run' →
      SameTargets s s' := by
  have hiff : ∀ run, Run.Always (loopStep signTaskPacket extraNonce1) (TargetsInOrder stream)
        (.initial stream) run ↔
      Run.Along (loopStep signTaskPacket extraNonce1) (NoLateDifficulty extraNonce1 stream)
        (.initial stream) run := by
    intro run
    refine Run.always_iff_along (fun s e s' h hq hs => ?_) (targetInv_initial stream)
      (fun _ hd => absurd hd List.not_mem_nil)
    exact ⟨targetsInOrder_step s e s' h hq hs, fun _ => targetInv_step s e s' h hs⟩
  refine ⟨hiff, ?_⟩
  intro run run' s s' hs hs' halong halong'
  have hinOrder : TargetsInOrder stream s := ((hiff run).mpr halong).exec hs
  have hinOrder' : TargetsInOrder stream s' := ((hiff run').mpr halong').exec hs'
  exact hinOrder.same hinOrder'

/-! ## A difficulty behind a job -/

/-- A job, and a difficulty for the jobs after it. -/
def lateStream : List Json :=
  [jobA, stratumNotification "mining.set_difficulty".toList [.unsigned 65536]]

theorem jobTargets_iff_sample :
    ∃ s s', Run.exec (loopStep (fun _ => ByteArr.fill 64 0xab) [1, 2, 3, 4])
        (.initial lateStream) [.arrive, .pop, .tryPop 1, .arrive, .pop] = some s ∧
      Run.exec (loopStep (fun _ => ByteArr.fill 64 0xab) [1, 2, 3, 4])
        (.initial lateStream) [.arrive, .pop, .tryPop 2] = some s' ∧ SameTargets s s' := by
  have hnone : ∀ (s : DistLoop) (latest : StreamMessage),
      lastSetDifficulty (behind latest s.taken) = none → ∀ divisor,
      lastSetDifficulty (behind latest s.taken) = some divisor →
        announcedTarget poolBaseDifficulty divisor = targetAt lateStream latest := by
    intro s latest hnone divisor hsome
    rw [hnone] at hsome
    cases hsome
  have hfirst : ∃ s, Run.exec (loopStep (fun _ => ByteArr.fill 64 0xab) [1, 2, 3, 4])
      (.initial lateStream) [.arrive, .pop, .tryPop 1, .arrive, .pop] = some s := ⟨_, rfl⟩
  have hsecond : ∃ s, Run.exec (loopStep (fun _ => ByteArr.fill 64 0xab) [1, 2, 3, 4])
      (.initial lateStream) [.arrive, .pop, .tryPop 2] = some s := ⟨_, rfl⟩
  obtain ⟨s, hs⟩ := hfirst
  obtain ⟨s', hs'⟩ := hsecond
  refine ⟨s, s', hs, hs', (jobTargets_iff _ _ _).2 _ _ s s' hs hs' ?_ ?_⟩
  · refine .cons rfl trivial (.cons rfl trivial (.cons rfl ?_
      (.cons rfl trivial (.cons rfl trivial trivial))))
    intro latest clean hphase _ _
    cases hphase
    exact hnone _ _ rfl
  · refine .cons rfl trivial (.cons rfl trivial (.cons rfl ?_ trivial))
    intro latest clean hphase _ _
    cases hphase
    exact hnone _ _ rfl

/-- Queued in time, the difficulty applies to the job before it. -/
theorem lateDifficulty_applies :
    ∃ s s', Run.exec (loopStep (fun _ => ByteArr.fill 64 0xab) [1, 2, 3, 4])
        (.initial lateStream) [.arrive, .pop, .tryPop 1] = some s ∧
      Run.exec (loopStep (fun _ => ByteArr.fill 64 0xab) [1, 2, 3, 4])
        (.initial lateStream) [.arrive, .arrive, .pop, .tryPop 1, .tryPop 2] = some s' ∧
      ¬ SameTargets s s' ∧ ¬ TargetsInOrder lateStream s' := by
  have hfirst : ∃ s, Run.exec (loopStep (fun _ => ByteArr.fill 64 0xab) [1, 2, 3, 4])
      (.initial lateStream) [.arrive, .pop, .tryPop 1] = some s ∧
      ∃ d ∈ s.distributed, d.msg = ⟨jobA, 0⟩ ∧
        d.task.parsed.dispatcherTask.targetPool = poolBaseDifficulty.fullRep :=
    ⟨_, rfl, _, List.mem_singleton.mpr rfl, rfl, rfl⟩
  have hsecond : ∃ s, Run.exec (loopStep (fun _ => ByteArr.fill 64 0xab) [1, 2, 3, 4])
      (.initial lateStream) [.arrive, .arrive, .pop, .tryPop 1, .tryPop 2] = some s ∧
      ∃ d ∈ s.distributed, d.msg = ⟨jobA, 0⟩ ∧
        d.task.parsed.dispatcherTask.targetPool
          = (announcedTarget poolBaseDifficulty 65536).fullRep :=
    ⟨_, rfl, _, List.mem_singleton.mpr rfl, rfl, rfl⟩
  have hdue : targetAt lateStream ⟨jobA, 0⟩ = poolBaseDifficulty := by
    rw [← targetAfter_nil]
    rfl
  have hother : (announcedTarget poolBaseDifficulty 65536).fullRep ≠ poolBaseDifficulty.fullRep := by
    decide
  obtain ⟨s, hs, d, hd, hmsg, hpool⟩ := hfirst
  obtain ⟨s', hs', d', hd', hmsg', hpool'⟩ := hsecond
  refine ⟨s, s', hs, hs', fun hsame => ?_, fun horder => ?_⟩
  · obtain ⟨heq, -⟩ := hsame d hd d' hd' (by rw [hmsg, hmsg'])
    rw [hpool, hpool'] at heq
    exact hother heq.symm
  · obtain ⟨heq, -⟩ := horder d' hd'
    rw [hmsg', hdue, hpool'] at heq
    exact hother heq

end DogeConnect
