/-
`taskDistributionLoop`: what becomes of a stream of pool messages.

The outer loop pops one message at a time.  A notify is not distributed at once:
the inner loop takes whatever else is queued, keeps the last notify and or-s the
clean flags, and distributes when it finds the queue empty.  How the stream is
divided between the loops depends on when messages arrive.

Messages are numbered by their place in the stream, so that a job is an
occurrence of a notify.  The ghost fields divide what has been taken into the
batches of the distributions.

    loopStep_cases         what a step of either loop, or an arrival, can do
    arrived_step           no message is lost or overtaken
-/
import DogeConnect.TaskRuns

namespace DogeConnect

/-! ## The stream -/

/-- A message with its place in the stream. -/
structure StreamMessage where
  value : Json
  position : Nat

def numberedFrom (k : Nat) : List Json → List StreamMessage
  | [] => []
  | value :: stream => ⟨value, k⟩ :: numberedFrom (k + 1) stream

def numbered (stream : List Json) : List StreamMessage := numberedFrom 0 stream

namespace StreamMessage

def isNotify (m : StreamMessage) : Bool :=
  match readMessage m.value with
  | .ok (.notify _) => true
  | _ => false

/-- A notify with the clean flag. -/
def isClean (m : StreamMessage) : Bool :=
  match readMessage m.value with
  | .ok (.notify clean) => clean
  | _ => false

def isResponse (m : StreamMessage) : Bool :=
  match readMessage m.value with
  | .ok .shareResponse => true
  | _ => false

end StreamMessage

/-! ## The loop -/

inductive LoopPhase
  /-- Before `queue.pop()`. -/
  | idle
  /-- Before `queue.try_pop()`, with `latestNotify` and `cleanJobQueue`. -/
  | draining (latest : StreamMessage) (cleanJobQueue : Bool)

/-- A job that was distributed. -/
structure Distribution where
  msg : StreamMessage
  jobId : UInt64
  task : SentTask
  /-- The messages taken since the distribution before. -/
  consumed : List StreamMessage

structure DistLoop where
  /-- The messages that have not arrived yet. -/
  incoming : List StreamMessage
  queue : ConcurrentQueue StreamMessage
  phase : LoopPhase
  currentPoolDifficulty : DifficultyTarget
  dist : DistState
  /-- Ghost: in order. -/
  distributed : List Distribution
  /-- Ghost: the messages taken since the last distribution. -/
  batch : List StreamMessage

namespace DistLoop

def initial (stream : List Json) : DistLoop where
  incoming := numbered stream
  queue := .empty
  phase := .idle
  currentPoolDifficulty := poolBaseDifficulty
  dist := ⟨.empty, .initial, ByteArr.fill _ 0⟩
  distributed := []
  batch := []

/-- The messages of the distributions so far. -/
def finished (s : DistLoop) : List StreamMessage := s.distributed.flatMap Distribution.consumed

/-- Every message that has been taken from the queue. -/
def taken (s : DistLoop) : List StreamMessage := s.finished ++ s.batch

/-- Every message that has been pushed to it. -/
def arrived (s : DistLoop) : List StreamMessage := s.taken ++ s.queue.items

/-- A message leaves the queue. -/
def take (s : DistLoop) (msg : StreamMessage) (queue : ConcurrentQueue StreamMessage) : DistLoop :=
  { s with queue, batch := s.batch ++ [msg] }

/-- What a message that is no notify does; the code for it stands in both loops. -/
def apply (s : DistLoop) (msg : StreamMessage) : StratumMessage → DistLoop
  | .setDifficulty divisor =>
    { s with
      currentPoolDifficulty := announcedTarget poolBaseDifficulty divisor
      dist := { s.dist with stats := { s.dist.stats with poolDifficulty := divisor } } }
  | .shareResponse =>
    { s with dist := { s.dist with stats := checkShareResponse msg.value s.dist.stats } }
  | .ignored | .notify _ => s

/-- The call the inner loop ends with. -/
def call (s : DistLoop) (extraNonce1 : List UInt8) (latest : StreamMessage) (cleanJobQueue : Bool)
    (now : UInt64) : NotifyCall :=
  ⟨latest.value, s.currentPoolDifficulty, extraNonce1, cleanJobQueue, now⟩

end DistLoop

inductive LoopEvent
  /-- The receive thread pushes the next message. -/
  | arrive
  /-- `queue.pop()` and what the outer loop does with the message. -/
  | pop
  /-- `queue.try_pop()`, and on an empty queue the call, with its clock. -/
  | tryPop (now : UInt64)

section
variable (signTaskPacket : List UInt8 → ByteArr 64) (extraNonce1 : List UInt8)

def loopStep (s : DistLoop) : LoopEvent → Option DistLoop
  | .arrive =>
    match s.incoming with
    | [] => none
    | msg :: incoming => some { s with incoming, queue := s.queue.push msg }
  | .pop =>
    match s.phase, s.queue.tryPop with
    | .idle, some (msg, queue) =>
      match readMessage msg.value with
      | .error _ => none
      | .ok (.notify clean) => some { s.take msg queue with phase := .draining msg clean }
      | .ok other => some ((s.take msg queue).apply msg other)
    | _, _ => none
  | .tryPop now =>
    match s.phase, s.queue.tryPop with
    | .draining _ clean, some (msg, queue) =>
      match readMessage msg.value with
      | .error _ => none
      | .ok (.notify next) => some { s.take msg queue with phase := .draining msg (clean || next) }
      | .ok other => some ((s.take msg queue).apply msg other)
    | .draining latest clean, none =>
      match (s.call extraNonce1 latest clean now).run signTaskPacket s.dist with
      | .error _ => none
      | .ok (dist, none) => some { s with dist, phase := .idle }
      | .ok (dist, some task) =>
        some { s with
          dist
          phase := .idle
          distributed := s.distributed ++ [⟨latest, now, task, s.batch⟩]
          batch := [] }
    | _, _ => none

/-! ## What a step can do -/

inductive LoopStep (s : DistLoop) : LoopEvent → DistLoop → Prop
  | arrive {msg : StreamMessage} {incoming : List StreamMessage} (hnext : s.incoming = msg :: incoming) :
      LoopStep s .arrive { s with incoming, queue := s.queue.push msg }
  /-- A message that is no notify, in either loop. -/
  | apply {e : LoopEvent} {msg : StreamMessage} {queue : ConcurrentQueue StreamMessage}
      {other : StratumMessage} (hqueue : s.queue.items = msg :: queue.items)
      (hread : readMessage msg.value = .ok other) (hother : ∀ clean, other ≠ .notify clean) :
      LoopStep s e ((s.take msg queue).apply msg other)
  | popNotify {msg : StreamMessage} {queue : ConcurrentQueue StreamMessage} {clean : Bool}
      (hphase : s.phase = .idle) (hqueue : s.queue.items = msg :: queue.items)
      (hread : readMessage msg.value = .ok (.notify clean)) :
      LoopStep s .pop { s.take msg queue with phase := .draining msg clean }
  | drainNotify {now : UInt64} {latest msg : StreamMessage} {queue : ConcurrentQueue StreamMessage}
      {clean next : Bool} (hphase : s.phase = .draining latest clean)
      (hqueue : s.queue.items = msg :: queue.items)
      (hread : readMessage msg.value = .ok (.notify next)) :
      LoopStep s (.tryPop now) { s.take msg queue with phase := .draining msg (clean || next) }
  | drop {now : UInt64} {latest : StreamMessage} {clean : Bool} {dist : DistState}
      (hphase : s.phase = .draining latest clean) (hqueue : s.queue.items = [])
      (hrun : (s.call extraNonce1 latest clean now).run signTaskPacket s.dist = .ok (dist, none)) :
      LoopStep s (.tryPop now) { s with dist, phase := .idle }
  | distribute {now : UInt64} {latest : StreamMessage} {clean : Bool} {dist : DistState}
      {task : SentTask} (hphase : s.phase = .draining latest clean) (hqueue : s.queue.items = [])
      (hrun : (s.call extraNonce1 latest clean now).run signTaskPacket s.dist
        = .ok (dist, some task)) :
      LoopStep s (.tryPop now)
        { s with
          dist
          phase := .idle
          distributed := s.distributed ++ [⟨latest, now, task, s.batch⟩]
          batch := [] }

theorem ConcurrentQueue.tryPop_eq_none {T : Type} {q : ConcurrentQueue T} :
    q.tryPop = none ↔ q.items = [] := by
  unfold tryPop
  cases q.items <;> simp

variable {signTaskPacket extraNonce1}

theorem loopStep_cases {s s' : DistLoop} {e : LoopEvent}
    (hs : loopStep signTaskPacket extraNonce1 s e = some s') :
    LoopStep signTaskPacket extraNonce1 s e s' := by
  cases e with
  | arrive =>
      simp only [loopStep] at hs
      split at hs
      next => cases hs
      next hnext => cases hs; exact .arrive hnext
  | pop =>
      simp only [loopStep] at hs
      split at hs
      next hphase hpop =>
        have hqueue := ConcurrentQueue.tryPop_eq_some.mp hpop
        split at hs
        next => cases hs
        next hread => cases hs; exact .popNotify hphase hqueue hread
        next hother hread =>
          cases hs
          exact .apply hqueue hread fun clean h => hother clean h
      next => cases hs
  | tryPop now =>
      simp only [loopStep] at hs
      split at hs
      next hphase hpop =>
        have hqueue := ConcurrentQueue.tryPop_eq_some.mp hpop
        split at hs
        next => cases hs
        next hread => cases hs; exact .drainNotify hphase hqueue hread
        next hother hread =>
          cases hs
          exact .apply hqueue hread fun clean h => hother clean h
      next hphase hpop =>
        have hqueue := ConcurrentQueue.tryPop_eq_none.mp hpop
        split at hs
        next => cases hs
        next hrun => cases hs; exact .drop hphase hqueue hrun
        next hrun => cases hs; exact .distribute hphase hqueue hrun
      next => cases hs

end

/-! ## What has been taken -/

namespace DistLoop

variable (s : DistLoop)

@[simp] theorem taken_take (msg : StreamMessage) (queue : ConcurrentQueue StreamMessage) :
    (s.take msg queue).taken = s.taken ++ [msg] :=
  (List.append_assoc s.finished s.batch [msg]).symm

theorem arrived_take {msg : StreamMessage} {queue : ConcurrentQueue StreamMessage}
    (h : s.queue.items = msg :: queue.items) : (s.take msg queue).arrived = s.arrived := by
  rw [arrived, arrived, taken_take, h, List.append_assoc]
  rfl

/-- A message that is no notify changes only counters and the difficulty. -/
structure SameJobs (s s' : DistLoop) : Prop where
  incoming : s'.incoming = s.incoming
  queue : s'.queue = s.queue
  phase : s'.phase = s.phase
  distributed : s'.distributed = s.distributed
  batch : s'.batch = s.batch
  activeTasks : s'.dist.activeTasks = s.dist.activeTasks

theorem apply_sameJobs (msg : StreamMessage) (other : StratumMessage) :
    SameJobs s (s.apply msg other) := by
  cases other <;> exact ⟨rfl, rfl, rfl, rfl, rfl, rfl⟩

@[simp] theorem taken_apply (msg : StreamMessage) (queue : ConcurrentQueue StreamMessage)
    (other : StratumMessage) : ((s.take msg queue).apply msg other).taken = s.taken ++ [msg] := by
  have hframe := (s.take msg queue).apply_sameJobs msg other
  rw [taken, finished, hframe.distributed, hframe.batch]
  exact s.taken_take msg queue

theorem arrived_apply {msg : StreamMessage} {queue : ConcurrentQueue StreamMessage}
    (other : StratumMessage) (h : s.queue.items = msg :: queue.items) :
    ((s.take msg queue).apply msg other).arrived = s.arrived := by
  have hframe := (s.take msg queue).apply_sameJobs msg other
  rw [← s.arrived_take h, arrived, arrived, taken_apply, taken_take, hframe.queue]

theorem finished_distribute (dist : DistState) (latest : StreamMessage) (now : UInt64)
    (task : SentTask) :
    finished { s with
      dist
      phase := .idle
      distributed := s.distributed ++ [⟨latest, now, task, s.batch⟩]
      batch := [] } = s.taken := by
  rw [finished, List.flatMap_append, List.flatMap_singleton]
  rfl

theorem taken_distribute (dist : DistState) (latest : StreamMessage) (now : UInt64)
    (task : SentTask) :
    taken { s with
      dist
      phase := .idle
      distributed := s.distributed ++ [⟨latest, now, task, s.batch⟩]
      batch := [] } = s.taken := by
  rw [taken, finished_distribute]
  exact List.append_nil _

end DistLoop

section
variable {signTaskPacket : List UInt8 → ByteArr 64} {extraNonce1 : List UInt8}

theorem arrived_step {s s' : DistLoop} {e : LoopEvent}
    (hs : loopStep signTaskPacket extraNonce1 s e = some s') :
    s'.arrived ++ s'.incoming = s.arrived ++ s.incoming := by
  cases loopStep_cases hs with
  | @arrive msg incoming hnext =>
      have harrived : DistLoop.arrived { s with incoming, queue := s.queue.push msg }
          = s.arrived ++ [msg] := (List.append_assoc s.taken s.queue.items [msg]).symm
      rw [harrived, List.append_assoc, hnext]
      rfl
  | @apply _ msg queue other hqueue hread hother =>
      rw [s.arrived_apply other hqueue, ((s.take msg queue).apply_sameJobs msg other).incoming]
      rfl
  | popNotify hphase hqueue hread => rw [← s.arrived_take hqueue]; rfl
  | drainNotify hphase hqueue hread => rw [← s.arrived_take hqueue]; rfl
  | drop hphase hqueue hrun => rfl
  | distribute hphase hqueue hrun => rw [DistLoop.arrived, DistLoop.taken_distribute]; rfl

end

end DogeConnect
