/-
The dispatcher's threads on their shared state.

`main` finishes the first handshake and then starts the threads; from there on
they interleave.  A step is what a thread does between two looks at shared
state: pushing or popping a message, clearing or extending `activeTasks`, one
send to one peer, one lookup, the test of `isConnected`, one send to the pool.

    PoolStep    stratumReceiveLoop, with the handshake of a reconnect
    DistStep    taskDistributionLoop and distributeTask
    ValidStep   shareValidationLoop

Solutions of any job can arrive at any time.  An exception that leaves a thread
ends the process, and so does the run.

Six ghost fields record what the properties speak of: the number of the pool
connection, the first nonce granted on it, whether it was authorized, the jobs
that have reached a peer and have not been cleared since, the solutions counted
as stale, and what was submitted on which connection.
-/
import DogeConnect.TaskDist
import DogeConnect.ShareValid
import DogeConnect.StratumRecv

namespace DogeConnect

/-! ## The state -/

/-- A value with the pool connection it comes from. -/
structure Tagged (α : Type) where
  value : α
  session : Nat

/-- Where `stratumReceiveLoop` stands. -/
inductive PoolPhase
  | receiving
  /-- The connection is closed, before the next attempt. -/
  | waiting
  /-- Connected, the subscription requested. -/
  | subscribing
  | authorizing
  deriving DecidableEq, Repr

/-- Where `taskDistributionLoop` stands. -/
inductive DistPhase
  | idle
  /-- Taking further messages, with the last notify so far. -/
  | draining (latest : Tagged Json) (cleanJobQueue : Bool)
  /-- At the start of `distributeTask`. -/
  | distributing (task : Tagged Json) (propagateCleanJobFlag : Bool)
  /-- The active tasks are cleared if they have to be. -/
  | preparing (task : Tagged Json) (cleanJobQueue : Bool)
  /-- `i` peers have been tried, and whether a send to one succeeded. -/
  | sending (jobId : UInt64) (task : Tagged DispatcherMiningTask) (i : Nat) (reached : Bool)

/-- Where `shareValidationLoop` stands. -/
inductive ValidPhase
  | idle
  /-- A solution that is no repetition, before the lookup. -/
  | popped (sol : DispatcherMiningSolution)
  /-- Before the test of `isConnected`. -/
  | accepted (sol : DispatcherMiningSolution) (task : Tagged DispatcherMiningTask)
  /-- Before the send. -/
  | submitting (message : Json) (task : Tagged DispatcherMiningTask)

/-- A `mining.submit` that was sent, with the connection it went out on. -/
structure SentShare where
  message : Json
  task : Tagged DispatcherMiningTask
  session : Nat
  /-- `initStratumProtocol` has returned, and the pool has authorized. -/
  handshaken : Bool
  granted : Option (List UInt8)

structure Dispatcher where
  pool : PoolPhase
  /-- `isConnected()` of the pool connection. -/
  connected : Bool
  extraNonce1 : List UInt8
  recvStratumMessages : ConcurrentQueue (Tagged Json)
  dist : DistPhase
  currentPoolDifficulty : DifficultyTarget
  /-- The static packet buffer. -/
  buffer : ByteArr packetBufferSize
  activeTasks : ConcurrentHashMap UInt64 (Tagged DispatcherMiningTask)
  recvQubicSolutions : ConcurrentQueue DispatcherMiningSolution
  valid : ValidPhase
  /-- The locals of the validation loop, and the counters of all threads. -/
  share : ShareState
  /-- Ghost: the pool connections opened so far. -/
  session : Nat
  /-- Ghost: the first nonce granted on this connection. -/
  granted : Option (List UInt8)
  /-- Ghost: the handshake on this connection has read that it is authorized. -/
  authorized : Bool
  /-- Ghost: the jobs that have reached a peer and were not cleared since. -/
  live : List UInt64
  /-- Ghost: the jobs of the solutions counted as stale, each with whether it
  was live. -/
  stale : List (UInt64 × Bool)
  /-- Ghost. -/
  submissions : List SentShare

namespace Dispatcher

/-- After a handshake in `main` that the pool agreed to, and that left
`extraNonce1` and the messages. -/
def initial (extraNonce1 : List UInt8) (messages : List Json) : Dispatcher where
  pool := .receiving
  connected := true
  extraNonce1
  recvStratumMessages := ⟨messages.map fun msg => ⟨msg, 0⟩⟩
  dist := .idle
  currentPoolDifficulty := poolBaseDifficulty
  buffer := ByteArr.fill _ 0
  activeTasks := .empty
  recvQubicSolutions := .empty
  valid := .idle
  share := .initial
  session := 0
  granted := some extraNonce1
  authorized := true
  live := []
  stale := []
  submissions := []

def setStats (s : Dispatcher) (stats : DispatcherStats) : Dispatcher :=
  { s with share := { s.share with stats } }

/-! ## The pool thread -/

inductive PoolEvent
  /-- The receive loop has a line that parses. -/
  | receive (msg : Json)
  /-- A read that brings nothing. -/
  | lose
  /-- A reconnect succeeds; one that fails changes nothing. -/
  | connect
  /-- What the first read of the handshake brings, if anything. -/
  | subscribeReply (response : Option Json)
  /-- The next line of the second read. -/
  | authorizeLine (response : Json)
  /-- No further line: `initStratumProtocol` returns true. -/
  | authorizeEnd

def push (s : Dispatcher) (msg : Json) : Dispatcher :=
  { s with recvStratumMessages := s.recvStratumMessages.push ⟨msg, s.session⟩ }

/-- `closeConnection`, and the wait for the next attempt. -/
def closePool (s : Dispatcher) : Dispatcher := { s with connected := false, pool := .waiting }

/-- The id of the request to authorize. -/
def answersAuthorize (response : Json) : Bool :=
  match response.field "id".toList with
  | .ok id => id.eqInt 2
  | .error _ => false

def poolStep (s : Dispatcher) : PoolEvent → Option Dispatcher
  | .receive msg => if s.pool = .receiving then some (s.push msg) else none
  | .lose => if s.pool = .receiving then some s.closePool else none
  | .connect =>
    if s.pool = .waiting then
      some { s with
        connected := true
        pool := .subscribing
        session := s.session + 1
        granted := none
        authorized := false }
    else none
  | .subscribeReply response =>
    if s.pool = .subscribing then
      match response with
      | none => some s.closePool
      | some response =>
        match readSubscribeResponse response with
        | .error _ => none
        | .ok .rejected => some s.closePool
        | .ok (.subscribed extraNonce1 extraNonce2NumBytes) =>
          if extraNonce2NumBytes ≠ 8 then some { s.closePool with extraNonce1 }
          else some { s with extraNonce1, granted := some extraNonce1, pool := .authorizing }
    else none
  | .authorizeLine response =>
    if s.pool = .authorizing then
      match readAuthorizeLine response with
      | .error _ => none
      | .ok .nothing => some { s with authorized := s.authorized || answersAuthorize response }
      | .ok .refused => some s.closePool
      | .ok (.message msg) => some (s.push msg)
    else none
  | .authorizeEnd => if s.pool = .authorizing then some { s with pool := .receiving } else none

/-! ## The distributor -/

inductive DistEvent
  | popMessage
  /-- `try_pop` in the draining loop. -/
  | tryPop
  /-- Into `distributeTask`, up to `activeTasks.clear()`. -/
  | clear
  /-- From there to the signed packet; the clock is the job id. -/
  | prepare (now : UInt64)
  /-- The send to the next peer. -/
  | send (ok : Bool)
  /-- `activeTasks.insert`. -/
  | store

/-- What a message that is no notify does; either loop does it. -/
def applyMessage (s : Dispatcher) (msg : Json) : StratumMessage → Dispatcher
  | .setDifficulty divisor =>
    { s.setStats { s.share.stats with poolDifficulty := divisor } with
      currentPoolDifficulty := .ofFullRep (divideTarget poolBaseDifficulty.fullRep divisor) }
  | .shareResponse => s.setStats (checkShareResponse msg s.share.stats)
  | .ignored | .notify _ => s

section
variable (signTaskPacket : List UInt8 → ByteArr 64) (numPeers : Nat)

def distStep (s : Dispatcher) : DistEvent → Option Dispatcher
  | .popMessage =>
    match s.dist, s.recvStratumMessages.tryPop with
    | .idle, some (msg, queue) =>
      match readMessage msg.value with
      | .error _ => none
      | .ok (.notify cleanJobQueue) =>
        some { s with recvStratumMessages := queue, dist := .draining msg cleanJobQueue }
      | .ok other => some { s.applyMessage msg.value other with recvStratumMessages := queue }
    | _, _ => none
  | .tryPop =>
    match s.dist, s.recvStratumMessages.tryPop with
    | .draining latest cleanJobQueue, none =>
      some { s with dist := .distributing latest cleanJobQueue }
    | .draining _ cleanJobQueue, some (msg, queue) =>
      match readMessage msg.value with
      | .error _ => none
      | .ok (.notify nextClean) =>
        some { s with
          recvStratumMessages := queue
          dist := .draining msg (cleanJobQueue || nextClean) }
      | .ok other => some { s.applyMessage msg.value other with recvStratumMessages := queue }
    | _, _ => none
  | .clear =>
    match s.dist with
    | .distributing task propagateCleanJobFlag =>
      match (task.value.field "params".toList).bind (cleanFlag · propagateCleanJobFlag) with
      | .error _ => none
      | .ok true =>
        some { s with activeTasks := s.activeTasks.clear, live := [], dist := .preparing task true }
      | .ok false => some { s with dist := .preparing task false }
    | _ => none
  | .prepare now =>
    match s.dist with
    | .preparing task cleanJobQueue =>
      match (task.value.field "params".toList).bind fun params =>
          prepareTask signTaskPacket s.buffer params s.extraNonce1 s.currentPoolDifficulty
            cleanJobQueue now with
      | .error _ => none
      | .ok .wrongSize | .ok .tooLarge => some { s with dist := .idle }
      | .ok (.offsetMismatch built) =>
        some { s with buffer := ByteArr.copy _ built.buffer, dist := .idle }
      | .ok (.ready parsed built) =>
        some { s with
          buffer := ByteArr.copy _ built.buffer
          dist := .sending now ⟨parsed.dispatcherTask, task.session⟩ 0 false }
    | _ => none
  | .send ok =>
    match s.dist with
    | .sending jobId task i reached =>
      if i < numPeers then
        some { s with
          dist := .sending jobId task (i + 1) (reached || ok)
          live := if ok then jobId :: s.live else s.live }
      else none
    | _ => none
  | .store =>
    match s.dist with
    | .sending jobId task i _ =>
      if i < numPeers then none
      else
        some { s.setStats { s.share.stats with
            tasksDistributed := s.share.stats.tasksDistributed + 1 } with
          activeTasks := s.activeTasks.insert jobId task
          dist := .idle }
    | _ => none

end

/-! ## The validation loop -/

inductive ValidEvent
  | popSolution
  /-- The lookup, with the clock. -/
  | judge (now : Int)
  /-- The test of `isConnected`. -/
  | check
  | submit (ok : Bool)

section
variable (scrypt : List UInt8 → ByteArr 32) (workerName : Str)

def validStep (s : Dispatcher) : ValidEvent → Option Dispatcher
  | .popSolution =>
    match s.valid, s.recvQubicSolutions.tryPop with
    | .idle, some (sol, queue) =>
      match deduplicate s.share sol with
      | none => some { s with recvQubicSolutions := queue }
      | some share => some { s with recvQubicSolutions := queue, share, valid := .popped sol }
    | _, _ => none
  | .judge now =>
    match s.valid with
    | .popped sol =>
      match s.activeTasks.get sol.jobId with
      | none =>
        some { s with
          share := (DogeConnect.judge scrypt s.share sol none now).1
          stale := (sol.jobId, decide (sol.jobId ∈ s.live)) :: s.stale
          valid := .idle }
      | some task =>
        match DogeConnect.judge scrypt s.share sol (some task.value) now with
        | (share, none) => some { s with share, valid := .idle }
        | (share, some _) => some { s with share, valid := .accepted sol task }
    | _ => none
  | .check =>
    match s.valid with
    | .accepted sol task =>
      match DogeConnect.submit workerName s.connected s.share task.value sol with
      | (share, none) => some { s with share, valid := .idle }
      | (share, some message) => some { s with share, valid := .submitting message task }
    | _ => none
  | .submit ok =>
    match s.valid with
    | .submitting message task =>
      if s.connected = false then some { s with valid := .idle }
      else if ok = false then some { s with connected := false, valid := .idle }
      else
        some { s with
          submissions := s.submissions ++
            [⟨message, task, s.session, decide (s.pool = .receiving ∧ s.authorized), s.granted⟩]
          valid := .idle }
    | _ => none

end

/-! ## The system -/

inductive Event
  | pool (e : PoolEvent)
  | dist (e : DistEvent)
  | valid (e : ValidEvent)
  /-- `qubicReceiveLoop` pushes a solution. -/
  | solution (sol : DispatcherMiningSolution)

section
variable (signTaskPacket : List UInt8 → ByteArr 64) (numPeers : Nat)
  (scrypt : List UInt8 → ByteArr 32) (workerName : Str)

def step (s : Dispatcher) : Event → Option Dispatcher
  | .pool e => s.poolStep e
  | .dist e => s.distStep signTaskPacket numPeers e
  | .valid e => s.validStep scrypt workerName e
  | .solution sol => some { s with recvQubicSolutions := s.recvQubicSolutions.push sol }

end

/-! ## What a step can do -/

inductive PoolStep (s : Dispatcher) : PoolEvent → Dispatcher → Prop
  | receive (msg : Json) (hpool : s.pool = .receiving) : PoolStep s (.receive msg) (s.push msg)
  | lose (hpool : s.pool = .receiving) : PoolStep s .lose s.closePool
  | connect (hpool : s.pool = .waiting) : PoolStep s .connect
      { s with
        connected := true
        pool := .subscribing
        session := s.session + 1
        granted := none
        authorized := false }
  | rejected (response : Option Json) (hpool : s.pool = .subscribing) :
      PoolStep s (.subscribeReply response) s.closePool
  | wrongSize (response : Option Json) (extraNonce1 : List UInt8) (hpool : s.pool = .subscribing) :
      PoolStep s (.subscribeReply response) { s.closePool with extraNonce1 }
  | subscribed (response : Option Json) (extraNonce1 : List UInt8) (hpool : s.pool = .subscribing) :
      PoolStep s (.subscribeReply response)
        { s with extraNonce1, granted := some extraNonce1, pool := .authorizing }
  | nothing (response : Json) (hpool : s.pool = .authorizing) :
      PoolStep s (.authorizeLine response)
        { s with authorized := s.authorized || answersAuthorize response }
  | refused (response : Json) (hpool : s.pool = .authorizing) :
      PoolStep s (.authorizeLine response) s.closePool
  | message (response msg : Json) (hpool : s.pool = .authorizing) :
      PoolStep s (.authorizeLine response) (s.push msg)
  | authorizeEnd (hpool : s.pool = .authorizing) :
      PoolStep s .authorizeEnd { s with pool := .receiving }

theorem poolStep_cases {s s' : Dispatcher} {e : PoolEvent} (hs : s.poolStep e = some s') :
    PoolStep s e s' := by
  cases e with
  | receive msg =>
      simp only [poolStep] at hs
      split at hs
      next hpool => cases hs; exact .receive msg hpool
      next => cases hs
  | lose =>
      simp only [poolStep] at hs
      split at hs
      next hpool => cases hs; exact .lose hpool
      next => cases hs
  | connect =>
      simp only [poolStep] at hs
      split at hs
      next hpool => cases hs; exact .connect hpool
      next => cases hs
  | subscribeReply response =>
      simp only [poolStep] at hs
      split at hs
      next hpool =>
        split at hs
        · cases hs; exact .rejected _ hpool
        · split at hs
          · cases hs
          · cases hs; exact .rejected _ hpool
          · split at hs
            · cases hs; exact .wrongSize _ _ hpool
            · cases hs; exact .subscribed _ _ hpool
      next => cases hs
  | authorizeLine response =>
      simp only [poolStep] at hs
      split at hs
      next hpool =>
        split at hs
        · cases hs
        · cases hs; exact .nothing response hpool
        · cases hs; exact .refused response hpool
        · cases hs; exact .message response _ hpool
      next => cases hs
  | authorizeEnd =>
      simp only [poolStep] at hs
      split at hs
      next hpool => cases hs; exact .authorizeEnd hpool
      next => cases hs

section
variable (signTaskPacket : List UInt8 → ByteArr 64) (numPeers : Nat)

inductive DistStep (s : Dispatcher) : DistEvent → Dispatcher → Prop
  /-- A message that is no notify, in either loop. -/
  | apply {e : DistEvent} {msg : Tagged Json} {queue : ConcurrentQueue (Tagged Json)}
      {other : StratumMessage} (hevent : e = .popMessage ∨ e = .tryPop)
      (hpop : s.recvStratumMessages.tryPop = some (msg, queue)) :
      DistStep s e { s.applyMessage msg.value other with recvStratumMessages := queue }
  | popNotify {msg : Tagged Json} {queue : ConcurrentQueue (Tagged Json)} {cleanJobQueue : Bool}
      (hdist : s.dist = .idle) (hpop : s.recvStratumMessages.tryPop = some (msg, queue))
      (hread : readMessage msg.value = .ok (.notify cleanJobQueue)) :
      DistStep s .popMessage
        { s with recvStratumMessages := queue, dist := .draining msg cleanJobQueue }
  | drained {latest : Tagged Json} {cleanJobQueue : Bool}
      (hdist : s.dist = .draining latest cleanJobQueue) :
      DistStep s .tryPop { s with dist := .distributing latest cleanJobQueue }
  | drainNotify {latest msg : Tagged Json} {queue : ConcurrentQueue (Tagged Json)}
      {cleanJobQueue nextClean : Bool} (hdist : s.dist = .draining latest cleanJobQueue)
      (hpop : s.recvStratumMessages.tryPop = some (msg, queue))
      (hread : readMessage msg.value = .ok (.notify nextClean)) :
      DistStep s .tryPop
        { s with recvStratumMessages := queue, dist := .draining msg (cleanJobQueue || nextClean) }
  | clean {task : Tagged Json} {propagateCleanJobFlag : Bool}
      (hdist : s.dist = .distributing task propagateCleanJobFlag) :
      DistStep s .clear
        { s with activeTasks := s.activeTasks.clear, live := [], dist := .preparing task true }
  | keep {task : Tagged Json} {propagateCleanJobFlag : Bool}
      (hdist : s.dist = .distributing task propagateCleanJobFlag) :
      DistStep s .clear { s with dist := .preparing task false }
  | dropped (now : UInt64) (buffer : ByteArr packetBufferSize) {task : Tagged Json}
      {cleanJobQueue : Bool} (hdist : s.dist = .preparing task cleanJobQueue) :
      DistStep s (.prepare now) { s with buffer, dist := .idle }
  | prepared (now : UInt64) (buffer : ByteArr packetBufferSize) {task : Tagged Json}
      {cleanJobQueue : Bool} {params : Json} {parsed : ParsedTask} {built : BuiltPacket}
      (hdist : s.dist = .preparing task cleanJobQueue)
      (hready : prepareTask signTaskPacket s.buffer params s.extraNonce1 s.currentPoolDifficulty
        cleanJobQueue now = .ok (.ready parsed built)) :
      DistStep s (.prepare now)
        { s with buffer, dist := .sending now ⟨parsed.dispatcherTask, task.session⟩ 0 false }
  | send (ok : Bool) {jobId : UInt64} {task : Tagged DispatcherMiningTask} {i : Nat}
      {reached : Bool} (hdist : s.dist = .sending jobId task i reached) (hi : i < numPeers) :
      DistStep s (.send ok)
        { s with
          dist := .sending jobId task (i + 1) (reached || ok)
          live := if ok then jobId :: s.live else s.live }
  | store {jobId : UInt64} {task : Tagged DispatcherMiningTask} {i : Nat} {reached : Bool}
      (hdist : s.dist = .sending jobId task i reached) (hi : ¬ i < numPeers) :
      DistStep s .store
        { s.setStats { s.share.stats with
            tasksDistributed := s.share.stats.tasksDistributed + 1 } with
          activeTasks := s.activeTasks.insert jobId task
          dist := .idle }

variable {signTaskPacket numPeers}

theorem distStep_cases {s s' : Dispatcher} {e : DistEvent}
    (hs : s.distStep signTaskPacket numPeers e = some s') :
    DistStep signTaskPacket numPeers s e s' := by
  cases e with
  | popMessage =>
      simp only [distStep] at hs
      split at hs
      next msg queue hdist hpop =>
        split at hs
        · cases hs
        next hread => cases hs; exact .popNotify hdist hpop hread
        · cases hs; exact .apply (.inl rfl) hpop
      next => cases hs
  | tryPop =>
      simp only [distStep] at hs
      split at hs
      next hdist hpop => cases hs; exact .drained hdist
      next msg queue hdist hpop =>
        split at hs
        · cases hs
        next hread => cases hs; exact .drainNotify hdist hpop hread
        · cases hs; exact .apply (.inr rfl) hpop
      next => cases hs
  | clear =>
      simp only [distStep] at hs
      split at hs
      next hdist =>
        split at hs
        · cases hs
        · cases hs; exact .clean hdist
        · cases hs; exact .keep hdist
      next => cases hs
  | prepare now =>
      simp only [distStep] at hs
      split at hs
      next hdist =>
        split at hs
        · cases hs
        · cases hs; exact .dropped now _ hdist
        · cases hs; exact .dropped now _ hdist
        · cases hs; exact .dropped now _ hdist
        next hready =>
          cases hs
          obtain ⟨params, -, hready⟩ := except_bind_eq_ok.mp hready
          exact .prepared now _ hdist hready
      next => cases hs
  | send ok =>
      simp only [distStep] at hs
      split at hs
      next hdist =>
        split at hs
        next hi => cases hs; exact .send ok hdist hi
        next => cases hs
      next => cases hs
  | store =>
      simp only [distStep] at hs
      split at hs
      next hdist =>
        split at hs
        next => cases hs
        next hi => cases hs; exact .store hdist hi
      next => cases hs

end

section
variable (scrypt : List UInt8 → ByteArr 32) (workerName : Str)

inductive ValidStep (s : Dispatcher) : ValidEvent → Dispatcher → Prop
  | repetition {sol : DispatcherMiningSolution} {queue : ConcurrentQueue DispatcherMiningSolution}
      (hvalid : s.valid = .idle) (hpop : s.recvQubicSolutions.tryPop = some (sol, queue)) :
      ValidStep s .popSolution { s with recvQubicSolutions := queue }
  | popped {sol : DispatcherMiningSolution} {queue : ConcurrentQueue DispatcherMiningSolution}
      (hvalid : s.valid = .idle) (hpop : s.recvQubicSolutions.tryPop = some (sol, queue)) :
      ValidStep s .popSolution
        { s with recvQubicSolutions := queue, share := admitted s.share sol, valid := .popped sol }
  | stale (now : Int) {sol : DispatcherMiningSolution} (hvalid : s.valid = .popped sol)
      (hget : s.activeTasks.get sol.jobId = none) :
      ValidStep s (.judge now) { s with
        share := countStale s.share
        stale := (sol.jobId, decide (sol.jobId ∈ s.live)) :: s.stale
        valid := .idle }
  | failed (now : Int) {sol : DispatcherMiningSolution} {task : Tagged DispatcherMiningTask}
      (hvalid : s.valid = .popped sol) (hget : s.activeTasks.get sol.jobId = some task) :
      ValidStep s (.judge now) { s with share := reject s.share, valid := .idle }
  | accepted (now : Int) {sol : DispatcherMiningSolution} {task : Tagged DispatcherMiningTask}
      (hvalid : s.valid = .popped sol) (hget : s.activeTasks.get sol.jobId = some task)
      (hmeets : meetsTarget scrypt task.value sol = true) :
      ValidStep s (.judge now)
        { s with share := credit s.share sol now, valid := .accepted sol task }
  | offline {sol : DispatcherMiningSolution} {task : Tagged DispatcherMiningTask}
      (hvalid : s.valid = .accepted sol task) (hconnected : s.connected = false) :
      ValidStep s .check { s with valid := .idle }
  | check {sol : DispatcherMiningSolution} {task : Tagged DispatcherMiningTask}
      (hvalid : s.valid = .accepted sol task) (hconnected : s.connected = true) :
      ValidStep s .check { s with
        share := { s.share with nextStratumSendId := s.share.nextStratumSendId + 1 }
        valid := .submitting
          (submitMessage workerName s.share.nextStratumSendId task.value sol) task }
  | closed (ok : Bool) {message : Json} {task : Tagged DispatcherMiningTask}
      (hvalid : s.valid = .submitting message task) :
      ValidStep s (.submit ok) { s with valid := .idle }
  | broken (ok : Bool) {message : Json} {task : Tagged DispatcherMiningTask}
      (hvalid : s.valid = .submitting message task) :
      ValidStep s (.submit ok) { s with connected := false, valid := .idle }
  | submitted (ok : Bool) {message : Json} {task : Tagged DispatcherMiningTask}
      (hvalid : s.valid = .submitting message task) (hconnected : s.connected = true) :
      ValidStep s (.submit ok) { s with
        submissions := s.submissions ++
          [⟨message, task, s.session, decide (s.pool = .receiving ∧ s.authorized), s.granted⟩]
        valid := .idle }

variable {scrypt workerName}

theorem validStep_cases {s s' : Dispatcher} {e : ValidEvent}
    (hs : s.validStep scrypt workerName e = some s') : ValidStep scrypt workerName s e s' := by
  cases e with
  | popSolution =>
      simp only [validStep] at hs
      split at hs
      next sol queue hvalid hpop =>
        split at hs
        · cases hs; exact .repetition hvalid hpop
        next share hshare =>
          cases hs
          unfold deduplicate at hshare
          split at hshare
          · cases hshare
          · cases hshare; exact .popped hvalid hpop
      next => cases hs
  | judge now =>
      simp only [validStep] at hs
      split at hs
      next sol hvalid =>
        split at hs
        next hget => cases hs; exact .stale now hvalid hget
        next task hget =>
          rw [judge_some] at hs
          split at hs
          next share hjudge =>
            cases hs
            split at hjudge
            · cases hjudge
            · cases hjudge; exact .failed now hvalid hget
          next share task' hjudge =>
            cases hs
            split at hjudge
            next hmeets => cases hjudge; exact .accepted now hvalid hget hmeets
            · cases hjudge
      next => cases hs
  | check =>
      simp only [validStep] at hs
      split at hs
      next sol task hvalid =>
        by_cases hconnected : s.connected = true
        · rw [DogeConnect.submit, if_pos hconnected] at hs
          cases hs
          exact .check hvalid hconnected
        · rw [DogeConnect.submit, if_neg hconnected] at hs
          cases hs
          exact .offline hvalid (Bool.eq_false_iff.mpr hconnected)
      next => cases hs
  | submit ok =>
      simp only [validStep] at hs
      split at hs
      next message task hvalid =>
        split at hs
        next => cases hs; exact .closed ok hvalid
        next hconnected =>
          split at hs
          · cases hs; exact .broken ok hvalid
          · cases hs; exact .submitted ok hvalid (Bool.not_eq_false _ ▸ hconnected)
      next => cases hs

end

end Dispatcher

end DogeConnect
