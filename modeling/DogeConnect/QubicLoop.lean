/-
`qubicReceiveLoop`: the connections to the Qubic peers and their reconnects.

The loop owns the connections, but the task distributor sends on them, and a
send that fails sets `isConnected` to false from the other thread.  The loop is
therefore modelled as steps, one for each point at which the distributor can
come in between: a round of the initial scheduling, of `buildPollList`, of the
scan in `tryOneReconnect`, of the pass over the poll list.

What the operating system answers (the result of a connect, of a poll, of a
read, the clock) is part of the action.  `socketPollList` and `pollToConnIdx`
are always extended and cleared together and are one list of pairs here.
-/
import DogeConnect.QubicRecv
import DogeConnect.Lib.Run
import Mathlib.Logic.Function.Basic

namespace DogeConnect

/-! ## `QubicConnection` -/

structure QubicConnection where
  isConnected : Bool
  /-- `none` is `INVALID_SKT`. -/
  rawSocket : Option Nat
  /-- An IP address and a port are set. -/
  hasPeer : Bool
  deriving DecidableEq, Repr

/-- What the calls inside `openQubicConnection` come to. -/
inductive OpenResult
  /-- No address, no connect, or a timeout. -/
  | failed
  /-- A connected socket, and whether the handshake message was sent. -/
  | opened (fd : Nat) (handshakeSent : Bool)
  deriving DecidableEq, Repr

namespace QubicConnection

def closeConnection (c : QubicConnection) : QubicConnection :=
  { c with rawSocket := none, isConnected := false }

/-- The result of the handshake's `sendMessage` is dropped: the function
returns true all the same. -/
def openQubicConnection (c : QubicConnection) : OpenResult → QubicConnection × Bool
  | .failed => (c.closeConnection, false)
  | .opened fd handshakeSent =>
    ({ c.closeConnection with rawSocket := some fd, isConnected := handshakeSent }, true)

def reconnect (c : QubicConnection) (result : OpenResult) : QubicConnection × Bool :=
  if c.hasPeer then c.openQubicConnection result else (c, false)

/-- A `sendMessage` that fails; the socket stays open. -/
def sendFails (c : QubicConnection) : QubicConnection := { c with isConnected := false }

/-- A connected connection has a socket. -/
def Valid (c : QubicConnection) : Prop := c.isConnected = true → ∃ fd, c.rawSocket = some fd

theorem closeConnection_valid (c : QubicConnection) : c.closeConnection.Valid :=
  fun h => nomatch h

theorem sendFails_valid (c : QubicConnection) : c.sendFails.Valid := fun h => nomatch h

theorem reconnect_valid {c : QubicConnection} (h : c.Valid) (result : OpenResult) :
    (c.reconnect result).1.Valid := by
  unfold reconnect
  split
  · cases result with
    | failed => exact c.closeConnection_valid
    | opened fd sent => exact fun _ => ⟨fd, rfl⟩
  · exact h

end QubicConnection

/-! ## `ReconnectState` -/

def reconnectBaseDelaySec : Nat := 2

def reconnectMaxDelaySec : Nat := 60

/-- The clock counts nanoseconds. -/
def ticksPerSec : Nat := 1000000000

structure ReconnectState where
  delaySec : Nat
  /-- `none` is `time_point::min`, no pending reconnect. -/
  nextRetryTime : Option Nat
  deriving DecidableEq, Repr

namespace ReconnectState

def initial : ReconnectState := ⟨reconnectBaseDelaySec, none⟩

def scheduleRetry (rs : ReconnectState) (now : Nat) : ReconnectState :=
  { rs with nextRetryTime := some (now + rs.delaySec * ticksPerSec) }

def backoff (rs : ReconnectState) : ReconnectState :=
  { rs with delaySec := if rs.delaySec < reconnectBaseDelaySec then reconnectBaseDelaySec
      else min (rs.delaySec * 2) reconnectMaxDelaySec }

def reset (_ : ReconnectState) : ReconnectState := ⟨reconnectBaseDelaySec, none⟩

def isPending (rs : ReconnectState) : Bool := rs.nextRetryTime.isSome

def isReady (rs : ReconnectState) (now : Nat) : Bool :=
  match rs.nextRetryTime with
  | none => false
  | some time => decide (time ≤ now)

@[simp] theorem isPending_scheduleRetry (rs : ReconnectState) (now : Nat) :
    (rs.scheduleRetry now).isPending = true := rfl

theorem isPending_of_isReady {rs : ReconnectState} {now : Nat} (h : rs.isReady now = true) :
    rs.isPending = true := by
  unfold isReady at h
  unfold isPending
  cases hr : rs.nextRetryTime with
  | none => rw [hr] at h; cases h
  | some time => rfl

end ReconnectState

/-! ## The loop's state -/

/-- A connection with what the loop keeps for it. -/
structure Peer where
  connection : QubicConnection
  recvBuffer : List UInt8
  reconnectState : ReconnectState
  stats : PeerStats
  deriving DecidableEq, Repr

/-- What follows a `buildPollList`. -/
inductive AfterBuild
  /-- The head of the `while` loop. -/
  | top
  /-- The test whether the list is empty. -/
  | poll
  deriving DecidableEq, Repr

/-- Where the loop stands. -/
inductive RecvPhase
  /-- Scheduling the connects that are missing at the start. -/
  | schedule (i : Nat)
  | build (i : Nat) (next : AfterBuild)
  /-- The head of the `while` loop. -/
  | top
  /-- Inside `tryOneReconnect`. -/
  | scan (scanned : Nat)
  | poll
  /-- The pass over the poll list. -/
  | handle (p : Nat) (needRebuild : Bool)
  deriving DecidableEq, Repr

def AfterBuild.phase : AfterBuild → RecvPhase
  | .top => .top
  | .poll => .poll

structure RecvState (n : Nat) where
  peers : Fin n → Peer
  queue : ConcurrentQueue DispatcherMiningSolution
  nextReconnIdx : Nat
  /-- Descriptor and connection of each entry. -/
  socketPollList : List (Option Nat × Fin n)
  phase : RecvPhase

inductive PollResult
  | ready | timeout | error
  deriving DecidableEq, Repr

/-- What `poll` reports of one socket, with the read that follows. -/
inductive SocketEvent
  | quiet
  | data (bytes : List UInt8)
  /-- `read` returns 0 or an error. -/
  | closed
  | errHup
  deriving DecidableEq, Repr

inductive RecvAction (n : Nat)
  | schedule (now : Nat)
  | build
  /-- No stop is requested. -/
  | iterate
  /-- The clock at `isReady` and, after a failure, at `scheduleRetry`. -/
  | scan (now later : Nat) (result : OpenResult)
  | poll (result : PollResult)
  | handle (event : SocketEvent) (now : Nat)
  /-- The distributor's `sendMessage` to a peer fails. -/
  | sendFails (i : Fin n)
  deriving DecidableEq, Repr

namespace RecvState

variable {n : Nat}

def setPeer (s : RecvState n) (i : Fin n) (p : Peer) : RecvState n :=
  { s with peers := Function.update s.peers i p }

@[simp] theorem setPeer_self (s : RecvState n) (i : Fin n) (p : Peer) :
    (s.setPeer i p).peers i = p := Function.update_self ..

theorem setPeer_of_ne (s : RecvState n) {i j : Fin n} (p : Peer) (h : j ≠ i) :
    (s.setPeer i p).peers j = s.peers j := Function.update_of_ne h ..

/-- A connection as `main` leaves it after its first `reconnect`. -/
def initialPeer (hasPeer : Bool) (result : OpenResult) : Peer where
  connection := ((⟨false, none, hasPeer⟩ : QubicConnection).reconnect result).1
  recvBuffer := []
  reconnectState := .initial
  stats := ⟨0, 0, 0, 0, 0⟩

/-- The start of the loop, given how the first connects came out. -/
def initial (first : Fin n → Bool × OpenResult) : RecvState n where
  peers i := initialPeer (first i).1 (first i).2
  queue := .empty
  nextReconnIdx := 0
  socketPollList := []
  phase := .schedule 0

/-! ## The steps -/

/-- `buildPollList` up to its loop. -/
def startBuild (s : RecvState n) (next : AfterBuild) : RecvState n :=
  { s with socketPollList := [], phase := .build 0 next }

/-- One round of the initial scheduling; after the last the list is built. -/
def scheduleConnect (s : RecvState n) (i now : Nat) : RecvState n :=
  if h : i < n then
    let p := s.peers ⟨i, h⟩
    if p.connection.isConnected then { s with phase := .schedule (i + 1) }
    else
      { s.setPeer ⟨i, h⟩ { p with
          reconnectState := { p.reconnectState with delaySec := 0 }.scheduleRetry now } with
        phase := .schedule (i + 1) }
  else s.startBuild .top

/-- One round of `buildPollList`. -/
def buildPollList (s : RecvState n) (i : Nat) (next : AfterBuild) : RecvState n :=
  if h : i < n then
    let c := (s.peers ⟨i, h⟩).connection
    { s with
      socketPollList := s.socketPollList ++
        if c.isConnected then [(c.rawSocket, ⟨i, h⟩)] else []
      phase := .build (i + 1) next }
  else { s with phase := next.phase }

/-- One round of `tryOneReconnect`; it returns after the first attempt. -/
def tryOneReconnect (s : RecvState n) (scanned now later : Nat) (result : OpenResult) :
    RecvState n :=
  if h : scanned < n then
    let i : Fin n := ⟨s.nextReconnIdx % n, Nat.mod_lt _ (Nat.zero_lt_of_lt h)⟩
    let p := s.peers i
    let s := { s with nextReconnIdx := (s.nextReconnIdx + 1) % n }
    if p.reconnectState.isReady now = false then { s with phase := .scan (scanned + 1) }
    else
      match p.connection.reconnect result with
      | (connection, true) =>
        (s.setPeer i { p with
          connection
          reconnectState := p.reconnectState.reset
          stats := { p.stats with reconnects := p.stats.reconnects + 1 } }).startBuild .poll
      | (connection, false) =>
        { s.setPeer i { p with
            connection
            reconnectState := p.reconnectState.backoff.scheduleRetry later } with
          phase := .poll }
  else { s with phase := .poll }

def markDisconnected (p : Peer) (now : Nat) : Peer where
  connection := p.connection.closeConnection
  recvBuffer := []
  reconnectState := p.reconnectState.scheduleRetry now
  stats := { p.stats with disconnects := p.stats.disconnects + 1 }

/-- The wait for data, skipped when no peer is connected. -/
def pollSockets (s : RecvState n) (result : PollResult) : RecvState n :=
  if s.socketPollList = [] then { s with phase := .top }
  else
    match result with
    | .ready => { s with phase := .handle 0 false }
    | .timeout => { s with phase := .top }
    | .error => s.startBuild .top

variable (kangarooTwelve : List UInt8 → ByteArr 32)
  (verify : ByteArr 32 → ByteArr 32 → List UInt8 → Bool)

/-- One round of the pass over the poll list. -/
def handleSocket (s : RecvState n) (p : Nat) (needRebuild : Bool) (event : SocketEvent)
    (now : Nat) : Option (RecvState n) :=
  match s.socketPollList[p]? with
  | none => some (if needRebuild then s.startBuild .top else { s with phase := .top })
  | some (_, i) =>
    let peer := s.peers i
    match event with
    | .quiet => some { s with phase := .handle (p + 1) needRebuild }
    | .data bytes =>
      if bytes = [] ∨ readBufSize < bytes.length then none
      else
        let stats := { peer.stats with bytesReceived := peer.stats.bytesReceived + bytes.length }
        (processRecvBuffer (handlePacket kangarooTwelve verify) (peer.recvBuffer ++ bytes)
          (s.queue, stats)).map fun r =>
            { s.setPeer i { peer with recvBuffer := r.buffer, stats := r.state.2 } with
              queue := r.state.1
              phase := .handle (p + 1) needRebuild }
    | .closed | .errHup =>
      some { s.setPeer i (markDisconnected peer now) with phase := .handle (p + 1) true }

/-- A step of the loop, or of the distributor.  A stop ends the run. -/
def step (s : RecvState n) : RecvAction n → Option (RecvState n)
  | .schedule now =>
    match s.phase with
    | .schedule i => some (s.scheduleConnect i now)
    | _ => none
  | .build =>
    match s.phase with
    | .build i next => some (s.buildPollList i next)
    | _ => none
  | .iterate => if s.phase = .top then some { s with phase := .scan 0 } else none
  | .scan now later result =>
    match s.phase with
    | .scan scanned => some (s.tryOneReconnect scanned now later result)
    | _ => none
  | .poll result => if s.phase = .poll then some (s.pollSockets result) else none
  | .handle event now =>
    match s.phase with
    | .handle p needRebuild => s.handleSocket kangarooTwelve verify p needRebuild event now
    | _ => none
  | .sendFails i =>
    some (s.setPeer i { s.peers i with connection := (s.peers i).connection.sendFails })

/-! ## What a step can do -/

/-- A step by its outcome, with what leads to it. -/
inductive Step (s : RecvState n) : RecvAction n → RecvState n → Prop
  | present {i : Fin n} (now : Nat) (hphase : s.phase = .schedule i)
      (hconnected : (s.peers i).connection.isConnected = true) :
      Step s (.schedule now) { s with phase := .schedule (i + 1) }
  | scheduled {i : Fin n} (now : Nat) (hphase : s.phase = .schedule i)
      (hconnected : (s.peers i).connection.isConnected = false) :
      Step s (.schedule now)
        { s.setPeer i { s.peers i with
            reconnectState :=
              { (s.peers i).reconnectState with delaySec := 0 }.scheduleRetry now } with
          phase := .schedule (i + 1) }
  | allScheduled {k : Nat} (now : Nat) (hphase : s.phase = .schedule k) (hk : ¬ k < n) :
      Step s (.schedule now) (s.startBuild .top)
  | listed {i : Fin n} {next : AfterBuild} (hphase : s.phase = .build i next)
      (hconnected : (s.peers i).connection.isConnected = true) :
      Step s .build { s with
        socketPollList := s.socketPollList ++ [((s.peers i).connection.rawSocket, i)]
        phase := .build (i + 1) next }
  | passedOver {i : Fin n} {next : AfterBuild} (hphase : s.phase = .build i next)
      (hconnected : (s.peers i).connection.isConnected = false) :
      Step s .build { s with phase := .build (i + 1) next }
  | built {k : Nat} {next : AfterBuild} (hphase : s.phase = .build k next) (hk : ¬ k < n) :
      Step s .build { s with phase := next.phase }
  | iterate (hphase : s.phase = .top) : Step s .iterate { s with phase := .scan 0 }
  | notReady {k : Nat} {i : Fin n} (now later : Nat) (result : OpenResult)
      (hphase : s.phase = .scan k) (hi : i.val = s.nextReconnIdx % n)
      (hready : (s.peers i).reconnectState.isReady now = false) :
      Step s (.scan now later result)
        { s with nextReconnIdx := (s.nextReconnIdx + 1) % n, phase := .scan (k + 1) }
  | reconnected {k : Nat} {i : Fin n} (now later : Nat) {result : OpenResult}
      {connection : QubicConnection} (hphase : s.phase = .scan k)
      (hi : i.val = s.nextReconnIdx % n)
      (hready : (s.peers i).reconnectState.isReady now = true)
      (hreconnect : (s.peers i).connection.reconnect result = (connection, true)) :
      Step s (.scan now later result)
        (({ s with nextReconnIdx := (s.nextReconnIdx + 1) % n }.setPeer i { s.peers i with
            connection
            reconnectState := (s.peers i).reconnectState.reset
            stats := { (s.peers i).stats with
              reconnects := (s.peers i).stats.reconnects + 1 } }).startBuild .poll)
  | notReconnected {k : Nat} {i : Fin n} (now later : Nat) {result : OpenResult}
      {connection : QubicConnection} (hphase : s.phase = .scan k)
      (hi : i.val = s.nextReconnIdx % n)
      (hready : (s.peers i).reconnectState.isReady now = true)
      (hreconnect : (s.peers i).connection.reconnect result = (connection, false)) :
      Step s (.scan now later result)
        { { s with nextReconnIdx := (s.nextReconnIdx + 1) % n }.setPeer i { s.peers i with
            connection
            reconnectState := (s.peers i).reconnectState.backoff.scheduleRetry later } with
          phase := .poll }
  | noneReady {k : Nat} (now later : Nat) (result : OpenResult) (hphase : s.phase = .scan k)
      (hk : ¬ k < n) : Step s (.scan now later result) { s with phase := .poll }
  | allDown (result : PollResult) (hphase : s.phase = .poll) (hlist : s.socketPollList = []) :
      Step s (.poll result) { s with phase := .top }
  | ready (hphase : s.phase = .poll) (hlist : s.socketPollList ≠ []) :
      Step s (.poll .ready) { s with phase := .handle 0 false }
  | timeout (hphase : s.phase = .poll) (hlist : s.socketPollList ≠ []) :
      Step s (.poll .timeout) { s with phase := .top }
  | pollError (hphase : s.phase = .poll) (hlist : s.socketPollList ≠ []) :
      Step s (.poll .error) (s.startBuild .top)
  | handled {p : Nat} (event : SocketEvent) (now : Nat) (hphase : s.phase = .handle p false)
      (hentry : s.socketPollList[p]? = none) : Step s (.handle event now) { s with phase := .top }
  | rebuild {p : Nat} (event : SocketEvent) (now : Nat) (hphase : s.phase = .handle p true)
      (hentry : s.socketPollList[p]? = none) : Step s (.handle event now) (s.startBuild .top)
  | quiet {p : Nat} {needRebuild : Bool} {entry : Option Nat × Fin n} (now : Nat)
      (hphase : s.phase = .handle p needRebuild) (hentry : s.socketPollList[p]? = some entry) :
      Step s (.handle .quiet now) { s with phase := .handle (p + 1) needRebuild }
  | data {p : Nat} {needRebuild : Bool} {fd : Option Nat} {i : Fin n} {bytes : List UInt8}
      {r : RecvResult (ConcurrentQueue DispatcherMiningSolution × PeerStats)} (now : Nat)
      (hphase : s.phase = .handle p needRebuild)
      (hentry : s.socketPollList[p]? = some (fd, i))
      (hbytes : bytes ≠ [] ∧ bytes.length ≤ readBufSize)
      (hr : processRecvBuffer (handlePacket kangarooTwelve verify)
        ((s.peers i).recvBuffer ++ bytes) (s.queue, { (s.peers i).stats with
          bytesReceived := (s.peers i).stats.bytesReceived + bytes.length }) = some r) :
      Step s (.handle (.data bytes) now)
        { s.setPeer i { s.peers i with recvBuffer := r.buffer, stats := r.state.2 } with
          queue := r.state.1
          phase := .handle (p + 1) needRebuild }
  | lost {p : Nat} {needRebuild : Bool} {fd : Option Nat} {i : Fin n} {event : SocketEvent}
      (now : Nat) (hphase : s.phase = .handle p needRebuild)
      (hentry : s.socketPollList[p]? = some (fd, i)) (hevent : event = .closed ∨ event = .errHup) :
      Step s (.handle event now)
        { s.setPeer i (markDisconnected (s.peers i) now) with phase := .handle (p + 1) true }
  | sendFails (i : Fin n) : Step s (.sendFails i)
      (s.setPeer i { s.peers i with connection := (s.peers i).connection.sendFails })

variable {kangarooTwelve verify}

theorem scheduleConnect_step {s : RecvState n} {k : Nat} (now : Nat) (hphase : s.phase = .schedule k) :
    Step kangarooTwelve verify s (.schedule now) (s.scheduleConnect k now) := by
  unfold scheduleConnect
  split
  next hk =>
    dsimp only
    split
    next hconnected => exact .present (i := ⟨k, hk⟩) now hphase hconnected
    next hconnected => exact .scheduled (i := ⟨k, hk⟩) now hphase (Bool.eq_false_iff.mpr hconnected)
  next hk => exact .allScheduled now hphase hk

theorem buildPollList_step {s : RecvState n} {k : Nat} {next : AfterBuild}
    (hphase : s.phase = .build k next) :
    Step kangarooTwelve verify s .build (s.buildPollList k next) := by
  unfold buildPollList
  split
  next hk =>
    dsimp only
    split
    next hconnected => exact .listed (i := ⟨k, hk⟩) hphase hconnected
    next hconnected =>
      rw [List.append_nil]
      exact .passedOver (i := ⟨k, hk⟩) hphase (Bool.eq_false_iff.mpr hconnected)
  next hk => exact .built hphase hk

theorem tryOneReconnect_step {s : RecvState n} {k : Nat} (now later : Nat) (result : OpenResult)
    (hphase : s.phase = .scan k) :
    Step kangarooTwelve verify s (.scan now later result)
      (s.tryOneReconnect k now later result) := by
  unfold tryOneReconnect
  split
  next hk =>
    dsimp only
    split
    next hready => exact .notReady now later result hphase rfl hready
    next hready =>
      rw [Bool.not_eq_false] at hready
      split
      next connection hreconnect => exact .reconnected now later hphase rfl hready hreconnect
      next connection hreconnect => exact .notReconnected now later hphase rfl hready hreconnect
  next hk => exact .noneReady now later result hphase hk

theorem pollSockets_step {s : RecvState n} (result : PollResult) (hphase : s.phase = .poll) :
    Step kangarooTwelve verify s (.poll result) (s.pollSockets result) := by
  unfold pollSockets
  split
  next hlist => exact .allDown result hphase hlist
  next hlist =>
    cases result with
    | ready => exact .ready hphase hlist
    | timeout => exact .timeout hphase hlist
    | error => exact .pollError hphase hlist

theorem handleSocket_step {s s' : RecvState n} {p now : Nat} {needRebuild : Bool}
    {event : SocketEvent} (hphase : s.phase = .handle p needRebuild)
    (hs : s.handleSocket kangarooTwelve verify p needRebuild event now = some s') :
    Step kangarooTwelve verify s (.handle event now) s' := by
  unfold handleSocket at hs
  split at hs
  next hentry =>
    cases hs
    cases needRebuild with
    | true => exact .rebuild event now hphase hentry
    | false => exact .handled event now hphase hentry
  next fd i hentry =>
    cases event with
    | quiet => cases hs; exact .quiet now hphase hentry
    | data bytes =>
        dsimp only at hs
        split at hs
        · cases hs
        next hbytes =>
          rw [not_or, Nat.not_lt] at hbytes
          obtain ⟨r, hr, rfl⟩ := Option.map_eq_some_iff.mp hs
          exact .data now hphase hentry hbytes hr
    | closed => cases hs; exact .lost now hphase hentry (.inl rfl)
    | errHup => cases hs; exact .lost now hphase hentry (.inr rfl)

theorem step_cases {s s' : RecvState n} {a : RecvAction n}
    (hs : s.step kangarooTwelve verify a = some s') : Step kangarooTwelve verify s a s' := by
  cases a with
  | schedule now =>
      simp only [step] at hs
      split at hs
      next hphase => cases hs; exact scheduleConnect_step now hphase
      next => cases hs
  | build =>
      simp only [step] at hs
      split at hs
      next hphase => cases hs; exact buildPollList_step hphase
      next => cases hs
  | iterate =>
      simp only [step] at hs
      split at hs
      next hphase => cases hs; exact .iterate hphase
      next => cases hs
  | scan now later result =>
      simp only [step] at hs
      split at hs
      next hphase => cases hs; exact tryOneReconnect_step now later result hphase
      next => cases hs
  | poll result =>
      simp only [step] at hs
      split at hs
      next hphase => cases hs; exact pollSockets_step result hphase
      next => cases hs
  | handle event now =>
      simp only [step] at hs
      split at hs
      next hphase => exact handleSocket_step hphase hs
      next => cases hs
  | sendFails i => cases hs; exact .sendFails i

/-! ## Reads return

A read is the one step that runs a loop of its own.  The buffers stay small
enough in every run for that loop to return. -/

/-- What is left in a stream buffer is less than a packet. -/
def BuffersBounded (s : RecvState n) : Prop :=
  ∀ i, (s.peers i).recvBuffer.length < maxPacketSize

theorem BuffersBounded.setPeer {s s' : RecvState n} (h : s.BuffersBounded) {i : Fin n} {p : Peer}
    (hpeers : s'.peers = (s.setPeer i p).peers) (hp : p.recvBuffer.length < maxPacketSize) :
    s'.BuffersBounded := by
  intro j
  rw [hpeers]
  by_cases hj : j = i
  · rw [hj, setPeer_self]
    exact hp
  · rw [setPeer_of_ne s p hj]
    exact h j

theorem BuffersBounded.read {s : RecvState n} (h : s.BuffersBounded) (i : Fin n)
    {bytes : List UInt8} (hsize : bytes.length ≤ readBufSize) (stats : PeerStats) :
    ∃ r, processRecvBuffer (handlePacket kangarooTwelve verify) ((s.peers i).recvBuffer ++ bytes)
      (s.queue, stats) = some r ∧ r.buffer.length < maxPacketSize := by
  have hbuffer := h i
  have hsmall : ((s.peers i).recvBuffer ++ bytes).length < maxPacketSize + readBufSize := by
    rw [List.length_append]
    omega
  exact processRecvBuffer_returns (handlePacket kangarooTwelve verify) hsmall (s.queue, stats)

theorem buffersBounded_step (s : RecvState n) (a : RecvAction n) (s' : RecvState n)
    (h : s.BuffersBounded) (hs : s.step kangarooTwelve verify a = some s') :
    s'.BuffersBounded := by
  cases step_cases hs with
  | scheduled now hphase hconnected => exact h.setPeer rfl (h _)
  | reconnected now later hphase hi hready hreconnect => exact h.setPeer rfl (h _)
  | notReconnected now later hphase hi hready hreconnect => exact h.setPeer rfl (h _)
  | @data p needRebuild fd i bytes r now hphase hentry hbytes hr =>
      obtain ⟨r', hr', hrest⟩ := h.read i hbytes.2 _
      rw [hr] at hr'
      cases hr'
      exact h.setPeer rfl hrest
  | @lost p needRebuild fd i event now hphase hentry hevent =>
      exact h.setPeer rfl (Nat.zero_lt_of_lt (h i))
  | sendFails i => exact h.setPeer rfl (h i)
  | _ => exact h

theorem buffersBounded_initial (first : Fin n → Bool × OpenResult) :
    (initial first).BuffersBounded := fun _ => Nat.succ_pos _

/-- In every run, whatever is read from a polled socket is processed. -/
theorem reads_always (first : Fin n → Bool × OpenResult) (as : List (RecvAction n)) :
    Run.Always (step kangarooTwelve verify) (fun s =>
      ∀ p needRebuild entry bytes now, s.phase = .handle p needRebuild →
        s.socketPollList[p]? = some entry → bytes ≠ [] → bytes.length ≤ readBufSize →
        ∃ s', s.step kangarooTwelve verify (.handle (.data bytes) now) = some s')
      (initial first) as := by
  refine Run.Always.mono ?_ (Run.always_of_step buffersBounded_step (buffersBounded_initial first))
  intro s h p needRebuild entry bytes now hphase hentry hbytes hsize
  obtain ⟨r, hr, -⟩ := h.read entry.2 hsize { (s.peers entry.2).stats with
    bytesReceived := (s.peers entry.2).stats.bytesReceived + bytes.length }
  simp only [step, hphase, handleSocket, hentry]
  rw [if_neg (not_or.mpr ⟨hbytes, Nat.not_lt.mpr hsize⟩), hr]
  exact ⟨_, rfl⟩

end RecvState

end DogeConnect
