/-
The solutions counted for a peer, while another thread pops them.

`processRecvBuffer` does not learn from `processSolution` whether it pushed: it
reads the size of the queue before and after.  The share validation thread pops
from the same queue, so the call is taken apart here into the steps between
which a pop can fall: a round of the loop up to the first read of the size, the
push, the second read.

    call_run              without pops the steps are `processRecvBuffer`
    countInv_step         size, pops and pushes between the two reads add up
    compare_exact_iff     a push is counted unless a pop fell between the reads
    solutions_exact_iff   the runs in which the count is the number of pushes
-/
import DogeConnect.QubicRecv
import DogeConnect.Lib.Run

namespace DogeConnect

/-! ## The call, step by step -/

/-- Where a call of `processRecvBuffer` stands. -/
inductive CallPhase where
  /-- No call for this peer is under way. -/
  | idle
  | loop (pos : Nat)
  /-- `queueSizeBefore` has been read. -/
  | sized (pos packetSize queueSizeBefore : Nat)
  /-- `processSolution` has returned. -/
  | processed (pos packetSize queueSizeBefore : Nat)
  deriving DecidableEq, Repr

structure PeerCall where
  queue : ConcurrentQueue DispatcherMiningSolution
  buffer : List UInt8
  stats : PeerStats
  phase : CallPhase
  /-- Solutions pushed for the peer. -/
  pushed : Nat
  /-- Solutions popped since `queueSizeBefore` was read. -/
  popped : Nat
  deriving Repr

inductive PeerAction where
  /-- Bytes are read from the peer and the call begins. -/
  | read (bytes : List UInt8)
  /-- The head of the packet loop, up to the first read of the size. -/
  | round
  | process
  /-- The second read of the size, and the count. -/
  | compare
  /-- The share validation thread pops. -/
  | pop
  /-- The receive thread serves other peers; the queue may become any queue. -/
  | others (queue : ConcurrentQueue DispatcherMiningSolution)
  deriving Repr

namespace PeerCall

/-- A peer whose stream buffer is empty. -/
def start (queue : ConcurrentQueue DispatcherMiningSolution) (stats : PeerStats) : PeerCall :=
  ⟨queue, [], stats, .idle, 0, 0⟩

/-- The head of the loop, from a position. -/
def round (s : PeerCall) (pos : Nat) : PeerCall :=
  if pos + RequestResponseHeader.layout.width ≤ s.buffer.length then
    let packetSize := headerSize (s.buffer.drop pos)
    if packetSize < RequestResponseHeader.layout.width ∨ packetSize > maxPacketSize then
      { s with buffer := [], phase := .idle }
    else if (pos + packetSize) % 2 ^ 32 > s.buffer.length then
      { s with buffer := s.buffer.drop pos, phase := .idle }
    else
      { s with
        stats := { s.stats with packetsReceived := s.stats.packetsReceived + 1 }
        phase := .sized pos packetSize s.queue.size
        popped := 0 }
  else { s with buffer := s.buffer.drop pos, phase := .idle }

/-- The packet at a position. -/
def packet (s : PeerCall) (pos packetSize : Nat) : List UInt8 :=
  (s.buffer.drop pos).take packetSize

section
variable (kangarooTwelve : List UInt8 → ByteArr 32)
  (verify : ByteArr 32 → ByteArr 32 → List UInt8 → Bool)

/-- Whether `processSolution` pushes the packet's solution. -/
def pushes (s : PeerCall) (pos packetSize : Nat) : Bool :=
  (readSolution kangarooTwelve verify (s.packet pos packetSize)).isSome

def process (s : PeerCall) (pos packetSize queueSizeBefore : Nat) : PeerCall :=
  { s with
    queue := processSolution kangarooTwelve verify (s.packet pos packetSize) s.queue
    phase := .processed pos packetSize queueSizeBefore
    pushed := s.pushed + (s.pushes kangarooTwelve verify pos packetSize).toNat }

def compare (s : PeerCall) (pos packetSize queueSizeBefore : Nat) : PeerCall :=
  { s with
    stats := if s.queue.size > queueSizeBefore then
        { s.stats with solutionsReceived := s.stats.solutionsReceived + 1 }
      else s.stats
    phase := .loop ((pos + packetSize) % 2 ^ 32) }

def step (s : PeerCall) : PeerAction → Option PeerCall
  | .read bytes =>
    if s.phase = .idle then some { s with buffer := s.buffer ++ bytes, phase := .loop 0 } else none
  | .round =>
    match s.phase with
    | .loop pos => some (s.round pos)
    | _ => none
  | .process =>
    match s.phase with
    | .sized pos packetSize before => some (s.process kangarooTwelve verify pos packetSize before)
    | _ => none
  | .compare =>
    match s.phase with
    | .processed pos packetSize before => some (s.compare pos packetSize before)
    | _ => none
  | .pop =>
    match s.queue.tryPop with
    | none => none
    | some (_, queue) => some { s with queue, popped := s.popped + 1 }
  | .others queue => if s.phase = .idle then some { s with queue } else none

/-! ## Without pops -/

variable {kangarooTwelve verify} in
/-- The rounds of a call, with nothing in between, are `processRecvBuffer`. -/
theorem call_run {buf : List UInt8} {fuel pos : Nat} {s : PeerCall} {sums : List (Nat × Nat)}
    {r : RecvResult (ConcurrentQueue DispatcherMiningSolution × PeerStats)}
    (hphase : s.phase = .loop pos) (hbuf : s.buffer = buf)
    (hr : recvLoop (handlePacket kangarooTwelve verify) buf fuel pos (s.queue, s.stats) sums
      = some r) :
    ∃ as t, Run.exec (step kangarooTwelve verify) s as = some t ∧ t.phase = .idle ∧
      t.buffer = r.buffer ∧ t.queue = r.state.1 ∧ t.stats = r.state.2 := by
  induction fuel generalizing pos s sums with
  | zero => cases hr
  | succ fuel ih =>
      subst hbuf
      have hround : s.step kangarooTwelve verify .round = some (s.round pos) := by
        simp only [step, hphase]
      rw [recvLoop] at hr
      rw [round] at hround
      split at hr
      next hheader =>
        rw [if_pos hheader] at hround
        dsimp only at hr hround
        split at hr
        next hbroken =>
          cases hr
          rw [if_pos hbroken] at hround
          exact ⟨[.round], _, Run.exec_one hround, rfl, rfl, rfl, rfl⟩
        next hbroken =>
          rw [if_neg hbroken] at hround
          split at hr
          next hpart =>
            cases hr
            rw [if_pos hpart] at hround
            exact ⟨[.round], _, Run.exec_one hround, rfl, rfl, rfl, rfl⟩
          next hpart =>
            rw [if_neg hpart] at hround
            -- the packet is handled in three steps, and the loop goes on behind it
            obtain ⟨as, t, hrun, hidle⟩ := ih (s := (PeerCall.process kangarooTwelve verify
              { s with
                stats := { s.stats with packetsReceived := s.stats.packetsReceived + 1 }
                phase := .sized pos (headerSize (s.buffer.drop pos)) s.queue.size
                popped := 0 } pos (headerSize (s.buffer.drop pos)) s.queue.size).compare pos
                  (headerSize (s.buffer.drop pos)) s.queue.size) rfl rfl hr
            refine ⟨.round :: .process :: .compare :: as, t, ?_, hidle⟩
            rw [Run.exec, hround]
            exact hrun
      next hheader =>
        cases hr
        rw [if_neg hheader] at hround
        exact ⟨[.round], _, Run.exec_one hround, rfl, rfl, rfl, rfl⟩

/-! ## Counting -/

/-- Between packets, the peer's count has grown by what was pushed for it. -/
def Exact (received : Nat) (s : PeerCall) : Prop :=
  match s.phase with
  | .idle | .loop _ => s.stats.solutionsReceived = received + s.pushed
  | _ => True

/-- No solution is popped between the two reads of the size around a packet
whose solution is pushed. -/
def NonePopped (s : PeerCall) : PeerAction → Prop
  | .compare => ∀ pos packetSize before, s.phase = .processed pos packetSize before →
      s.pushes kangarooTwelve verify pos packetSize = true → s.popped = 0
  | _ => True

/-- Inside a packet the count lags by its push, and the size of the queue is
told by the pushes and pops since it was read. -/
def CountInv (received : Nat) (s : PeerCall) : Prop :=
  match s.phase with
  | .idle | .loop _ => s.stats.solutionsReceived = received + s.pushed
  | .sized _ _ before =>
    s.stats.solutionsReceived = received + s.pushed ∧ s.queue.size + s.popped = before
  | .processed pos packetSize before =>
    s.stats.solutionsReceived + (s.pushes kangarooTwelve verify pos packetSize).toNat
        = received + s.pushed ∧
      s.queue.size + s.popped = before + (s.pushes kangarooTwelve verify pos packetSize).toNat

variable {kangarooTwelve verify}

theorem size_processSolution (recvData : List UInt8)
    (queue : ConcurrentQueue DispatcherMiningSolution) :
    (processSolution kangarooTwelve verify recvData queue).size
      = queue.size + (readSolution kangarooTwelve verify recvData).isSome.toNat := by
  rw [processSolution]
  cases readSolution kangarooTwelve verify recvData with
  | none => rfl
  | some sol => simp [ConcurrentQueue.push, ConcurrentQueue.size]

theorem size_tryPop {q q' : ConcurrentQueue DispatcherMiningSolution}
    {v : DispatcherMiningSolution} (h : q.tryPop = some (v, q')) : q.size = q'.size + 1 := by
  rw [ConcurrentQueue.tryPop_eq_some] at h
  rw [ConcurrentQueue.size, h, List.length_cons]
  rfl

theorem round_countInv {received pos : Nat} {s : PeerCall}
    (h : s.stats.solutionsReceived = received + s.pushed) :
    (s.round pos).Exact received ∧ CountInv kangarooTwelve verify received (s.round pos) := by
  rw [round]
  split
  · dsimp only
    split
    · exact ⟨h, h⟩
    · split
      · exact ⟨h, h⟩
      · exact ⟨trivial, h, rfl⟩
  · exact ⟨h, h⟩

theorem compare_exact_iff {received pos packetSize before : Nat} {s : PeerCall}
    (hphase : s.phase = .processed pos packetSize before)
    (h : CountInv kangarooTwelve verify received s) :
    (s.compare pos packetSize before).Exact received ↔
      (s.pushes kangarooTwelve verify pos packetSize = true → s.popped = 0) := by
  simp only [CountInv, hphase] at h
  obtain ⟨hcount, hsize⟩ := h
  simp only [Exact, compare]
  cases hpush : s.pushes kangarooTwelve verify pos packetSize with
  | false =>
      rw [hpush, Bool.toNat_false] at hcount hsize
      rw [if_neg (by omega)]
      exact iff_of_true (by omega) nofun
  | true =>
      rw [hpush, Bool.toNat_true] at hcount hsize
      split
      · exact ⟨fun _ _ => by omega, fun _ => hcount⟩
      · exact ⟨fun heq => by omega, fun hpop => by have := hpop rfl; omega⟩

theorem countInv_step {received : Nat} (s : PeerCall) (a : PeerAction) (s' : PeerCall)
    (h : CountInv kangarooTwelve verify received s) (hexact : s.Exact received)
    (hs : s.step kangarooTwelve verify a = some s') :
    (s'.Exact received ↔ NonePopped kangarooTwelve verify s a) ∧
      (s'.Exact received → CountInv kangarooTwelve verify received s') := by
  cases a with
  | read bytes =>
      obtain ⟨hphase, hs⟩ | ⟨-, hs⟩ := ite_eq_iff.mp hs
      · cases hs
        simp only [Exact, hphase] at hexact
        exact ⟨iff_of_true hexact trivial, fun _ => hexact⟩
      · cases hs
  | round =>
      simp only [step] at hs
      split at hs
      next pos hphase =>
        cases hs
        simp only [Exact, hphase] at hexact
        have hround : (s.round pos).Exact received ∧
            CountInv kangarooTwelve verify received (s.round pos) := round_countInv hexact
        exact ⟨iff_of_true hround.1 trivial, fun _ => hround.2⟩
      next => cases hs
  | process =>
      simp only [step] at hs
      split at hs
      next pos packetSize before hphase =>
        cases hs
        simp only [CountInv, hphase] at h
        refine ⟨iff_of_true trivial trivial, fun _ => ?_⟩
        simp only [CountInv, process, size_processSolution]
        exact ⟨by simp only [pushes, packet]; omega, by simp only [pushes, packet]; omega⟩
      next => cases hs
  | compare =>
      simp only [step] at hs
      split at hs
      next pos packetSize before hphase =>
        cases hs
        constructor
        · rw [compare_exact_iff hphase h]
          constructor
          · intro hnone pos' packetSize' before' hphase'
            rw [hphase] at hphase'
            cases hphase'
            exact hnone
          · intro hnone
            exact hnone pos packetSize before hphase
        · exact id
      next => cases hs
  | pop =>
      simp only [step] at hs
      split at hs
      · cases hs
      next v queue hpop =>
        cases hs
        have hsize := size_tryPop hpop
        cases hphase : s.phase with
        | idle =>
            simp only [Exact, CountInv, NonePopped, hphase] at hexact ⊢
            exact ⟨iff_of_true hexact trivial, id⟩
        | loop pos =>
            simp only [Exact, CountInv, NonePopped, hphase] at hexact ⊢
            exact ⟨iff_of_true hexact trivial, id⟩
        | sized pos packetSize before =>
            simp only [Exact, CountInv, NonePopped, hphase] at h ⊢
            exact ⟨trivial, fun _ => ⟨h.1, by omega⟩⟩
        | processed pos packetSize before =>
            simp only [Exact, CountInv, NonePopped, hphase] at h ⊢
            exact ⟨trivial, fun _ => ⟨h.1, by simp only [pushes, packet] at h ⊢; omega⟩⟩
  | others queue =>
      obtain ⟨hphase, hs⟩ | ⟨-, hs⟩ := ite_eq_iff.mp hs
      · cases hs
        simp only [Exact, hphase] at hexact
        simp only [Exact, CountInv, NonePopped, hphase]
        exact ⟨iff_of_true hexact trivial, id⟩
      · cases hs

/-- The peer's count grows by the number of its pushes, in every state between
packets, in just those runs in which no pushed solution's window has a pop. -/
theorem solutions_exact_iff (kangarooTwelve : List UInt8 → ByteArr 32)
    (verify : ByteArr 32 → ByteArr 32 → List UInt8 → Bool)
    (queue : ConcurrentQueue DispatcherMiningSolution) (stats : PeerStats)
    (as : List PeerAction) :
    Run.Always (step kangarooTwelve verify) (Exact stats.solutionsReceived) (start queue stats) as ↔
      Run.Along (step kangarooTwelve verify) (NonePopped kangarooTwelve verify)
        (start queue stats) as :=
  Run.always_iff_along (I := CountInv kangarooTwelve verify stats.solutionsReceived)
    countInv_step rfl rfl

/-- A solution packet, all of whose fields are zero. -/
def zeroSolution : List UInt8 := [161, 0, 0, 69, 0, 0, 0, 0] ++ List.replicate 153 0

/-- The validation thread is quick: it pops before the size is read again. -/
def quickPop : List PeerAction := [.read zeroSolution, .round, .process, .pop, .compare]

theorem quickPop_uncounted :
    (Run.exec (step (fun _ => default) fun _ _ _ => true) (start .empty ⟨0, 0, 0, 0, 0⟩)
      quickPop).map (fun s => (s.phase, s.stats.solutionsReceived, s.pushed))
      = some (.loop 161, 0, 1) := by
  decide +kernel

theorem solutions_not_always_exact :
    ¬ ∀ (kangarooTwelve : List UInt8 → ByteArr 32)
      (verify : ByteArr 32 → ByteArr 32 → List UInt8 → Bool)
      (queue : ConcurrentQueue DispatcherMiningSolution) (stats : PeerStats)
      (as : List PeerAction),
      Run.Always (step kangarooTwelve verify) (Exact stats.solutionsReceived)
        (start queue stats) as := by
  intro hall
  obtain ⟨t, ht, heq⟩ := Option.map_eq_some_iff.mp quickPop_uncounted
  have hexact := (hall (fun _ => default) (fun _ _ _ => true) .empty ⟨0, 0, 0, 0, 0⟩ quickPop).exec
    ht
  obtain ⟨hphase, hcount⟩ := Prod.mk.inj heq
  obtain ⟨hreceived, hpushed⟩ := Prod.mk.inj hcount
  simp only [Exact, hphase, hreceived, hpushed] at hexact
  cases hexact

end

end PeerCall

end DogeConnect
