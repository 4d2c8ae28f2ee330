/-
Sessions: does a share go out on the connection its job came in on?

The first handshake is over before the threads start.  A reconnect is made by
the receive thread while the others go on: it empties neither `activeTasks` nor
the message queue, and `isConnected` is true as soon as the socket is.  So a
task of the old connection, or one that waits in the queue or in a thread, can
be submitted on the new one, before its handshake is complete or after it, and
with the old first nonce.

What the code gets right is everything but the reconnect: if no task of a
connection before is solved, none has been when the connection is opened, and
the handshake ends with the pool's consent and before one of its jobs is taken
up, a share is always for a job of its own session (`sessionConsistent_always`).
-/
import DogeConnect.Dispatcher
import DogeConnect.TaskPacket
import DogeConnect.ShareDedup
import DogeConnect.Handshake

namespace DogeConnect

/-- The task a solution has been accepted for. -/
def ValidPhase.task? : ValidPhase → Option (Tagged DispatcherMiningTask)
  | .accepted _ task => some task
  | .submitting _ task => some task
  | _ => none

namespace Dispatcher

/-! ## Consistency -/

/-- Sent after the handshake, for a task of this session, built with the nonce
granted in it. -/
def SentShare.Consistent (share : SentShare) : Prop :=
  share.handshaken = true ∧ share.task.session = share.session ∧
    share.granted = some share.task.value.extraNonce1

def SessionConsistent (s : Dispatcher) : Prop := ∀ share ∈ s.submissions, SentShare.Consistent share

/-- A message `taskDistributionLoop` takes for a job. -/
def IsNotify (msg : Json) : Prop := ∃ cleanJobQueue, readMessage msg = .ok (.notify cleanJobQueue)

def Handshaking (s : Dispatcher) : Prop := s.pool = .subscribing ∨ s.pool = .authorizing

/-- No job of this connection is taken up before its handshake is over. -/
def NotTaken (s : Dispatcher) : Prop :=
  s.Handshaking → ∀ msg queue, s.recvStratumMessages.tryPop = some (msg, queue) →
    IsNotify msg.value → msg.session ≠ s.session

/-- Sessions are kept apart: a reconnect finds no solution accepted, its handshake reads that it is
authorized and no job of it is taken up until then, and no task of a session before is solved. -/
def KeepsApart (scrypt : List UInt8 → ByteArr 32) (s : Dispatcher) : Event → Prop
  | .pool .connect => s.valid.task? = none
  | .pool .authorizeEnd => s.authorized = true
  | .dist .popMessage => s.NotTaken
  | .dist .tryPop => s.NotTaken
  | .valid (.judge _) => ∀ sol task, s.valid = .popped sol →
      s.activeTasks.get sol.jobId = some task → meetsTarget scrypt task.value sol = true →
      task.session = s.session
  | _ => True

/-! ## The invariant -/

/-- A task of the session, with its nonce. -/
def Current (session : Nat) (extraNonce1 : List UInt8) (task : Tagged DispatcherMiningTask) : Prop :=
  task.session = session ∧ task.value.extraNonce1 = extraNonce1

/-- A task of a session before, or of this one with its nonce. -/
def Known (session : Nat) (extraNonce1 : List UInt8) (task : Tagged DispatcherMiningTask) : Prop :=
  task.session ≤ session ∧ (task.session = session → task.value.extraNonce1 = extraNonce1)

/-- The distributor works on a job of the session or of one before. -/
def Fresh (session : Nat) (extraNonce1 : List UInt8) : DistPhase → Prop
  | .idle => True
  | .draining msg _ => msg.session ≤ session
  | .distributing msg _ => msg.session ≤ session
  | .preparing msg _ => msg.session ≤ session
  | .sending _ task _ _ => Known session extraNonce1 task

/-- The session of the job in work. -/
def workedOn : DistPhase → Option Nat
  | .idle => none
  | .draining msg _ => some msg.session
  | .distributing msg _ => some msg.session
  | .preparing msg _ => some msg.session
  | .sending _ task _ _ => some task.session

theorem Fresh.le {session : Nat} {extraNonce1 : List UInt8} {phase : DistPhase}
    (h : Fresh session extraNonce1 phase) {n : Nat} (hn : workedOn phase = some n) :
    n ≤ session := by
  cases phase with
  | idle => cases hn
  | draining msg clean => exact (Option.some.inj hn) ▸ h
  | distributing msg clean => exact (Option.some.inj hn) ▸ h
  | preparing msg clean => exact (Option.some.inj hn) ▸ h
  | sending jobId task i reached => exact (Option.some.inj hn) ▸ h.1

theorem Known.renew {n n' : Nat} {extraNonce1 extraNonce1' : List UInt8}
    {task : Tagged DispatcherMiningTask} (h : Known n extraNonce1 task) (hle : n ≤ n')
    (hne : task.session ≠ n') : Known n' extraNonce1' task :=
  ⟨h.1.trans hle, fun heq => absurd heq hne⟩

theorem Fresh.renew {n n' : Nat} {extraNonce1 extraNonce1' : List UInt8} {phase : DistPhase}
    (h : Fresh n extraNonce1 phase) (hle : n ≤ n') (hne : workedOn phase ≠ some n') :
    Fresh n' extraNonce1' phase := by
  cases phase with
  | idle => trivial
  | draining msg clean => exact h.trans hle
  | distributing msg clean => exact h.trans hle
  | preparing msg clean => exact h.trans hle
  | sending jobId task i reached => exact Known.renew h hle fun heq => hne (congrArg some heq)

/-- No task of this connection is stored or in a thread's hands. -/
structure Quiet (s : Dispatcher) : Prop where
  active : ∀ jobId task, s.activeTasks.get jobId = some task → task.session ≠ s.session
  dist : workedOn s.dist ≠ some s.session
  valid : s.valid.task? = none

theorem Quiet.of_eq {s s' : Dispatcher} (h : Quiet s) (hsession : s'.session = s.session)
    (hdist : s'.dist = s.dist) (hactive : s'.activeTasks = s.activeTasks)
    (hvalid : s'.valid.task? = none) : Quiet s' where
  active := by
    rw [hactive, hsession]
    exact h.active
  dist := by
    rw [hdist, hsession]
    exact h.dist
  valid := hvalid

structure SessionInv (s : Dispatcher) : Prop where
  queued : ∀ msg ∈ s.recvStratumMessages.items, msg.session ≤ s.session
  dist : Fresh s.session s.extraNonce1 s.dist
  active : ∀ jobId task, s.activeTasks.get jobId = some task →
    Known s.session s.extraNonce1 task
  accepted : ∀ task, s.valid.task? = some task → Current s.session s.extraNonce1 task
  granted : s.pool = .authorizing ∨ s.pool = .receiving → s.granted = some s.extraNonce1
  authorized : s.pool = .receiving → s.authorized = true
  connected : s.connected = true → s.pool ≠ .waiting
  quiet : s.Handshaking → Quiet s
  consistent : SessionConsistent s

variable {signTaskPacket : List UInt8 → ByteArr 64} {numPeers : Nat}
  {scrypt : List UInt8 → ByteArr 32} {workerName : Str}

/-- What is left to show of a step that leaves the connection as it is, or
breaks it. -/
theorem SessionInv.update {s s' : Dispatcher} (h : SessionInv s) (hpool : s'.pool = s.pool)
    (hnonce : s'.extraNonce1 = s.extraNonce1) (hsession : s'.session = s.session)
    (hgranted : s'.granted = s.granted) (hauthorized : s'.authorized = s.authorized)
    (hconnected : s'.connected = true → s.connected = true)
    (hqueue : s'.recvStratumMessages.items ⊆ s.recvStratumMessages.items)
    (hdist : Fresh s.session s.extraNonce1 s'.dist)
    (hactive : ∀ jobId task, s'.activeTasks.get jobId = some task →
      Known s.session s.extraNonce1 task)
    (haccepted : ∀ task, s'.valid.task? = some task → Current s.session s.extraNonce1 task)
    (hquiet : s.Handshaking → Quiet s') (hconsistent : SessionConsistent s') : SessionInv s' where
  queued := by
    intro msg hmsg
    rw [hsession]
    exact h.queued msg (hqueue hmsg)
  dist := by
    rw [hsession, hnonce]
    exact hdist
  active := by
    rw [hsession, hnonce]
    exact hactive
  accepted := by
    rw [hsession, hnonce]
    exact haccepted
  granted := by
    rw [hpool, hgranted, hnonce]
    exact h.granted
  authorized := by
    rw [hpool, hauthorized]
    exact h.authorized
  connected := by
    rw [hpool]
    exact fun hc => h.connected (hconnected hc)
  quiet := by
    rw [Handshaking, hpool]
    exact hquiet
  consistent := hconsistent

/-! ## The pool thread -/

theorem push_inv {s : Dispatcher} (h : SessionInv s) (msg : Json) : SessionInv (s.push msg) where
  queued := by
    intro m hm
    rcases List.mem_append.mp hm with hm | hm
    · exact h.queued m hm
    · rw [List.mem_singleton.mp hm]
      exact Nat.le_refl _
  dist := h.dist
  active := h.active
  accepted := h.accepted
  granted := h.granted
  authorized := h.authorized
  connected := h.connected
  quiet hs := ⟨(h.quiet hs).active, (h.quiet hs).dist, (h.quiet hs).valid⟩
  consistent := h.consistent

theorem closePool_inv {s : Dispatcher} (h : SessionInv s) : SessionInv s.closePool where
  queued := h.queued
  dist := h.dist
  active := h.active
  accepted := h.accepted
  granted := by rintro (hpool | hpool) <;> cases hpool
  authorized := nofun
  connected := nofun
  quiet := by rintro (hpool | hpool) <;> cases hpool
  consistent := h.consistent

theorem SessionInv.renew {s s' : Dispatcher} (h : SessionInv s) (hquiet : Quiet s')
    (hsession : s.session ≤ s'.session) (hqueue : s'.recvStratumMessages = s.recvStratumMessages)
    (hdist : s'.dist = s.dist) (hactive : s'.activeTasks = s.activeTasks)
    (hgranted : s'.pool = .authorizing ∨ s'.pool = .receiving → s'.granted = some s'.extraNonce1)
    (hauthorized : s'.pool = .receiving → s'.authorized = true)
    (hconnected : s'.connected = true → s'.pool ≠ .waiting)
    (hsubmissions : s'.submissions = s.submissions) : SessionInv s' where
  queued := by
    intro msg hmsg
    rw [hqueue] at hmsg
    exact (h.queued msg hmsg).trans hsession
  dist := by
    have hdist' := hquiet.dist
    rw [hdist] at hdist' ⊢
    exact h.dist.renew hsession hdist'
  active := by
    intro jobId task hget
    have hne := hquiet.active jobId task hget
    rw [hactive] at hget
    exact (h.active jobId task hget).renew hsession hne
  accepted := by
    intro task htask
    rw [hquiet.valid] at htask
    cases htask
  granted := hgranted
  authorized := hauthorized
  connected := hconnected
  quiet _ := hquiet
  consistent := by
    rw [SessionConsistent, hsubmissions]
    exact h.consistent

/-- What is at hand when the connection is opened is of a session before. -/
theorem SessionInv.quiet_connect {s s' : Dispatcher} (h : SessionInv s) (hok : s.valid.task? = none)
    (hsession : s'.session = s.session + 1) (hdist : s'.dist = s.dist)
    (hactive : s'.activeTasks = s.activeTasks) (hvalid : s'.valid = s.valid) : Quiet s' where
  active := by
    intro jobId task hget
    rw [hactive] at hget
    have hle := (h.active jobId task hget).1
    omega
  dist := by
    intro hwork
    rw [hdist] at hwork
    have hle := h.dist.le hwork
    omega
  valid := by rw [hvalid, hok]

theorem poolStep_inv {s s' : Dispatcher} {e : PoolEvent} (h : SessionInv s)
    (hok : s.KeepsApart scrypt (.pool e)) (hs : PoolStep s e s') : SessionInv s' := by
  have hkept : ∀ {s' : Dispatcher}, s.Handshaking → s'.session = s.session → s'.dist = s.dist →
      s'.activeTasks = s.activeTasks → s'.valid = s.valid → Quiet s' :=
    fun hs hsession hdist hactive hvalid =>
      (h.quiet hs).of_eq hsession hdist hactive (hvalid ▸ (h.quiet hs).valid)
  cases hs with
  | receive msg hpool => exact push_inv h msg
  | lose hpool => exact closePool_inv h
  | connect hpool =>
      refine h.renew (h.quiet_connect hok rfl rfl rfl rfl) (Nat.le_succ _) rfl rfl rfl ?_ nofun nofun rfl
      rintro (hpool | hpool) <;> cases hpool
  | rejected response hpool => exact closePool_inv h
  | wrongSize response extraNonce1 hpool =>
      refine h.renew (hkept (.inl hpool) rfl rfl rfl rfl) (Nat.le_refl _) rfl rfl rfl ?_ nofun nofun rfl
      rintro (hpool | hpool) <;> cases hpool
  | subscribed response extraNonce1 hpool =>
      exact h.renew (hkept (.inl hpool) rfl rfl rfl rfl) (Nat.le_refl _) rfl rfl rfl (fun _ => rfl)
        nofun nofun rfl
  | nothing response hpool =>
      refine h.renew (hkept (.inr hpool) rfl rfl rfl rfl) (Nat.le_refl _) rfl rfl rfl
        (fun _ => h.granted (.inl hpool)) ?_ (fun _ => by rw [hpool]; nofun) rfl
      intro hreceiving
      cases hpool.symm.trans hreceiving
  | refused response hpool => exact closePool_inv h
  | message response msg hpool => exact push_inv h msg
  | authorizeEnd hpool =>
      exact h.renew (hkept (.inr hpool) rfl rfl rfl rfl) (Nat.le_refl _) rfl rfl rfl
        (fun _ => h.granted (.inl hpool)) (fun _ => hok) nofun rfl

/-! ## The distributor -/

theorem applyMessage_eq (s : Dispatcher) (msg : Json) (m : StratumMessage) :
    ∃ share difficulty, s.applyMessage msg m
      = { s with share, currentPoolDifficulty := difficulty } := by
  cases m <;> exact ⟨_, _, rfl⟩

theorem tail_subset {q q' : ConcurrentQueue (Tagged Json)} {msg : Tagged Json}
    (h : q.tryPop = some (msg, q')) : q'.items ⊆ q.items := by
  rw [ConcurrentQueue.tryPop_eq_some.mp h]
  exact List.subset_cons_self _ _

theorem mem_of_pop {q q' : ConcurrentQueue (Tagged Json)} {msg : Tagged Json}
    (h : q.tryPop = some (msg, q')) : msg ∈ q.items := by
  rw [ConcurrentQueue.tryPop_eq_some.mp h]
  exact List.mem_cons_self

theorem distStep_inv {s s' : Dispatcher} {e : DistEvent} (h : SessionInv s)
    (hok : s.KeepsApart scrypt (.dist e)) (hs : DistStep signTaskPacket numPeers s e s') :
    SessionInv s' := by
  have hfresh := h.dist
  have hother : s.Handshaking → workedOn s.dist ≠ some s.session := fun hs => (h.quiet hs).dist
  cases hs with
  | @apply e msg queue other hevent hpop =>
      obtain ⟨share, difficulty, happly⟩ := applyMessage_eq s msg.value other
      rw [happly]
      exact h.update rfl rfl rfl rfl rfl id (tail_subset hpop) h.dist h.active h.accepted
        (fun hs => ⟨(h.quiet hs).active, hother hs, (h.quiet hs).valid⟩) h.consistent
  | @popNotify msg queue cleanJobQueue hdist hpop hread =>
      exact h.update rfl rfl rfl rfl rfl id (tail_subset hpop) (h.queued msg (mem_of_pop hpop))
        h.active h.accepted (fun hs => ⟨(h.quiet hs).active,
          fun heq => hok hs msg queue hpop ⟨cleanJobQueue, hread⟩ (Option.some.inj heq),
          (h.quiet hs).valid⟩) h.consistent
  | @drained latest cleanJobQueue hdist =>
      rw [hdist] at hfresh hother
      exact h.update rfl rfl rfl rfl rfl id (List.Subset.refl _) hfresh h.active h.accepted
        (fun hs => ⟨(h.quiet hs).active, hother hs, (h.quiet hs).valid⟩) h.consistent
  | @drainNotify latest msg queue cleanJobQueue nextClean hdist hpop hread =>
      exact h.update rfl rfl rfl rfl rfl id (tail_subset hpop) (h.queued msg (mem_of_pop hpop))
        h.active h.accepted (fun hs => ⟨(h.quiet hs).active,
          fun heq => hok hs msg queue hpop ⟨nextClean, hread⟩ (Option.some.inj heq),
          (h.quiet hs).valid⟩) h.consistent
  | @clean task propagateCleanJobFlag hdist =>
      rw [hdist] at hfresh hother
      have hnone : ∀ jobId task', s.activeTasks.clear.get jobId ≠ some task' := by
        intro jobId task' hget
        rw [ConcurrentHashMap.get_clear] at hget
        cases hget
      exact h.update rfl rfl rfl rfl rfl id (List.Subset.refl _) hfresh
        (fun jobId task' hget => absurd hget (hnone jobId task')) h.accepted
        (fun hs => ⟨fun jobId task' hget => absurd hget (hnone jobId task'), hother hs,
          (h.quiet hs).valid⟩) h.consistent
  | @keep task propagateCleanJobFlag hdist =>
      rw [hdist] at hfresh hother
      exact h.update rfl rfl rfl rfl rfl id (List.Subset.refl _) hfresh h.active h.accepted
        (fun hs => ⟨(h.quiet hs).active, hother hs, (h.quiet hs).valid⟩) h.consistent
  | @dropped now buffer task cleanJobQueue hdist =>
      exact h.update rfl rfl rfl rfl rfl id (List.Subset.refl _) trivial h.active h.accepted
        (fun hs => ⟨(h.quiet hs).active, (Option.some_ne_none _).symm, (h.quiet hs).valid⟩) h.consistent
  | @prepared now buffer task cleanJobQueue params parsed built hdist hready =>
      rw [hdist] at hfresh hother
      have hnonce : parsed.dispatcherTask.extraNonce1 = s.extraNonce1 :=
        (parseTask_spec (prepareTask_ready _ hready).1).extraNonce1
      exact h.update rfl rfl rfl rfl rfl id (List.Subset.refl _) ⟨hfresh, fun _ => hnonce⟩ h.active
        h.accepted (fun hs => ⟨(h.quiet hs).active, hother hs, (h.quiet hs).valid⟩) h.consistent
  | @send ok jobId task i reached hdist hi =>
      rw [hdist] at hfresh hother
      exact h.update rfl rfl rfl rfl rfl id (List.Subset.refl _) hfresh h.active h.accepted
        (fun hs => ⟨(h.quiet hs).active, hother hs, (h.quiet hs).valid⟩) h.consistent
  | @store jobId task i reached hdist hi =>
      rw [hdist] at hfresh hother
      -- a task is found that was there, or the one that is stored
      have hfound : ∀ {k task'}, (s.activeTasks.insert jobId task).get k = some task' →
          task' = task ∨ s.activeTasks.get k = some task' := by
        intro k task' hget
        rw [ConcurrentHashMap.get_insert] at hget
        split at hget
        · exact .inl (Option.some.inj hget).symm
        · exact .inr hget
      refine h.update rfl rfl rfl rfl rfl id (List.Subset.refl _) trivial ?_ h.accepted
        (fun hs => ⟨?_, (Option.some_ne_none _).symm, (h.quiet hs).valid⟩) h.consistent
      · intro k task' hget
        rcases hfound hget with rfl | hget
        · exact hfresh
        · exact h.active k task' hget
      · intro k task' hget
        rcases hfound hget with rfl | hget
        · exact fun heq => hother hs (congrArg some heq)
        · exact (h.quiet hs).active k task' hget

/-! ## The validation loop -/

theorem SessionInv.dismiss {s s' : Dispatcher} (h : SessionInv s) (hpool : s'.pool = s.pool)
    (hnonce : s'.extraNonce1 = s.extraNonce1) (hsession : s'.session = s.session)
    (hgranted : s'.granted = s.granted) (hauthorized : s'.authorized = s.authorized)
    (hconnected : s'.connected = true → s.connected = true)
    (hqueue : s'.recvStratumMessages = s.recvStratumMessages) (hdist : s'.dist = s.dist)
    (hactive : s'.activeTasks = s.activeTasks) (hvalid : s'.valid.task? = none)
    (hconsistent : SessionConsistent s') : SessionInv s' := by
  refine h.update hpool hnonce hsession hgranted hauthorized hconnected (hqueue ▸ List.Subset.refl _)
    (hdist ▸ h.dist) (hactive ▸ h.active) ?_ ?_ hconsistent
  · intro task htask
    rw [hvalid] at htask
    cases htask
  · intro hs
    exact (h.quiet hs).of_eq hsession hdist hactive hvalid

theorem validStep_inv {s s' : Dispatcher} {e : ValidEvent} (h : SessionInv s)
    (hok : s.KeepsApart scrypt (.valid e)) (hs : ValidStep scrypt workerName s e s') :
    SessionInv s' := by
  cases hs with
  | @repetition sol queue hvalid hpop =>
      exact h.dismiss rfl rfl rfl rfl rfl id rfl rfl rfl (by rw [hvalid]; rfl) h.consistent
  | popped hvalid hpop => exact h.dismiss rfl rfl rfl rfl rfl id rfl rfl rfl rfl h.consistent
  | stale now hvalid hget => exact h.dismiss rfl rfl rfl rfl rfl id rfl rfl rfl rfl h.consistent
  | failed now hvalid hget => exact h.dismiss rfl rfl rfl rfl rfl id rfl rfl rfl rfl h.consistent
  | @accepted now sol task hvalid hget hmeets =>
      have hsession : task.session = s.session := hok sol task hvalid hget hmeets
      refine h.update rfl rfl rfl rfl rfl id (List.Subset.refl _) h.dist h.active ?_ ?_ h.consistent
      · intro task' htask
        cases htask
        exact ⟨hsession, (h.active _ _ hget).2 hsession⟩
      · intro hs
        exact absurd hsession ((h.quiet hs).active _ _ hget)
  | offline hvalid hconnected => exact h.dismiss rfl rfl rfl rfl rfl id rfl rfl rfl rfl h.consistent
  | @check sol task hvalid hconnected =>
      have htask : s.valid.task? = some task := by rw [hvalid]; rfl
      refine h.update rfl rfl rfl rfl rfl id (List.Subset.refl _) h.dist h.active ?_ ?_ h.consistent
      · intro task' htask'
        cases htask'
        exact h.accepted _ htask
      · intro hs
        rw [(h.quiet hs).valid] at htask
        cases htask
  | closed ok hvalid => exact h.dismiss rfl rfl rfl rfl rfl id rfl rfl rfl rfl h.consistent
  | broken ok hvalid => exact h.dismiss rfl rfl rfl rfl rfl nofun rfl rfl rfl rfl h.consistent
  | @submitted ok message task hvalid hconnected =>
      have htask : s.valid.task? = some task := by rw [hvalid]; rfl
      -- connected, with a task at hand: the handshake is over
      have hpool : s.pool = .receiving := by
        have hnot : ¬ s.Handshaking := by
          intro hs
          rw [(h.quiet hs).valid] at htask
          cases htask
        cases hp : s.pool with
        | receiving => rfl
        | waiting => exact absurd hp (h.connected hconnected)
        | subscribing => exact absurd (.inl hp) hnot
        | authorizing => exact absurd (.inr hp) hnot
      obtain ⟨hsession, hnonce⟩ := h.accepted task htask
      refine h.dismiss rfl rfl rfl rfl rfl id rfl rfl rfl rfl ?_
      intro share hshare
      rcases List.mem_append.mp hshare with hshare | hshare
      · exact h.consistent share hshare
      · rw [List.mem_singleton.mp hshare]
        exact ⟨decide_eq_true ⟨hpool, h.authorized hpool⟩, hsession, by rw [h.granted (.inr hpool), hnonce]⟩

/-! ## Runs -/

theorem sessionInv_step (s : Dispatcher) (e : Event) (s' : Dispatcher) (h : SessionInv s)
    (hok : s.KeepsApart scrypt e) (hs : s.step signTaskPacket numPeers scrypt workerName e = some s') :
    SessionInv s' := by
  cases e with
  | pool e => exact poolStep_inv h hok (poolStep_cases hs)
  | dist e => exact distStep_inv h hok (distStep_cases hs)
  | valid e => exact validStep_inv h hok (validStep_cases hs)
  | solution sol =>
      cases hs
      exact h.update rfl rfl rfl rfl rfl id (List.Subset.refl _) h.dist h.active h.accepted
        (fun hs => ⟨(h.quiet hs).active, (h.quiet hs).dist, (h.quiet hs).valid⟩) h.consistent

theorem sessionInv_initial (extraNonce1 : List UInt8) (messages : List Json) :
    SessionInv (initial extraNonce1 messages) where
  queued := by
    intro msg hmsg
    obtain ⟨m, -, rfl⟩ := List.mem_map.mp hmsg
    exact Nat.le_refl _
  dist := trivial
  active := nofun
  accepted := nofun
  granted _ := rfl
  authorized _ := rfl
  connected _ := nofun
  quiet := by rintro (hpool | hpool) <;> cases hpool
  consistent := nofun

/-- **When a share is for a job of its session.**  In a run in which no task of a connection
before is solved, nor has been when the pool is reconnected, whose handshakes end with the pool's
consent and before a job of theirs is taken up, every share goes out after the handshake, for a
task of the same session that was built with the nonce of that session. -/
theorem sessionConsistent_always (extraNonce1 : List UInt8) (messages : List Json)
    (es : List Event) (hok : Run.Along (step signTaskPacket numPeers scrypt workerName)
      (KeepsApart scrypt) (initial extraNonce1 messages) es) :
    Run.Always (step signTaskPacket numPeers scrypt workerName) SessionConsistent
      (initial extraNonce1 messages) es :=
  Run.Always.mono (fun _ h => h.consistent)
    (Run.always_of_along sessionInv_step (sessionInv_initial extraNonce1 messages) hok)

/-- A job is stored when the connection is lost; the next one is solved and submitted on the
next connection. -/
def nextJobRun : List Event :=
  [.dist .popMessage, .dist .tryPop, .dist .clear, .dist (.prepare 1700000000000),
    .dist (.send true), .dist .store, .pool .lose, .pool .connect,
    .pool (.subscribeReply (some subscribeValue)), .pool (.authorizeLine authorizeValue),
    .pool .authorizeEnd, .pool (.receive sampleNotify),
    .dist .popMessage, .dist .tryPop, .dist .clear, .dist (.prepare 1700000005000),
    .dist (.send true), .dist .store, .solution (zeroSolution 1700000005000),
    .valid .popSolution, .valid (.judge 1700000005), .valid .check, .valid (.submit true)]

theorem sessionConsistent_nextJob :
    ∃ s, Run.exec (step (fun _ => ByteArr.fill 64 0xab) 1 (fun _ => ByteArr.fill 32 0)
        "worker".toList) (initial [1, 2, 3, 4] [sampleNotify]) nextJobRun = some s ∧
      s.submissions.length = 1 ∧ SessionConsistent s := by
  have hlast : ∃ s, Run.exec (step (fun _ => ByteArr.fill 64 0xab) 1
      (fun _ => ByteArr.fill 32 0) "worker".toList) (initial [1, 2, 3, 4] [sampleNotify]) nextJobRun
        = some s ∧ s.submissions.length = 1 := ⟨_, rfl, rfl⟩
  obtain ⟨s, hs, hlength⟩ := hlast
  refine ⟨s, hs, hlength, (sessionConsistent_always [1, 2, 3, 4] [sampleNotify] nextJobRun ?_).exec hs⟩
  have hnot : ∀ {s : Dispatcher}, s.pool = .receiving → s.NotTaken := by
    rintro s hpool (hs | hs)
    · cases hpool.symm.trans hs
    · cases hpool.symm.trans hs
  -- the first job
  refine Run.Along.cons rfl (hnot rfl) (Run.Along.cons rfl (hnot rfl) (Run.Along.cons rfl trivial ?_))
  refine Run.Along.cons rfl trivial (Run.Along.cons rfl trivial (Run.Along.cons rfl trivial ?_))
  -- the connection
  refine Run.Along.cons rfl trivial (Run.Along.cons rfl rfl (Run.Along.cons rfl trivial ?_))
  refine Run.Along.cons rfl trivial (Run.Along.cons rfl rfl (Run.Along.cons rfl trivial ?_))
  -- the next job
  refine Run.Along.cons rfl (hnot rfl) (Run.Along.cons rfl (hnot rfl) (Run.Along.cons rfl trivial ?_))
  refine Run.Along.cons rfl trivial (Run.Along.cons rfl trivial (Run.Along.cons rfl trivial ?_))
  -- its solution
  refine Run.Along.cons rfl trivial (Run.Along.cons rfl trivial (Run.Along.cons rfl ?_ ?_))
  · intro sol task hvalid hget _
    cases hvalid
    cases hget
    rfl
  · exact Run.Along.cons rfl trivial (Run.Along.cons rfl trivial trivial)

/-! ## A reconnect with a task stored -/

/-- The task of the first connection is solved after the handshake on the next. -/
def staleSessionRun : List Event :=
  [.dist .popMessage, .dist .tryPop, .dist .clear, .dist (.prepare 1700000000000),
    .dist (.send true), .dist .store, .pool .lose, .pool .connect,
    .pool (.subscribeReply (some subscribeValue)), .pool (.authorizeLine authorizeValue),
    .pool .authorizeEnd, .solution (zeroSolution 1700000000000), .valid .popSolution,
    .valid (.judge 1700000000), .valid .check, .valid (.submit true)]

theorem staleSessionRun_inconsistent :
    ¬ Run.Always (step (fun _ => ByteArr.fill 64 0xab) 1 (fun _ => ByteArr.fill 32 0)
        "worker".toList) SessionConsistent (initial [1, 2, 3, 4] [sampleNotify]) staleSessionRun ∧
    ∃ s, Run.exec (step (fun _ => ByteArr.fill 64 0xab) 1 (fun _ => ByteArr.fill 32 0)
        "worker".toList) (initial [1, 2, 3, 4] [sampleNotify]) staleSessionRun = some s ∧
      s.submissions.map (fun share => (share.task.session, share.session)) = [(0, 1)] ∧
      s.submissions.map (fun share => (share.task.value.extraNonce1, share.granted))
        = [([1, 2, 3, 4], some [8, 0, 0, 2])] := by
  have hlast : ∃ s, Run.exec (step (fun _ => ByteArr.fill 64 0xab) 1
      (fun _ => ByteArr.fill 32 0) "worker".toList) (initial [1, 2, 3, 4] [sampleNotify])
        staleSessionRun = some s ∧
      s.submissions.map (fun share => (share.task.session, share.session)) = [(0, 1)] ∧
      s.submissions.map (fun share => (share.task.value.extraNonce1, share.granted))
        = [([1, 2, 3, 4], some [8, 0, 0, 2])] := ⟨_, rfl, rfl, rfl⟩
  refine ⟨fun h => ?_, hlast⟩
  obtain ⟨s, hs, hsessions, -⟩ := hlast
  obtain ⟨share, hshares, hshare⟩ := List.map_eq_singleton_iff.mp hsessions
  obtain ⟨-, hsession, -⟩ := h.exec hs share (by rw [hshares]; exact List.mem_singleton_self _)
  obtain ⟨htask, hconnection⟩ := Prod.mk.inj hshare
  rw [htask, hconnection] at hsession
  cases hsession

end Dispatcher

end DogeConnect
