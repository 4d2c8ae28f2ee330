/-
Reconnect scheduling: which peer is tried, and how long it waits.

A call of `tryOneReconnect` moves a shared cursor over the peers and stops at
the first one whose retry is due.  The distance from the cursor to a given peer
falls with every call that does not try it, whatever the other peers do:

    tryOneReconnectCall_passes   a call either tries the peer or comes closer to it
    tried_within                 a retry that stays ready is tried within n calls
    tryOneReconnectCall_run      the call is the scan of `qubicReceiveLoop`
    delayInv_step                the delay a peer has is told by what happened to it

The delay is a statement about runs of the loop: it needs that a peer that waits
for a retry is not polled, so that it cannot be lost a second time.
-/
import DogeConnect.QubicLoop

namespace DogeConnect

/-! ## One call of `tryOneReconnect` -/

/-- What the environment answers during a call. -/
structure ReconnectEnv where
  /-- The clock at the `isReady` of each round of the scan. -/
  clock : Nat → Nat
  /-- The clock at `scheduleRetry`. -/
  later : Nat
  result : OpenResult

/-- A call's effects, with the peers it called `reconnect` on. -/
structure ReconnectReturn (n : Nat) where
  peers : Fin n → Peer
  nextReconnIdx : Nat
  attempts : List (Fin n)
  established : Bool

variable {n : Nat}

/-- The scan with `left` of its `n` rounds to go; the cursor is a `size_t`. -/
def scanReconnects (peers : Fin n → Peer) (env : ReconnectEnv) :
    (left nextReconnIdx : Nat) → ReconnectReturn n
  | 0, nextReconnIdx => ⟨peers, nextReconnIdx, [], false⟩
  | left + 1, nextReconnIdx =>
    if hn : 0 < n then
      let i : Fin n := ⟨nextReconnIdx % n, Nat.mod_lt _ hn⟩
      let nextReconnIdx := (nextReconnIdx + 1) % 2 ^ 64 % n
      let p := peers i
      if p.reconnectState.isReady (env.clock (n - (left + 1))) = false then
        scanReconnects peers env left nextReconnIdx
      else
        match p.connection.reconnect env.result with
        | (connection, true) =>
          { peers := Function.update peers i { p with
              connection
              reconnectState := p.reconnectState.reset
              stats := { p.stats with reconnects := p.stats.reconnects + 1 } }
            nextReconnIdx
            attempts := [i]
            established := true }
        | (connection, false) =>
          { peers := Function.update peers i { p with
              connection
              reconnectState := p.reconnectState.backoff.scheduleRetry env.later }
            nextReconnIdx
            attempts := [i]
            established := false }
    else ⟨peers, nextReconnIdx, [], false⟩

def tryOneReconnectCall (peers : Fin n → Peer) (env : ReconnectEnv) (nextReconnIdx : Nat) :
    ReconnectReturn n :=
  scanReconnects peers env n nextReconnIdx

theorem scanReconnects_succ (peers : Fin n → Peer) (env : ReconnectEnv) (left next : Nat)
    (hn : 0 < n) :
    ∃ i : Fin n, i.val = next % n ∧
      ((peers i).reconnectState.isReady (env.clock (n - (left + 1))) = false ∧
          scanReconnects peers env (left + 1) next
            = scanReconnects peers env left ((next + 1) % 2 ^ 64 % n) ∨
        (scanReconnects peers env (left + 1) next).attempts = [i] ∧
          (scanReconnects peers env (left + 1) next).nextReconnIdx
            = (next + 1) % 2 ^ 64 % n) := by
  refine ⟨⟨next % n, Nat.mod_lt _ hn⟩, rfl, ?_⟩
  rw [scanReconnects, dif_pos hn]
  dsimp only
  split
  next hready => exact .inl ⟨hready, rfl⟩
  next hready =>
    right
    split
    · exact ⟨rfl, rfl⟩
    · exact ⟨rfl, rfl⟩

theorem scanReconnects_attempts (peers : Fin n → Peer) (env : ReconnectEnv) (hn : 0 < n)
    (left next : Nat) : (scanReconnects peers env left next).attempts.length ≤ 1 := by
  induction left generalizing next with
  | zero => exact Nat.zero_le _
  | succ left ih =>
      obtain ⟨i, -, ⟨-, hskip⟩ | ⟨hattempt, -⟩⟩ := scanReconnects_succ peers env left next hn
      · rw [hskip]
        exact ih _
      · rw [hattempt]
        exact Nat.le_refl 1

theorem scanReconnects_cursor (peers : Fin n → Peer) (env : ReconnectEnv) (hn : 0 < n)
    (left next : Nat) (h : left = 0 → next < n) :
    (scanReconnects peers env left next).nextReconnIdx < n := by
  induction left generalizing next with
  | zero => exact h rfl
  | succ left ih =>
      obtain ⟨i, -, ⟨-, hskip⟩ | ⟨-, hcursor⟩⟩ := scanReconnects_succ peers env left next hn
      · rw [hskip]
        exact ih _ fun _ => Nat.mod_lt _ hn
      · rw [hcursor]
        exact Nat.mod_lt _ hn

/-! ## Fairness -/

/-- How many rounds the cursor is away from a peer. -/
def ahead (next : Nat) (i : Fin n) : Nat := (i.val + n - next % n) % n

theorem ahead_lt (next : Nat) (i : Fin n) : ahead next i < n :=
  Nat.mod_lt _ (Nat.zero_lt_of_lt i.isLt)

theorem ahead_succ {next : Nat} {i : Fin n} (hnext : next + 1 < 2 ^ 64) (hi : i.val ≠ next % n) :
    ahead ((next + 1) % 2 ^ 64 % n) i + 1 = ahead next i := by
  have hlt := i.isLt
  have hn : 0 < n := Nat.zero_lt_of_lt hlt
  have hmod : (next + 1) % n = if next % n + 1 = n then 0 else next % n + 1 := by
    have hr := Nat.mod_lt next hn
    rw [Nat.add_mod]
    by_cases hone : n = 1
    · subst hone
      rw [if_pos (by omega), Nat.mod_one]
    · rw [Nat.mod_eq_of_lt (show 1 < n by omega)]
      split
      next hwrap => rw [hwrap, Nat.mod_self]
      next hwrap => exact Nat.mod_eq_of_lt (by omega)
  have hr := Nat.mod_lt next hn
  rw [ahead, ahead, Nat.mod_eq_of_lt hnext, Nat.mod_mod, hmod]
  generalize next % n = r at *
  have hsub : ∀ k, k < n → (i.val + n - k) % n = if k ≤ i.val then i.val - k else i.val + n - k := by
    intro k hk
    split
    next hle =>
      rw [show i.val + n - k = (i.val - k) + n by omega, Nat.add_mod_right]
      exact Nat.mod_eq_of_lt (by omega)
    next hle => exact Nat.mod_eq_of_lt (by omega)
  rw [hsub r hr]
  split
  next hwrap =>
    rw [hsub 0 hn]
    split <;> split <;> omega
  next hwrap =>
    rw [hsub (r + 1) (by omega)]
    split <;> split <;> omega

/-- Whoever is tried, the cursor comes closer to a peer that is not. -/
theorem scanReconnects_passes (peers : Fin n → Peer) (env : ReconnectEnv) (hsize : n < 2 ^ 64)
    {i : Fin n} (hready : ∀ k, (peers i).reconnectState.isReady (env.clock k) = true)
    {left next : Nat} (hnext : next + 1 < 2 ^ 64) (h : ahead next i < left) :
    i ∈ (scanReconnects peers env left next).attempts ∨
      ahead (scanReconnects peers env left next).nextReconnIdx i < ahead next i := by
  induction left generalizing next with
  | zero => exact absurd h (Nat.not_lt_zero _)
  | succ left ih =>
      have hn : 0 < n := Nat.zero_lt_of_lt i.isLt
      have hcursor : (next + 1) % 2 ^ 64 % n + 1 < 2 ^ 64 :=
        Nat.lt_of_le_of_lt (Nat.succ_le_of_lt (Nat.mod_lt _ hn)) hsize
      obtain ⟨j, hj, houtcome⟩ := scanReconnects_succ peers env left next hn
      by_cases hij : i = j
      · subst hij
        rcases houtcome with ⟨hnot, -⟩ | ⟨hattempt, -⟩
        · rw [hready] at hnot
          cases hnot
        · left
          rw [hattempt]
          exact List.mem_singleton_self i
      · have hcloser := ahead_succ hnext fun heq => hij (Fin.ext (heq.trans hj.symm))
        rcases houtcome with ⟨-, hskip⟩ | ⟨-, hend⟩
        · rw [hskip]
          rcases ih hcursor (show ahead ((next + 1) % 2 ^ 64 % n) i < left by omega)
            with htried | hlt
          · exact .inl htried
          · exact .inr (by omega)
        · right
          rw [hend]
          omega

/-- Calls one after the other, with anything in between that leaves the cursor:
a peer that is ready until it is tried is tried. -/
theorem tried_within (hsize : n < 2 ^ 64) (peers : Nat → Fin n → Peer) (env : Nat → ReconnectEnv)
    (next : Nat → Nat) (hstart : next 0 + 1 < 2 ^ 64)
    (hnext : ∀ m, next (m + 1) = (tryOneReconnectCall (peers m) (env m) (next m)).nextReconnIdx)
    {i : Fin n} (hready : ∀ m, m < n →
      (∀ m' < m, i ∉ (tryOneReconnectCall (peers m') (env m') (next m')).attempts) →
      ∀ k, (peers m i).reconnectState.isReady ((env m).clock k) = true) :
    ∃ m, m < n ∧ i ∈ (tryOneReconnectCall (peers m) (env m) (next m)).attempts := by
  have hn : 0 < n := Nat.zero_lt_of_lt i.isLt
  have hcursor : ∀ m, next m + 1 < 2 ^ 64 := by
    intro m
    cases m with
    | zero => exact hstart
    | succ m =>
        rw [hnext]
        exact Nat.lt_of_le_of_lt (Nat.succ_le_of_lt
          (scanReconnects_cursor (peers m) (env m) hn n (next m) fun h => by omega)) hsize
  by_contra hnone
  push Not at hnone
  -- the distance to the peer is the rank
  have hrank := Run.exists_lt_of_rank (P := fun m => n ≤ m) (fun m => ahead (next m) i)
    (fun m => ?_) (ahead_lt (next 0) i)
  · obtain ⟨m, hlt, hle⟩ := hrank
    omega
  · rcases Nat.lt_or_ge m n with hm | hm
    · rcases scanReconnects_passes (peers m) (env m) hsize
        (hready m hm fun m' hm' => hnone m' (hm'.trans hm)) (hcursor m) (ahead_lt (next m) i)
        with htried | hcloser
      · exact absurd htried (hnone m hm)
      · right
        rw [hnext m]
        exact hcloser
    · exact .inl hm

/-! ## The scan of the loop -/

section

variable (kangarooTwelve : List UInt8 → ByteArr 32)
  (verify : ByteArr 32 → ByteArr 32 → List UInt8 → Bool)

/-- The phase the loop is in after a call: the poll list is rebuilt when a
connection was established. -/
def ReconnectReturn.phase (r : ReconnectReturn n) : RecvPhase :=
  if r.established then .build 0 .poll else .poll

/-- The rounds of the scan, taken by the loop one after the other, are the call. -/
theorem scanReconnects_run (env : ReconnectEnv) (hsize : n < 2 ^ 64) {left : Nat}
    {s : RecvState n} (hleft : left ≤ n) (hphase : s.phase = .scan (n - left))
    (hnext : s.nextReconnIdx + 1 < 2 ^ 64) :
    ∃ as t, Run.exec (RecvState.step kangarooTwelve verify) s as = some t ∧
      t.peers = (scanReconnects s.peers env left s.nextReconnIdx).peers ∧
      t.nextReconnIdx = (scanReconnects s.peers env left s.nextReconnIdx).nextReconnIdx ∧
      t.phase = (scanReconnects s.peers env left s.nextReconnIdx).phase := by
  induction left generalizing s with
  | zero =>
      refine ⟨[.scan 0 0 .failed], { s with phase := .poll }, ?_, rfl, rfl, rfl⟩
      simp only [Run.exec, RecvState.step, hphase, RecvState.tryOneReconnect, Nat.sub_zero,
        Nat.lt_irrefl, dite_false, Option.bind_some]
  | succ left ih =>
      have hn : 0 < n := by omega
      have hscan : n - (left + 1) < n := by omega
      have hcursor : (s.nextReconnIdx + 1) % 2 ^ 64 = s.nextReconnIdx + 1 := Nat.mod_eq_of_lt hnext
      have hstep : s.step kangarooTwelve verify
          (.scan (env.clock (n - (left + 1))) env.later env.result)
          = some (s.tryOneReconnect (n - (left + 1)) (env.clock (n - (left + 1))) env.later
              env.result) := by
        simp only [RecvState.step, hphase]
      rw [RecvState.tryOneReconnect, dif_pos hscan] at hstep
      rw [scanReconnects, dif_pos hn]
      dsimp only at hstep ⊢
      split
      next hready =>
        rw [if_pos hready, show n - (left + 1) + 1 = n - left by omega] at hstep
        have hbound : (s.nextReconnIdx + 1) % n < n := Nat.mod_lt _ hn
        obtain ⟨as, t, hrun, hpeers, hidx, htop⟩ := ih
          (s := { s with nextReconnIdx := (s.nextReconnIdx + 1) % n, phase := .scan (n - left) })
          (show left ≤ n by omega) rfl (show (s.nextReconnIdx + 1) % n + 1 < 2 ^ 64 by omega)
        refine ⟨.scan (env.clock (n - (left + 1))) env.later env.result :: as, t, ?_, ?_, ?_, ?_⟩
        · rw [Run.exec, hstep]
          exact hrun
        · rw [hpeers, hcursor]
        · rw [hidx, hcursor]
        · rw [htop, hcursor]
      next hready =>
        rw [if_neg hready] at hstep
        split
        next connection hreconnect =>
          rw [hreconnect] at hstep
          refine ⟨_, _, Run.exec_one hstep, rfl, ?_, rfl⟩
          rw [hcursor]
          rfl
        next connection hreconnect =>
          rw [hreconnect] at hstep
          refine ⟨_, _, Run.exec_one hstep, rfl, ?_, rfl⟩
          rw [hcursor]
          rfl

end

/-! ## Delays

What has happened to a peer is recorded beside the loop: whether it was found
unconnected at the start or was lost, and how many attempts have failed since. -/

/-- What a peer's last scheduled retry goes back to. -/
inductive Standing where
  /-- No retry has been scheduled since the start or the last success. -/
  | settled
  /-- Not connected when the loop started. -/
  | neverConnected (failures : Nat)
  | lost (failures : Nat)
  deriving DecidableEq, Repr

namespace Standing

def failed : Standing → Standing
  | settled => settled
  | neverConnected k => neverConnected (k + 1)
  | lost k => lost (k + 1)

/-- The delay, as the failures tell it. -/
def delaySec : Standing → Nat
  | settled => 2
  | neverConnected 0 => 0
  | neverConnected (k + 1) => min 60 (2 ^ (k + 1))
  | lost k => min 60 (2 ^ (k + 1))

end Standing

theorem backoff_pow {rs : ReconnectState} {k : Nat} (h : rs.delaySec = min 60 (2 ^ (k + 1))) :
    rs.backoff.delaySec = min 60 (2 ^ (k + 1 + 1)) := by
  have hpos := Nat.one_le_two_pow (n := k)
  have hlarge : ¬ rs.delaySec < reconnectBaseDelaySec := by
    rw [h, reconnectBaseDelaySec, Nat.pow_succ]
    omega
  rw [ReconnectState.backoff]
  dsimp only
  rw [if_neg hlarge, h, reconnectMaxDelaySec, Nat.pow_succ 2 (k + 1)]
  omega

theorem backoff_delaySec {rs : ReconnectState} {standing : Standing}
    (h : rs.delaySec = standing.delaySec) (hretry : standing ≠ .settled) :
    rs.backoff.delaySec = standing.failed.delaySec := by
  cases standing with
  | settled => exact absurd rfl hretry
  | neverConnected k =>
      cases k with
      | zero =>
          rw [Standing.delaySec] at h
          rw [ReconnectState.backoff, h]
          rfl
      | succ k => exact backoff_pow h
  | lost k => exact backoff_pow h

namespace RecvState

theorem cursor_lt (s : RecvState n) {scanned : Nat} (h : scanned < n) : s.nextReconnIdx % n < n :=
  Nat.mod_lt _ (Nat.zero_lt_of_lt h)

/-- What the peers' standings become by an action in a state. -/
def nextStanding (s : RecvState n) (standing : Fin n → Standing) :
    RecvAction n → Fin n → Standing
  | .schedule _ =>
    match s.phase with
    | .schedule k =>
      if h : k < n then
        if (s.peers ⟨k, h⟩).connection.isConnected then standing
        else Function.update standing ⟨k, h⟩ (.neverConnected 0)
      else standing
    | _ => standing
  | .scan now _ result =>
    match s.phase with
    | .scan scanned =>
      if h : scanned < n then
        let i : Fin n := ⟨s.nextReconnIdx % n, s.cursor_lt h⟩
        if (s.peers i).reconnectState.isReady now = false then standing
        else if ((s.peers i).connection.reconnect result).2 then
          Function.update standing i .settled
        else Function.update standing i (standing i).failed
      else standing
    | _ => standing
  | .handle event _ =>
    match s.phase with
    | .handle p _ =>
      match s.socketPollList[p]?, event with
      | some (_, i), .closed => Function.update standing i (.lost 0)
      | some (_, i), .errHup => Function.update standing i (.lost 0)
      | _, _ => standing
    | _ => standing
  | _ => standing

end RecvState

/-- The loop with the standings of its peers. -/
structure StandingState (n : Nat) where
  loop : RecvState n
  standing : Fin n → Standing

namespace StandingState

variable (kangarooTwelve : List UInt8 → ByteArr 32)
  (verify : ByteArr 32 → ByteArr 32 → List UInt8 → Bool)

def step (s : StandingState n) (a : RecvAction n) : Option (StandingState n) :=
  (s.loop.step kangarooTwelve verify a).map fun loop =>
    { loop, standing := s.loop.nextStanding s.standing a }

def initial (first : Fin n → Bool × OpenResult) : StandingState n :=
  ⟨RecvState.initial first, fun _ => .settled⟩

end StandingState

/-! ## The invariant -/

/-- A peer agrees with its standing. -/
structure PeerDelay (p : Peer) (standing : Standing) : Prop where
  delay : p.reconnectState.delaySec = standing.delaySec
  retry : p.reconnectState.isPending = true → standing ≠ .settled
  closed : standing ≠ .settled → p.connection.isConnected = false

namespace PeerDelay

variable {p : Peer} {standing : Standing}

theorem of_same {p' : Peer} (h : PeerDelay p standing)
    (hretry : p'.reconnectState = p.reconnectState)
    (hclosed : p.connection.isConnected = false → p'.connection.isConnected = false) :
    PeerDelay p' standing := by
  constructor
  · rw [hretry]
    exact h.delay
  · rw [hretry]
    exact h.retry
  · exact fun hne => hclosed (h.closed hne)

theorem scheduled (now : Nat) (h : p.connection.isConnected = false) :
    PeerDelay { p with
      reconnectState := { p.reconnectState with delaySec := 0 }.scheduleRetry now }
      (.neverConnected 0) :=
  ⟨rfl, fun _ => nofun, fun _ => h⟩

theorem lost (h : PeerDelay p standing) (now : Nat) (hpolled : standing = .settled) :
    PeerDelay (RecvState.markDisconnected p now) (.lost 0) := by
  refine ⟨?_, fun _ => nofun, fun _ => rfl⟩
  have hdelay := h.delay
  rw [hpolled] at hdelay
  exact hdelay

theorem reconnected (connection : QubicConnection) (stats : PeerStats) :
    PeerDelay { p with
      connection, reconnectState := p.reconnectState.reset, stats } .settled :=
  ⟨rfl, nofun, fun hne => absurd rfl hne⟩

theorem notReconnected (h : PeerDelay p standing) {now : Nat} (later : Nat) {result : OpenResult}
    {connection : QubicConnection} (hready : p.reconnectState.isReady now = true)
    (hreconnect : p.connection.reconnect result = (connection, false)) :
    PeerDelay { p with
      connection, reconnectState := p.reconnectState.backoff.scheduleRetry later }
      standing.failed := by
  have hretry := h.retry (ReconnectState.isPending_of_isReady hready)
  refine ⟨backoff_delaySec h.delay hretry, fun _ => ?_, fun _ => ?_⟩
  · cases standing with
    | settled => exact absurd rfl hretry
    | neverConnected k => exact nofun
    | lost k => exact nofun
  · -- a failed attempt leaves the socket closed, or untouched
    rw [QubicConnection.reconnect] at hreconnect
    split at hreconnect
    · cases result with
      | failed => cases hreconnect; rfl
      | opened fd sent => cases hreconnect
    · cases hreconnect
      exact h.closed hretry

end PeerDelay

namespace RecvState

/-- The entry is still to be looked at by a pass that has closed connections. -/
def Unhandled (s : RecvState n) (j : Nat) : Prop :=
  match s.phase with
  | .handle p true => p ≤ j
  | _ => True

/-- The peer may stand in the list, by how far a build has come. -/
def MayStand (s : RecvState n) (i : Fin n) : Prop :=
  match s.phase with
  | .schedule _ => False
  | .build k _ => i.val < k
  | _ => True

structure DelayInv (s : RecvState n) (standing : Fin n → Standing) : Prop where
  peers : ∀ i, PeerDelay (s.peers i) (standing i)
  polled : ∀ j entry, s.socketPollList[j]? = some entry → s.Unhandled j →
    standing entry.2 = .settled
  distinct : (s.socketPollList.map Prod.snd).Pairwise (· < ·)
  listed : ∀ entry ∈ s.socketPollList, s.MayStand entry.2

namespace DelayInv

variable {s : RecvState n} {standing : Fin n → Standing}

theorem startBuild (h : ∀ i, PeerDelay (s.peers i) (standing i)) (next : AfterBuild) :
    DelayInv (s.startBuild next) standing where
  peers := h
  polled _ _ hentry _ := nomatch hentry
  distinct := List.Pairwise.nil
  listed _ hentry := nomatch hentry

theorem of_same (h : DelayInv s standing) {s' : RecvState n}
    (hretry : ∀ i, (s'.peers i).reconnectState = (s.peers i).reconnectState)
    (hclosed : ∀ i, (s.peers i).connection.isConnected = false →
      (s'.peers i).connection.isConnected = false)
    (hlist : s'.socketPollList = s.socketPollList)
    (hunhandled : ∀ j, s'.Unhandled j → s.Unhandled j)
    (hmay : ∀ i, s.MayStand i → s'.MayStand i) : DelayInv s' standing := by
  constructor
  · exact fun i => (h.peers i).of_same (hretry i) (hclosed i)
  · intro j entry hentry hj
    rw [hlist] at hentry
    exact h.polled j entry hentry (hunhandled j hj)
  · rw [hlist]
    exact h.distinct
  · intro entry hentry
    rw [hlist] at hentry
    exact hmay _ (h.listed entry hentry)

/-- A step that leaves the peers and the list, when all entries are settled. -/
theorem of_unchanged (h : DelayInv s standing) {s' : RecvState n} (hpeers : s'.peers = s.peers)
    (hlist : s'.socketPollList = s.socketPollList) (hunhandled : ∀ j, s.Unhandled j)
    (hmay : ∀ i, s.MayStand i → s'.MayStand i) : DelayInv s' standing := by
  refine h.of_same (fun i => ?_) (fun i hclosed => ?_) hlist (fun j _ => hunhandled j) hmay
  · rw [hpeers]
  · rw [hpeers]
    exact hclosed

theorem setPeer (h : DelayInv s standing) {s' : RecvState n} {i : Fin n} {p : Peer}
    (hpeers : s'.peers = (s.setPeer i p).peers)
    (hretry : p.reconnectState = (s.peers i).reconnectState)
    (hclosed : (s.peers i).connection.isConnected = false → p.connection.isConnected = false)
    (hlist : s'.socketPollList = s.socketPollList)
    (hunhandled : ∀ j, s'.Unhandled j → s.Unhandled j)
    (hmay : ∀ i, s.MayStand i → s'.MayStand i) : DelayInv s' standing := by
  refine h.of_same (fun j => ?_) (fun j hj => ?_) hlist hunhandled hmay
  · rw [hpeers]
    by_cases hji : j = i
    · rw [hji, setPeer_self, hretry]
    · rw [setPeer_of_ne s p hji]
  · rw [hpeers]
    by_cases hji : j = i
    · rw [hji, setPeer_self]
      exact hclosed (hji ▸ hj)
    · rw [setPeer_of_ne s p hji]
      exact hj

theorem update_peers (h : DelayInv s standing) {i : Fin n} {p : Peer} {st : Standing}
    (hp : PeerDelay p st) (j : Fin n) :
    PeerDelay ((s.setPeer i p).peers j) (Function.update standing i st j) := by
  by_cases hji : j = i
  · rw [hji, setPeer_self, Function.update_self]
    exact hp
  · rw [setPeer_of_ne s p hji, Function.update_of_ne hji]
    exact h.peers j

theorem append (h : DelayInv s standing) {i : Fin n} {next : AfterBuild}
    (hphase : s.phase = .build i next) (hconnected : (s.peers i).connection.isConnected = true) :
    DelayInv { s with
      socketPollList := s.socketPollList ++ [((s.peers i).connection.rawSocket, i)]
      phase := .build (i + 1) next } standing := by
  have hbefore : ∀ entry ∈ s.socketPollList, entry.2.val < i.val := by
    intro entry hentry
    have hlt := h.listed entry hentry
    simp only [MayStand, hphase] at hlt
    exact hlt
  constructor
  · exact h.peers
  · intro j entry hentry _
    rcases List.mem_append.mp (List.mem_of_getElem? hentry) with hold | hnew
    · obtain ⟨k, hk⟩ := List.mem_iff_getElem?.mp hold
      exact h.polled k entry hk (by simp only [Unhandled, hphase])
    · rw [List.mem_singleton] at hnew
      rw [hnew]
      refine Classical.byContradiction fun hne => ?_
      rw [(h.peers i).closed hne] at hconnected
      cases hconnected
  · simp only [List.map_append, List.map_cons, List.map_nil]
    refine List.pairwise_append.mpr ⟨h.distinct, List.pairwise_singleton _ _, ?_⟩
    intro a ha b hb
    obtain ⟨entry, hentry, rfl⟩ := List.mem_map.mp ha
    rw [List.mem_singleton] at hb
    rw [hb]
    exact hbefore entry hentry
  · intro entry hentry
    show entry.2.val < i.val + 1
    rcases List.mem_append.mp hentry with hold | hnew
    · exact Nat.lt_succ_of_lt (hbefore entry hold)
    · rw [List.mem_singleton] at hnew
      rw [hnew]
      exact Nat.lt_succ_self _

/-- A peer that is not connected any more stands in the list at most once. -/
theorem markLost (h : DelayInv s standing) {p : Nat} {needRebuild : Bool} {fd : Option Nat}
    {i : Fin n} (now : Nat) (hphase : s.phase = .handle p needRebuild)
    (hentry : s.socketPollList[p]? = some (fd, i)) :
    DelayInv { s.setPeer i (markDisconnected (s.peers i) now) with
      phase := .handle (p + 1) true } (Function.update standing i (.lost 0)) := by
  have hhere : s.Unhandled p := by
    cases needRebuild <;> simp only [Unhandled, hphase, Nat.le_refl]
  have hset : standing i = .settled := h.polled p (fd, i) hentry hhere
  constructor
  · exact h.update_peers ((h.peers i).lost now hset)
  · intro j entry hj hlater
    have hlt : p < j := hlater
    have hne : entry.2 ≠ i := by
      obtain ⟨hp, hpe⟩ := List.getElem?_eq_some_iff.mp hentry
      obtain ⟨hjl, hje⟩ := List.getElem?_eq_some_iff.mp hj
      have hpair := (List.pairwise_iff_getElem.mp h.distinct) p j
        (by rw [List.length_map]; exact hp) (by rw [List.length_map]; exact hjl) hlt
      simp only [List.getElem_map, hpe] at hpair
      intro heq
      rw [← heq] at hpair
      exact absurd (hje ▸ hpair) (lt_irrefl _)
    rw [Function.update_of_ne hne]
    refine h.polled j entry hj ?_
    cases needRebuild
    · simp only [Unhandled, hphase]
    · simp only [Unhandled, hphase]
      exact Nat.le_of_lt hlt
  · exact h.distinct
  · exact fun _ _ => trivial

end DelayInv

variable {kangarooTwelve : List UInt8 → ByteArr 32}
  {verify : ByteArr 32 → ByteArr 32 → List UInt8 → Bool}

theorem DelayInv.scan {s s' : RecvState n} {standing : Fin n → Standing} {k now later : Nat}
    {result : OpenResult} (h : DelayInv s standing) (hphase : s.phase = .scan k)
    (hs : s.step kangarooTwelve verify (.scan now later result) = some s') :
    DelayInv s' (s.nextStanding standing (.scan now later result)) := by
  simp only [step, hphase] at hs
  cases hs
  have hunhandled : ∀ j, s.Unhandled j := fun j => by simp only [Unhandled, hphase]
  simp only [nextStanding, hphase, tryOneReconnect]
  by_cases hk : k < n
  · simp only [hk, dite_true]
    generalize hi : (⟨s.nextReconnIdx % n, Nat.mod_lt _ (Nat.zero_lt_of_lt hk)⟩ : Fin n) = i
    by_cases hready : (s.peers i).reconnectState.isReady now = false
    · simp only [hready, if_true]
      exact h.of_unchanged rfl rfl hunhandled fun _ _ => trivial
    · rw [Bool.not_eq_false] at hready
      simp only [hready, Bool.true_eq_false, if_false]
      rcases hreconnect : (s.peers i).connection.reconnect result with ⟨connection, established⟩
      cases established with
      | true =>
          refine DelayInv.startBuild (fun j => ?_) .poll
          exact h.update_peers (PeerDelay.reconnected connection _) j
      | false =>
          have hretry := (h.peers i).retry (ReconnectState.isPending_of_isReady hready)
          refine ⟨h.update_peers ((h.peers i).notReconnected later hready hreconnect),
            fun j entry hentry _ => ?_, h.distinct, fun _ _ => trivial⟩
          have hset := h.polled j entry hentry (hunhandled j)
          -- a peer that waits for a retry is not polled
          have hne : entry.2 ≠ i := by
            intro heq
            rw [heq] at hset
            exact hretry hset
          simp only [Bool.false_eq_true, if_false]
          rw [Function.update_of_ne hne]
          exact hset
  · simp only [hk, dite_false]
    exact h.of_unchanged rfl rfl hunhandled fun _ _ => trivial

theorem DelayInv.nextEntry {s s' : RecvState n} {standing : Fin n → Standing} {p : Nat}
    {needRebuild : Bool} (i : Fin n) (peer : Peer) (h : DelayInv s standing)
    (hphase : s.phase = .handle p needRebuild) (hpeers : s'.peers = (s.setPeer i peer).peers)
    (hretry : peer.reconnectState = (s.peers i).reconnectState)
    (hconnection : peer.connection = (s.peers i).connection)
    (hlist : s'.socketPollList = s.socketPollList)
    (hphase' : s'.phase = .handle (p + 1) needRebuild) : DelayInv s' standing := by
  refine h.setPeer hpeers hretry (by rw [hconnection]; exact id) hlist (fun j hj => ?_)
    fun j _ => ?_
  · cases needRebuild
    · simp only [Unhandled, hphase]
    · simp only [Unhandled, hphase, hphase'] at hj ⊢
      omega
  · simp only [MayStand, hphase']

theorem delayInv_step {s s' : RecvState n} {a : RecvAction n} {standing : Fin n → Standing}
    (h : DelayInv s standing) (hs : s.step kangarooTwelve verify a = some s') :
    DelayInv s' (s.nextStanding standing a) := by
  cases step_cases hs with
  | @present i now hphase hconnected =>
      simp only [nextStanding, hphase, i.isLt, dite_true, hconnected, if_true]
      refine h.of_unchanged rfl rfl (fun _ => by simp only [Unhandled, hphase]) fun j hj => ?_
      simp only [MayStand, hphase] at hj
  | @scheduled i now hphase hconnected =>
      simp only [nextStanding, hphase, i.isLt, dite_true, hconnected, Bool.false_eq_true, if_false]
      have hnone : ∀ entry ∈ s.socketPollList, False := by
        intro entry hentry
        have hmay := h.listed entry hentry
        simp only [MayStand, hphase] at hmay
      exact ⟨h.update_peers (PeerDelay.scheduled now hconnected),
        fun _ entry hentry _ => (hnone entry (List.mem_of_getElem? hentry)).elim, h.distinct,
        fun entry hentry => (hnone entry hentry).elim⟩
  | @allScheduled k now hphase hk =>
      simp only [nextStanding, hphase, hk, dite_false]
      exact DelayInv.startBuild h.peers .top
  | listed hphase hconnected => exact h.append hphase hconnected
  | @passedOver i next hphase hconnected =>
      refine h.of_unchanged rfl rfl (fun _ => by simp only [Unhandled, hphase]) fun j hj => ?_
      simp only [MayStand, hphase] at hj ⊢
      exact Nat.lt_succ_of_lt hj
  | @built k next hphase hk =>
      refine h.of_unchanged rfl rfl (fun _ => by simp only [Unhandled, hphase]) fun j _ => ?_
      cases next <;> exact trivial
  | iterate hphase =>
      exact h.of_unchanged rfl rfl (fun _ => by simp only [Unhandled, hphase]) fun _ _ => trivial
  | notReady now later result hphase hi hready => exact h.scan hphase hs
  | reconnected now later hphase hi hready hreconnect => exact h.scan hphase hs
  | notReconnected now later hphase hi hready hreconnect => exact h.scan hphase hs
  | noneReady now later result hphase hk => exact h.scan hphase hs
  | allDown result hphase hlist =>
      exact h.of_unchanged rfl rfl (fun _ => by simp only [Unhandled, hphase]) fun _ _ => trivial
  | ready hphase hlist =>
      exact h.of_unchanged rfl rfl (fun _ => by simp only [Unhandled, hphase]) fun _ _ => trivial
  | timeout hphase hlist =>
      exact h.of_unchanged rfl rfl (fun _ => by simp only [Unhandled, hphase]) fun _ _ => trivial
  | pollError hphase hlist => exact DelayInv.startBuild h.peers .top
  | @handled p event now hphase hentry =>
      simp only [nextStanding, hphase, hentry]
      exact h.of_unchanged rfl rfl (fun _ => by simp only [Unhandled, hphase]) fun _ _ => trivial
  | @rebuild p event now hphase hentry =>
      simp only [nextStanding, hphase, hentry]
      exact DelayInv.startBuild h.peers .top
  | @quiet p needRebuild entry now hphase hentry =>
      simp only [nextStanding, hphase, hentry]
      exact h.nextEntry entry.2 (s.peers entry.2) hphase
        (Function.update_eq_self entry.2 s.peers).symm rfl rfl rfl rfl
  | @data p needRebuild fd i bytes r now hphase hentry hbytes hr =>
      simp only [nextStanding, hphase, hentry]
      exact h.nextEntry i _ hphase rfl rfl rfl rfl rfl
  | @lost p needRebuild fd i event now hphase hentry hevent =>
      have hstanding : s.nextStanding standing (.handle event now)
          = Function.update standing i (.lost 0) := by
        rcases hevent with rfl | rfl <;> simp only [nextStanding, hphase, hentry]
      rw [hstanding]
      exact h.markLost now hphase hentry
  | sendFails i =>
      exact h.setPeer rfl rfl (fun _ => rfl) rfl (fun _ hj => hj) fun _ hj => hj

theorem delayInv_initial (first : Fin n → Bool × OpenResult) :
    DelayInv (initial first) fun _ => .settled where
  peers _ := ⟨rfl, nofun, fun hne => absurd rfl hne⟩
  polled _ _ hentry _ := nomatch hentry
  distinct := List.Pairwise.nil
  listed _ hentry := nomatch hentry

end RecvState

/-- In every run of the loop the delays are what the standings say. -/
theorem delays_always (kangarooTwelve : List UInt8 → ByteArr 32)
    (verify : ByteArr 32 → ByteArr 32 → List UInt8 → Bool) (first : Fin n → Bool × OpenResult)
    (as : List (RecvAction n)) :
    Run.Always (StandingState.step kangarooTwelve verify)
      (fun s => s.loop.DelayInv s.standing) (.initial first) as := by
  refine Run.always_of_step (fun s a s' h hs => ?_) (RecvState.delayInv_initial first)
  obtain ⟨loop, hloop, rfl⟩ := Option.map_eq_some_iff.mp hs
  exact RecvState.delayInv_step h hloop

/-- A call tries at most one peer and keeps the cursor in range; a retry that
stays ready is tried within `n` calls; the delays double from 2 up to 60. -/
theorem reconnects_scheduled (hsize : n < 2 ^ 64) :
    (∀ (peers : Fin n → Peer) (env : ReconnectEnv) (next : Nat),
      (tryOneReconnectCall peers env next).attempts.length ≤ 1 ∧
      (0 < n → (tryOneReconnectCall peers env next).nextReconnIdx < n) ∧
      (n = 0 → tryOneReconnectCall peers env next = ⟨peers, next, [], false⟩)) ∧
    (∀ (peers : Nat → Fin n → Peer) (env : Nat → ReconnectEnv) (next : Nat → Nat),
      next 0 < 2 ^ 64 - 1 →
      (∀ m, next (m + 1) = (tryOneReconnectCall (peers m) (env m) (next m)).nextReconnIdx) →
      ∀ i : Fin n,
        (∀ m, m < n →
          (∀ m' < m, i ∉ (tryOneReconnectCall (peers m') (env m') (next m')).attempts) →
          ∀ k, (peers m i).reconnectState.isReady ((env m).clock k) = true) →
        ∃ m, m < n ∧ i ∈ (tryOneReconnectCall (peers m) (env m) (next m)).attempts) ∧
    (∀ (kangarooTwelve : List UInt8 → ByteArr 32)
      (verify : ByteArr 32 → ByteArr 32 → List UInt8 → Bool) (first : Fin n → Bool × OpenResult)
      (as : List (RecvAction n)),
      Run.Always (StandingState.step kangarooTwelve verify)
        (fun s => ∀ i,
          (s.standing i = .settled → (s.loop.peers i).reconnectState.delaySec = 2) ∧
          (s.standing i = .neverConnected 0 → (s.loop.peers i).reconnectState.delaySec = 0) ∧
          (∀ k, 0 < k → s.standing i = .neverConnected k →
            (s.loop.peers i).reconnectState.delaySec = min 60 (2 ^ k)) ∧
          (∀ k, s.standing i = .lost k →
            (s.loop.peers i).reconnectState.delaySec = min 60 (2 ^ (k + 1))))
        (.initial first) as) := by
  refine ⟨fun peers env next => ⟨?_, fun hn => ?_, fun hn => ?_⟩,
    fun peers env next hstart hnext i hready =>
      tried_within hsize peers env next (by omega) hnext hready, ?_⟩
  · rcases Nat.eq_zero_or_pos n with rfl | hn
    · exact Nat.zero_le _
    · exact scanReconnects_attempts peers env hn n next
  · exact scanReconnects_cursor peers env hn n next fun h => by omega
  · subst hn
    rfl
  · intro kangarooTwelve verify first as
    refine Run.Always.mono ?_ (delays_always kangarooTwelve verify first as)
    intro s h i
    have hdelay := (h.peers i).delay
    refine ⟨fun hi => ?_, fun hi => ?_, fun k hk hi => ?_, fun k hi => ?_⟩
    · rw [hdelay, hi]
      rfl
    · rw [hdelay, hi]
      rfl
    · rw [hdelay, hi]
      cases k with
      | zero => exact absurd hk (Nat.lt_irrefl 0)
      | succ k => rfl
    · rw [hdelay, hi]
      rfl

/-- A peer without an address, whose retry is due. -/
def duePeer : Peer := ⟨⟨false, none, false⟩, [], ⟨2, some 0⟩, ⟨0, 0, 0, 0, 0⟩⟩

def dueEnv : ReconnectEnv := ⟨fun _ => 0, 0, .failed⟩

/-- The cursor before each of the calls, with three such peers. -/
def dueCursor (start : Nat) : Nat → Nat
  | 0 => start
  | m + 1 =>
    (tryOneReconnectCall (fun _ : Fin 3 => duePeer) dueEnv (dueCursor start m)).nextReconnIdx

/-- From 0 the last of three peers has its turn. -/
theorem dueCursor_tried : ∃ m, m < 3 ∧
    (2 : Fin 3) ∈ (tryOneReconnectCall (fun _ => duePeer) dueEnv (dueCursor 0 m)).attempts :=
  (reconnects_scheduled (n := 3) (by decide)).2.1 (fun _ _ => duePeer) (fun _ => dueEnv)
    (dueCursor 0) (by decide) (fun _ => rfl) 2 fun _ _ _ _ => rfl

/-- From the last `size_t` the cursor wraps to 0 in its first step, and the first
peer has two turns; a peer that has not been tried yet has no delay at all. -/
theorem reconnects_edges :
    (¬ ∀ (n : Nat) (peers : Nat → Fin n → Peer) (env : Nat → ReconnectEnv) (next : Nat → Nat),
      n < 2 ^ 64 → next 0 < 2 ^ 64 →
      (∀ m, next (m + 1) = (tryOneReconnectCall (peers m) (env m) (next m)).nextReconnIdx) →
      ∀ i : Fin n, (∀ m k, (peers m i).reconnectState.isReady ((env m).clock k) = true) →
        ∃ m, m < n ∧ i ∈ (tryOneReconnectCall (peers m) (env m) (next m)).attempts) ∧
    (¬ ∀ (n : Nat) (kangarooTwelve : List UInt8 → ByteArr 32)
      (verify : ByteArr 32 → ByteArr 32 → List UInt8 → Bool) (first : Fin n → Bool × OpenResult)
      (as : List (RecvAction n)),
      Run.Always (StandingState.step kangarooTwelve verify)
        (fun s => ∀ i k, s.standing i = .neverConnected k →
          (s.loop.peers i).reconnectState.delaySec = min 60 (2 ^ k)) (.initial first) as) := by
  constructor
  · intro hall
    obtain ⟨m, hm, htried⟩ := hall 3 (fun _ _ => duePeer) (fun _ => dueEnv)
      (dueCursor (2 ^ 64 - 1)) (by decide) (by decide) (fun _ => rfl) 2 fun _ _ => rfl
    have hnot : ∀ m : Fin 3, (2 : Fin 3) ∉
        (tryOneReconnectCall (fun _ => duePeer) dueEnv (dueCursor (2 ^ 64 - 1) m)).attempts := by
      decide
    exact hnot ⟨m, hm⟩ htried
  · intro hall
    have hrun := hall 1 (fun _ => default) (fun _ _ _ => true) (fun _ => (true, .failed))
      [.schedule 0]
    have hdelay := (hrun.2 _ rfl) 0 0 rfl
    exact absurd hdelay (by decide)

end DogeConnect
