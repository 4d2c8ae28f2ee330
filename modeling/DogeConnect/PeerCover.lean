/-
Stranded peers: is every peer polled or retried?

A connection whose flag is false leaves the poll list at the next
`buildPollList`, and only `markDisconnected` and a failed reconnect schedule a
retry.  The flag can be false without either: a failed send of the distributor
clears it and so does the handshake inside a reconnect that still counts as
successful.  While the old poll list stands, `poll` would report the broken
socket.  But the list is rebuilt for any other peer's sake too, and a peer that
falls out of it with no retry pending is not looked at again.

    recvStep_covered     one step: the peers that are settled stay covered
    stranded_always      a peer that fell out stays out, along every run
    noneStranded_iff     at the head of the loop every peer is polled or
                         pending, just when no build finds a peer that is
                         neither connected nor pending
-/
import DogeConnect.QubicLoop

namespace DogeConnect

namespace RecvState

variable {n : Nat}

/-! ## Covered peers -/

/-- Its open socket is in the poll list. -/
def Polled (s : RecvState n) (i : Fin n) : Prop :=
  ∃ fd, (s.peers i).connection.rawSocket = some fd ∧ (some fd, i) ∈ s.socketPollList

/-- It has a pending retry. -/
def Pending (s : RecvState n) (i : Fin n) : Prop := (s.peers i).reconnectState.isPending = true

def Covered (s : RecvState n) (i : Fin n) : Prop := s.Polled i ∨ s.Pending i

/-- No peer is stranded at the head of the loop. -/
def NoneStranded (s : RecvState n) : Prop := s.phase = .top → ∀ i, s.Covered i

/-- A round of `buildPollList` does not look at a connection that is neither
connected nor pending. -/
def NoneDropped (s : RecvState n) : RecvAction n → Prop
  | .build => ∀ (i : Fin n) next, s.phase = .build i next →
      (s.peers i).connection.isConnected = true ∨ s.Pending i
  | _ => True

/-- The connections the poll list accounts for, by where the loop stands. -/
def Settled (s : RecvState n) (i : Fin n) : Prop :=
  match s.phase with
  | .schedule _ => False
  | .build k _ => i < k
  | _ => True

structure PollInv (s : RecvState n) : Prop where
  valid : ∀ i, (s.peers i).connection.Valid
  covered : ∀ i, s.Settled i → s.Covered i

/-! ## One step -/

/-- A peer keeps its cover while its socket, its retry and its entry stay. -/
theorem Covered.of_same {s s' : RecvState n} {i : Fin n} (h : s.Covered i)
    (hsocket : (s'.peers i).connection.rawSocket = (s.peers i).connection.rawSocket)
    (hretry : (s'.peers i).reconnectState = (s.peers i).reconnectState)
    (hlist : s.socketPollList ⊆ s'.socketPollList) : s'.Covered i := by
  rcases h with ⟨fd, hfd, hmem⟩ | hpending
  · exact .inl ⟨fd, hsocket.trans hfd, hlist hmem⟩
  · right
    rw [Pending, hretry]
    exact hpending

theorem PollInv.setPeer {s s' : RecvState n} (h : PollInv s) {i : Fin n} {p : Peer}
    (hpeers : s'.peers = (s.setPeer i p).peers) (hlist : s'.socketPollList = s.socketPollList)
    (hphase : ∀ j, s'.Settled j → s.Settled j)
    (hvalid : p.connection.Valid) (hcovered : s.Covered i → s'.Covered i) : PollInv s' := by
  constructor
  · intro j
    rw [hpeers]
    by_cases hj : j = i
    · rw [hj, setPeer_self]
      exact hvalid
    · rw [setPeer_of_ne s p hj]
      exact h.valid j
  · intro j hsettled
    have hj' := h.covered j (hphase j hsettled)
    by_cases hj : j = i
    · rw [hj] at hj' ⊢
      exact hcovered hj'
    · have hsame : s'.peers j = s.peers j := by rw [hpeers, setPeer_of_ne s p hj]
      exact hj'.of_same (by rw [hsame]) (by rw [hsame]) (by rw [hlist]; exact List.Subset.refl _)

/-- The invariant depends on the peers, the list and the phase only. -/
theorem PollInv.of_eq {s s' : RecvState n} (h : PollInv s) (hpeers : s'.peers = s.peers)
    (hlist : s'.socketPollList = s.socketPollList)
    (hphase : ∀ i, s'.Settled i → s.Settled i) : PollInv s' := by
  constructor
  · intro i
    rw [hpeers]
    exact h.valid i
  · intro i hsettled
    exact (h.covered i (hphase i hsettled)).of_same (by rw [hpeers]) (by rw [hpeers])
      (by rw [hlist]; exact List.Subset.refl _)

theorem PollInv.startBuild {s : RecvState n} (h : ∀ i, (s.peers i).connection.Valid)
    (next : AfterBuild) : PollInv (s.startBuild next) :=
  ⟨h, fun i hsettled => absurd hsettled (Nat.not_lt_zero i)⟩

theorem PollInv.listed {s : RecvState n} (h : PollInv s) {i : Fin n} {next : AfterBuild}
    (hphase : s.phase = .build i next) (hconnected : (s.peers i).connection.isConnected = true) :
    PollInv { s with
      socketPollList := s.socketPollList ++ [((s.peers i).connection.rawSocket, i)]
      phase := .build (i + 1) next } := by
  refine ⟨h.valid, fun j hsettled => ?_⟩
  rcases Nat.lt_succ_iff_lt_or_eq.mp hsettled with hlt | heq
  · refine (h.covered j ?_).of_same rfl rfl (List.subset_append_left _ _)
    simp only [Settled, hphase]
    exact hlt
  · obtain ⟨fd, hfd⟩ := h.valid i hconnected
    rw [Fin.ext heq]
    refine .inl ⟨fd, hfd, List.mem_append_right _ ?_⟩
    rw [hfd]
    exact List.mem_singleton_self _

theorem PollInv.passedOver {s : RecvState n} (h : PollInv s) {i : Fin n} {next : AfterBuild}
    (hphase : s.phase = .build i next) (hpending : s.Pending i) :
    PollInv { s with phase := .build (i + 1) next } := by
  refine ⟨h.valid, fun j hsettled => ?_⟩
  rcases Nat.lt_succ_iff_lt_or_eq.mp hsettled with hlt | heq
  · refine (h.covered j ?_).of_same rfl rfl (List.Subset.refl _)
    simp only [Settled, hphase]
    exact hlt
  · rw [Fin.ext heq]
    exact .inr hpending

variable {kangarooTwelve : List UInt8 → ByteArr 32}
  {verify : ByteArr 32 → ByteArr 32 → List UInt8 → Bool}

theorem recvStep_covered (s : RecvState n) (a : RecvAction n) (s' : RecvState n)
    (h : PollInv s) (hok : s.NoneDropped a)
    (hs : s.step kangarooTwelve verify a = some s') : PollInv s' := by
  cases step_cases hs with
  | present now hphase hconnected => exact h.of_eq rfl rfl fun j hsettled => absurd hsettled id
  | @scheduled i now hphase hconnected =>
      exact h.setPeer rfl rfl (fun j hsettled => absurd hsettled id) (h.valid i) fun _ =>
        .inr (by simp [Pending])
  | allScheduled now hphase hk => exact .startBuild h.valid .top
  | listed hphase hconnected => exact h.listed hphase hconnected
  | @passedOver i next hphase hconnected =>
      refine h.passedOver hphase ((hok i next hphase).resolve_left ?_)
      rw [hconnected]
      exact Bool.false_ne_true
  | @built k next hphase hk =>
      refine h.of_eq rfl rfl fun i _ => ?_
      simp only [Settled, hphase]
      exact lt_of_lt_of_le i.isLt (Nat.not_lt.mp hk)
  | @reconnected k i now later result connection hphase hi hready hreconnect =>
      have hvalid := QubicConnection.reconnect_valid (h.valid i) result
      rw [hreconnect] at hvalid
      refine .startBuild (fun j => ?_) .poll
      by_cases hj : j = i
      · rw [hj, setPeer_self]
        exact hvalid
      · rw [setPeer_of_ne _ _ hj]
        exact h.valid j
  | @notReconnected k i now later result connection hphase hi hready hreconnect =>
      have hvalid := QubicConnection.reconnect_valid (h.valid i) result
      rw [hreconnect] at hvalid
      exact h.setPeer rfl rfl (fun j _ => by simp [Settled, hphase]) hvalid fun _ =>
        .inr (by simp [Pending])
  | pollError hphase hlist => exact .startBuild h.valid .top
  | rebuild event now hphase hentry => exact .startBuild h.valid .top
  | @data p needRebuild fd i bytes r now hphase hentry hbytes hr =>
      exact h.setPeer rfl rfl (fun j _ => by simp [Settled, hphase]) (h.valid i) fun hi =>
        hi.of_same (by simp) (by simp) (List.Subset.refl _)
  | @lost p needRebuild fd i event now hphase hentry hevent =>
      exact h.setPeer rfl rfl (fun j _ => by simp [Settled, hphase])
        (QubicConnection.closeConnection_valid _) fun _ =>
          .inr (by simp [Pending, markDisconnected])
  | sendFails i =>
      -- the socket is still polled
      exact h.setPeer rfl rfl (fun _ => id) (QubicConnection.sendFails_valid _) fun hi =>
        hi.of_same (by simp [QubicConnection.sendFails]) (by simp) (List.Subset.refl _)
  | iterate hphase => exact h.of_eq rfl rfl fun i _ => by simp [Settled, hphase]
  | notReady now later result hphase hi hready =>
      exact h.of_eq rfl rfl fun i _ => by simp [Settled, hphase]
  | noneReady now later result hphase hk =>
      exact h.of_eq rfl rfl fun i _ => by simp [Settled, hphase]
  | allDown result hphase hlist => exact h.of_eq rfl rfl fun i _ => by simp [Settled, hphase]
  | ready hphase hlist => exact h.of_eq rfl rfl fun i _ => by simp [Settled, hphase]
  | timeout hphase hlist => exact h.of_eq rfl rfl fun i _ => by simp [Settled, hphase]
  | handled event now hphase hentry => exact h.of_eq rfl rfl fun i _ => by simp [Settled, hphase]
  | quiet now hphase hentry => exact h.of_eq rfl rfl fun i _ => by simp [Settled, hphase]

theorem pollInv_initial (first : Fin n → Bool × OpenResult) : PollInv (initial first) :=
  ⟨fun _ => QubicConnection.reconnect_valid Bool.noConfusion _, fun _ h => absurd h id⟩

/-! ## Stranded peers -/

/-- Neither connected, nor pending, nor polled. -/
structure Stranded (s : RecvState n) (i : Fin n) : Prop where
  started : ∀ k, s.phase ≠ .schedule k
  disconnected : (s.peers i).connection.isConnected = false
  forgotten : (s.peers i).reconnectState.isPending = false
  unpolled : ∀ fd, (fd, i) ∉ s.socketPollList

theorem Stranded.not_covered {s : RecvState n} {i : Fin n} (h : s.Stranded i) : ¬ s.Covered i := by
  rintro (⟨fd, -, hmem⟩ | hpending)
  · exact h.unpolled _ hmem
  · rw [Pending, h.forgotten] at hpending
    cases hpending

theorem Stranded.of_same {s s' : RecvState n} {i : Fin n} (h : s.Stranded i)
    (hphase : ∀ k, s'.phase ≠ .schedule k) (hpeer : s'.peers i = s.peers i)
    (hlist : s'.socketPollList ⊆ s.socketPollList) : s'.Stranded i where
  started := hphase
  disconnected := by rw [hpeer]; exact h.disconnected
  forgotten := by rw [hpeer]; exact h.forgotten
  unpolled fd hmem := h.unpolled fd (hlist hmem)

theorem Stranded.startBuild {s : RecvState n} {i : Fin n} (h : s.Stranded i) (next : AfterBuild) :
    (s.startBuild next).Stranded i :=
  h.of_same (fun _ => nofun) rfl (List.nil_subset _)

theorem Stranded.ne_of_ready {s : RecvState n} {i j : Fin n} (h : s.Stranded i) {now : Nat}
    (hready : (s.peers j).reconnectState.isReady now = true) : i ≠ j := by
  rintro rfl
  have hpending := ReconnectState.isPending_of_isReady hready
  rw [h.forgotten] at hpending
  cases hpending

theorem Stranded.ne_of_entry {s : RecvState n} {i j : Fin n} (h : s.Stranded i) {p : Nat}
    {fd : Option Nat} (hentry : s.socketPollList[p]? = some (fd, j)) : i ≠ j := by
  rintro rfl
  exact h.unpolled fd (List.mem_of_getElem? hentry)

theorem recvStep_stranded {i : Fin n} (s : RecvState n) (a : RecvAction n) (s' : RecvState n)
    (h : s.Stranded i) (hs : s.step kangarooTwelve verify a = some s') : s'.Stranded i := by
  cases step_cases hs with
  | present now hphase hconnected => exact absurd hphase (h.started _)
  | scheduled now hphase hconnected => exact absurd hphase (h.started _)
  | allScheduled now hphase hk => exact absurd hphase (h.started _)
  | @listed j next hphase hconnected =>
      refine ⟨fun _ => nofun, h.disconnected, h.forgotten, fun fd hmem => ?_⟩
      rcases List.mem_append.mp hmem with hmem | hmem
      · exact h.unpolled fd hmem
      · have hij : i = j := (Prod.mk.inj (List.mem_singleton.mp hmem)).2
        rw [← hij, h.disconnected] at hconnected
        cases hconnected
  | @built k next hphase hk =>
      refine h.of_same (fun k => ?_) rfl (List.Subset.refl _)
      cases next <;> nofun
  | @reconnected k j now later result connection hphase hj hready hreconnect =>
      exact h.of_same (fun _ => nofun) (setPeer_of_ne _ _ (h.ne_of_ready hready))
        (List.nil_subset _)
  | @notReconnected k j now later result connection hphase hj hready hreconnect =>
      exact h.of_same (fun _ => nofun) (setPeer_of_ne _ _ (h.ne_of_ready hready))
        (List.Subset.refl _)
  | pollError hphase hlist => exact h.startBuild .top
  | rebuild event now hphase hentry => exact h.startBuild .top
  | data now hphase hentry hbytes hr =>
      exact h.of_same (fun _ => nofun) (setPeer_of_ne _ _ (h.ne_of_entry hentry))
        (List.Subset.refl _)
  | lost now hphase hentry hevent =>
      exact h.of_same (fun _ => nofun) (setPeer_of_ne _ _ (h.ne_of_entry hentry))
        (List.Subset.refl _)
  | sendFails j =>
      by_cases hij : i = j
      · subst hij
        exact ⟨h.started, by rw [setPeer_self]; rfl, by rw [setPeer_self]; exact h.forgotten,
          h.unpolled⟩
      · exact h.of_same h.started (setPeer_of_ne _ _ hij) (List.Subset.refl _)
  | _ => exact h.of_same (fun _ => nofun) rfl (List.Subset.refl _)

theorem stranded_always {i : Fin n} {s : RecvState n} (h : s.Stranded i)
    (as : List (RecvAction n)) :
    Run.Always (step kangarooTwelve verify) (fun t => t.Stranded i) s as :=
  Run.always_of_step recvStep_stranded h

/-! ## Runs -/

/-- A list under construction has no entry for the connections to come. -/
def Built (s : RecvState n) : Prop :=
  ∀ k next, s.phase = .build k next → ∀ entry ∈ s.socketPollList, entry.2.val < k

theorem built_of_phase {s : RecvState n} (h : ∀ k next, s.phase ≠ .build k next) : s.Built :=
  fun k next hphase => absurd hphase (h k next)

theorem built_startBuild (s : RecvState n) (next : AfterBuild) : (s.startBuild next).Built :=
  fun _ _ _ _ hmem => absurd hmem List.not_mem_nil

theorem recvStep_built (s : RecvState n) (a : RecvAction n) (s' : RecvState n)
    (h : s.Built) (hs : s.step kangarooTwelve verify a = some s') : s'.Built := by
  cases step_cases hs with
  | @listed i next hphase hconnected =>
      rintro k next' hphase' entry hmem
      cases hphase'
      rcases List.mem_append.mp hmem with hmem | hmem
      · exact Nat.lt_succ_of_lt (h i next hphase entry hmem)
      · rw [List.mem_singleton.mp hmem]
        exact Nat.lt_succ_self i
  | @passedOver i next hphase hconnected =>
      rintro k next' hphase' entry hmem
      cases hphase'
      exact Nat.lt_succ_of_lt (h i next hphase entry hmem)
  | @built k next hphase hk =>
      refine built_of_phase fun k' next' => ?_
      cases next <;> nofun
  | allScheduled now hphase hk => exact built_startBuild s .top
  | reconnected now later hphase hi hready hreconnect => exact built_startBuild _ .poll
  | pollError hphase hlist => exact built_startBuild s .top
  | rebuild event now hphase hentry => exact built_startBuild s .top
  | sendFails i => exact h
  | _ => exact built_of_phase fun _ _ => nofun

theorem stranded_of_dropped {s s' : RecvState n} {a : RecvAction n} (h : s.Built)
    (hs : s.step kangarooTwelve verify a = some s') (hdropped : ¬ s.NoneDropped a) :
    ∃ i, s'.Stranded i := by
  cases step_cases hs with
  | @listed j next hphase hconnected =>
      refine absurd (fun i next' hphase' => .inl ?_) hdropped
      rw [hphase] at hphase'
      cases Fin.ext (RecvPhase.build.inj hphase').1
      exact hconnected
  | @passedOver j next hphase hconnected =>
      refine ⟨j, fun _ => nofun, hconnected, ?_, fun fd hmem => ?_⟩
      · by_contra hpending
        refine hdropped fun i next' hphase' => .inr ?_
        rw [hphase] at hphase'
        cases Fin.ext (RecvPhase.build.inj hphase').1
        exact (Bool.not_eq_false _).mp hpending
      · exact absurd (h j next hphase _ hmem) (lt_irrefl _)
  | @built k next hphase hk =>
      refine absurd (fun i next' hphase' => ?_) hdropped
      rw [hphase] at hphase'
      exact absurd i.isLt ((RecvPhase.build.inj hphase').1 ▸ hk)
  | _ => exact absurd trivial hdropped

/-- A run that ends at the head of the loop with every peer accounted for has
dropped none. -/
theorem along_of_always : ∀ {as : List (RecvAction n)} {s t : RecvState n}, s.Built →
    Run.exec (step kangarooTwelve verify) s as = some t → t.phase = .top → t.NoneStranded →
    Run.Along (step kangarooTwelve verify) NoneDropped s as
  | [], _, _, _, _, _, _ => trivial
  | a :: as, s, t, h, hrun, htop, hcovered => by
      intro s' hs
      have hrest : Run.exec (step kangarooTwelve verify) s' as = some t := by
        rw [Run.exec, hs] at hrun
        exact hrun
      refine ⟨?_, along_of_always (recvStep_built s a s' h hs) hrest htop hcovered⟩
      by_contra hdropped
      obtain ⟨i, hi⟩ := stranded_of_dropped h hs hdropped
      have hlost : t.Stranded i := (stranded_always hi as).exec hrest
      exact hlost.not_covered (hcovered htop i)

/-- **When no peer is stranded.**  A run whose builds find every connection
connected or pending has every peer polled or pending whenever it is at the
head of the loop; and a run that comes back to the head with every peer polled
or pending has dropped none on the way. -/
theorem noneStranded_iff (first : Fin n → Bool × OpenResult) (as : List (RecvAction n)) :
    (Run.Along (step kangarooTwelve verify) NoneDropped (initial first) as →
      Run.Always (step kangarooTwelve verify) NoneStranded (initial first) as) ∧
    ∀ t, Run.exec (step kangarooTwelve verify) (initial first) as = some t → t.phase = .top →
      t.NoneStranded → Run.Along (step kangarooTwelve verify) NoneDropped (initial first) as := by
  constructor
  · intro hok
    refine Run.Always.mono ?_ (Run.always_of_along recvStep_covered (pollInv_initial first) hok)
    intro s hs htop i
    exact hs.covered i (by simp [Settled, htop])
  · intro t hrun htop hcovered
    exact along_of_always (built_of_phase fun _ _ => nofun) hrun htop hcovered

/-! ## Two peers -/

/-- Both peers are connected; the send to the first fails, and the second
closes its connection. -/
def droppedRun : List (RecvAction 2) :=
  [.schedule 0, .schedule 0, .schedule 0, .build, .build, .build,
    .iterate, .scan 1 1 .failed, .scan 1 1 .failed, .scan 1 1 .failed, .sendFails 0, .poll .ready,
    .handle .quiet 2, .handle .closed 2, .handle .quiet 2, .build, .build, .build]

/-- The first peer's socket stays open, out of the list and with no retry. -/
theorem droppedRun_stranded :
    ¬ Run.Always (step (fun _ => ByteArr.fill 32 0) fun _ _ _ => true) NoneStranded
        (initial fun i => (true, .opened i true)) droppedRun ∧
    ∃ s, Run.exec (step (fun _ => ByteArr.fill 32 0) fun _ _ _ => true)
        (initial fun i => (true, .opened i true)) droppedRun = some s ∧
      s.phase = .top ∧ (s.peers 0).connection.rawSocket = some 0 ∧ s.Stranded 0 ∧
      s.Pending 1 := by
  have hlast : ∃ s, Run.exec (step (fun _ => ByteArr.fill 32 0) fun _ _ _ => true)
      (initial fun i => (true, .opened i true)) droppedRun = some s ∧
      s.phase = .top ∧ (s.peers 0).connection.rawSocket = some 0 ∧ s.Stranded 0 ∧ s.Pending 1 :=
    ⟨_, rfl, rfl, rfl, ⟨fun _ => nofun, rfl, rfl, fun _ => List.not_mem_nil⟩, rfl⟩
  refine ⟨fun h => ?_, hlast⟩
  obtain ⟨s, hs, htop, -, hstranded, -⟩ := hlast
  exact hstranded.not_covered (h.exec hs htop 0)

end RecvState

end DogeConnect
