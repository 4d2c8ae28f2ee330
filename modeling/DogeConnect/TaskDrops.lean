/-
Jobs that are not distributed.

`distributeTask` clears `activeTasks` for a clean job before it has read the
fields, and returns without a packet if one of them has the wrong size or the
packet would be too large.  The miners see packets only: they go on with the
jobs they hold, and no later packet tells them.  The loop hands the flag of a
*skipped* job to the next; nothing does so for a dropped one.

    run_none_unchanged      a dropped job leaves the map alone unless it is clean
                            and something is active
    droppedNotify_iff       the runs in which nothing is lost
-/
import DogeConnect.TaskRuns

namespace DogeConnect

/-! ## One call -/

theorem ConcurrentHashMap.clear_eq_iff {K V : Type} [DecidableEq K]
    {m : ConcurrentHashMap K V} : m.clear = m ↔ ∀ key, m.get key = none := by
  constructor
  · intro h key
    rw [← h, get_clear]
  · intro h
    cases m with
    | mk entries nodup =>
        cases entries with
        | nil => rfl
        | cons entry rest =>
            have hget := h entry.1
            simp [ConcurrentHashMap.get] at hget

section
variable {signTaskPacket : List UInt8 → ByteArr 64}

variable (signTaskPacket) in
/-- No clean job is dropped while a task is active. -/
def NoActiveDropped (st : DistState) (c : NotifyCall) : Prop :=
  ∀ st', c.run signTaskPacket st = .ok (st', none) →
    cleanRequested c.msg c.propagateCleanJobFlag = .ok true → ∀ j, st.activeTasks.get j = none

/-- What a call that returns without a packet leaves of the map and the counters. -/
theorem run_none_unchanged {c : NotifyCall} {st st' : DistState}
    (h : c.run signTaskPacket st = .ok (st', none)) :
    st'.stats = st.stats ∧
      (st'.activeTasks = st.activeTasks ↔ NoActiveDropped signTaskPacket st c) := by
  obtain ⟨clean, hclean, hactive, hstats⟩ := run_none signTaskPacket h
  refine ⟨hstats, ?_⟩
  rw [hactive]
  cases clean with
  | false =>
      constructor
      · intro _ _ _ hrequested
        rw [hclean] at hrequested
        cases hrequested
      · exact fun _ => rfl
  | true =>
      have hcleared : st.cleared true = st.activeTasks.clear := rfl
      rw [hcleared, ConcurrentHashMap.clear_eq_iff]
      exact ⟨fun hnone _ _ _ => hnone, fun hok => hok st' h hclean⟩

/-! ## What the miners hold -/

/-- The jobs of a miner that received every packet, the last first: a packet
with the clean flag replaces what it held. -/
def heldJobs : List SentPacket → List UInt64
  | [] => []
  | p :: packets => if p.cleanJobQueue then [p.jobId] else p.jobId :: heldJobs packets

/-- Every job held is a key of `activeTasks`. -/
def HeldActive (s : DistSystem) : Prop :=
  ∀ j ∈ heldJobs s.packets, s.dist.activeTasks.get j ≠ none

/-! ## Runs -/

variable (signTaskPacket) in
/-- A call without a packet changes nothing. -/
def NoTrace (s : DistSystem) (c : NotifyCall) : Prop :=
  ∀ st', c.run signTaskPacket s.dist = .ok (st', none) →
    st'.activeTasks = s.dist.activeTasks ∧ st'.stats = s.dist.stats

variable (signTaskPacket) in
/-- After a dropped clean job, the next packet carries the flag. -/
def KeepsFlag (s : DistSystem) (c : NotifyCall) : Prop :=
  s.droppedClean = true → ∀ st' task, c.run signTaskPacket s.dist = .ok (st', some task) →
    task.CarriesClean

variable (signTaskPacket) in
/-- After a dropped clean job, the next job that is sent is clean itself. -/
def CleanAfterDrop (s : DistSystem) (c : NotifyCall) : Prop :=
  s.droppedClean = true → ∀ st' task, c.run signTaskPacket s.dist = .ok (st', some task) →
    cleanRequested c.msg c.propagateCleanJobFlag = .ok true

theorem noTrace_iff (s : DistSystem) (c : NotifyCall) :
    NoTrace signTaskPacket s c ↔ NoActiveDropped signTaskPacket s.dist c := by
  constructor
  · intro h st' hrun hclean
    exact (run_none_unchanged hrun).2.mp (h st' hrun).1 st' hrun hclean
  · intro h st' hrun
    obtain ⟨hstats, hactive⟩ := run_none_unchanged hrun
    exact ⟨hactive.mpr h, hstats⟩

theorem keepsFlag_iff (s : DistSystem) (c : NotifyCall) :
    KeepsFlag signTaskPacket s c ↔ CleanAfterDrop signTaskPacket s c := by
  constructor
  · intro h hdropped st' task hrun
    obtain ⟨clean, hsent⟩ := run_some signTaskPacket hrun
    exact hsent.carriesClean_iff.mp (h hdropped st' task hrun)
  · intro h hdropped st' task hrun
    obtain ⟨clean, hsent⟩ := run_some signTaskPacket hrun
    exact hsent.carriesClean_iff.mpr (h hdropped st' task hrun)

/-- A drop that clears nothing keeps the held jobs active; so does a packet,
which clears only what it tells the miners to drop. -/
theorem heldActive_step (s : DistSystem) (c : NotifyCall) (s' : DistSystem) (h : HeldActive s)
    (hok : NoActiveDropped signTaskPacket s.dist c) (hs : callStep signTaskPacket s c = some s') :
    HeldActive s' := by
  cases callStep_cases hs with
  | @dropped dist clean hrun hclean hactive hstats =>
      intro j hj
      dsimp only at hj ⊢
      rw [(run_none_unchanged hrun).2.mpr hok]
      exact h j hj
  | @sent dist clean task hrun hsent =>
      intro j hj
      dsimp only at hj ⊢
      rw [hsent.stored, ConcurrentHashMap.get_insert]
      split
      · exact Option.some_ne_none _
      next hne =>
        cases clean with
        | true => exact absurd (List.mem_singleton.mp hj) hne
        | false =>
            rcases List.mem_cons.mp hj with heq | hj
            · exact absurd heq hne
            · exact h j hj

theorem heldActive_initial : HeldActive .initial := fun _ hj => absurd hj List.not_mem_nil

/-- What the code promises of a step. -/
def LeavesNoTrace (signTaskPacket : List UInt8 → ByteArr 64) (s : DistSystem) (c : NotifyCall) :
    Prop := NoTrace signTaskPacket s c ∧ KeepsFlag signTaskPacket s c

/-- A clean job is dropped only while nothing is active, and the next job that
is sent is clean as well. -/
def HarmlessDrop (signTaskPacket : List UInt8 → ByteArr 64) (s : DistSystem) (c : NotifyCall) :
    Prop := NoActiveDropped signTaskPacket s.dist c ∧ CleanAfterDrop signTaskPacket s c

theorem leavesNoTrace_iff (s : DistSystem) (c : NotifyCall) :
    LeavesNoTrace signTaskPacket s c ↔ HarmlessDrop signTaskPacket s c :=
  and_congr (noTrace_iff s c) (keepsFlag_iff s c)

/-- **Dropped jobs.**  A call that sends nothing leaves the counters alone, and
the map just when it drops no clean job while a task is active.  In a run, every
drop leaves no trace, no clean flag is lost and the jobs the miners hold stay
active, exactly when every drop is harmless. -/
theorem droppedNotify_iff (signTaskPacket : List UInt8 → ByteArr 64) (calls : List NotifyCall) :
    (∀ c st st', NotifyCall.run signTaskPacket c st = .ok (st', none) →
      st'.stats = st.stats ∧
        (st'.activeTasks = st.activeTasks ↔ NoActiveDropped signTaskPacket st c)) ∧
    ((Run.Along (callStep signTaskPacket) (LeavesNoTrace signTaskPacket) .initial calls ∧
        Run.Always (callStep signTaskPacket) HeldActive .initial calls) ↔
      Run.Along (callStep signTaskPacket) (HarmlessDrop signTaskPacket) .initial calls) := by
  refine ⟨fun c st st' hrun => run_none_unchanged hrun, ?_⟩
  have hstep : ∀ s c s', True → callStep signTaskPacket s c = some s' → True :=
    fun _ _ _ _ _ => trivial
  constructor
  · rintro ⟨htrace, -⟩
    exact Run.along_of_along hstep (fun s c _ => (leavesNoTrace_iff s c).mp) trivial htrace
  · intro hdrops
    refine ⟨Run.along_of_along hstep (fun s c _ => (leavesNoTrace_iff s c).mpr) trivial hdrops, ?_⟩
    exact Run.always_of_along (fun s c s' h hok hs => heldActive_step s c s' h hok.1 hs)
      heldActive_initial hdrops

end

/-! ## A malformed clean job -/

/-- A clean job. -/
def cleanJob : Json := sampleNotifyOf "c".toList samplePrevHash true

/-- A clean job with one byte for the previous block hash. -/
def malformedJob : Json := sampleNotifyOf "c".toList "cb".toList true

/-- Dropped before anything is active, and followed by a clean job. -/
theorem droppedNotify_iff_harmless :
    Run.Always (callStep fun _ => ByteArr.fill 64 0xab) HeldActive .initial
      [callOf malformedJob 1, callOf cleanJob 2] := by
  refine ((droppedNotify_iff _ _).2.mpr ?_).2
  refine Run.Along.cons rfl ⟨?_, ?_⟩ (Run.Along.cons rfl ⟨?_, ?_⟩ trivial)
  · intro _ _ _ j
    rfl
  · intro hdropped
    cases hdropped
  · intro st' hrun
    have hsent : ∃ st task, (callOf cleanJob 2).run (fun _ => ByteArr.fill 64 0xab)
        ⟨.empty, .initial, ByteArr.fill _ 0⟩ = .ok (st, some task) := ⟨_, _, rfl⟩
    obtain ⟨st, task, hsent⟩ := hsent
    have hboth := hsent.symm.trans hrun
    cases hboth
  · intro _ _ _ _
    rfl

/-- A job is active and out with the miners; the malformed clean job empties
the map, and the next packet says nothing of it. -/
theorem malformedClean_loses :
    ¬ Run.Along (callStep fun _ => ByteArr.fill 64 0xab)
        (LeavesNoTrace fun _ => ByteArr.fill 64 0xab) .initial
        [callOf jobA 1, callOf malformedJob 2, callOf jobB 3] ∧
    ∃ s, Run.exec (callStep fun _ => ByteArr.fill 64 0xab) .initial
        [callOf jobA 1, callOf malformedJob 2, callOf jobB 3] = some s ∧
      heldJobs s.packets = [3, 1] ∧ s.dist.activeTasks.get 1 = none ∧
      s.packets.map SentPacket.cleanJobQueue = [false, false] := by
  have hlast : ∃ s, Run.exec (callStep fun _ => ByteArr.fill 64 0xab) .initial
        [callOf jobA 1, callOf malformedJob 2, callOf jobB 3] = some s ∧
      heldJobs s.packets = [3, 1] ∧ s.dist.activeTasks.get 1 = none ∧
      s.packets.map SentPacket.cleanJobQueue = [false, false] := ⟨_, rfl, rfl, rfl, rfl⟩
  refine ⟨fun h => ?_, hlast⟩
  -- no trace would keep the held jobs active
  have hheld : Run.Always (callStep fun _ => ByteArr.fill 64 0xab) HeldActive .initial
      [callOf jobA 1, callOf malformedJob 2, callOf jobB 3] :=
    Run.always_of_along (fun s c s' hs hok hstep =>
      heldActive_step s c s' hs ((leavesNoTrace_iff s c).mp hok).1 hstep) heldActive_initial h
  obtain ⟨s, hs, hjobs, hnone, -⟩ := hlast
  refine hheld.exec hs 1 ?_ hnone
  rw [hjobs]
  exact List.mem_cons_of_mem _ List.mem_cons_self

end DogeConnect
