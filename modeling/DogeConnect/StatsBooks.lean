/-
What the statistics keep to.

The figures of the master, the counters of the workers, the submissions handled and
the blocks found agree once all callbacks have returned, along every run whose
submissions are handled, bring their nonce as a string and come under names that are the
workers' own.

    increment_total          a counter of a worker, and the sum over the workers
    invalidShare_sums_iff    where the sum is lost
    handleStatsEvent_counts  one event
    books_step               one step, with what is still on its way
    stats_conserved          whole runs, from a file
-/
import DogeConnect.PoolStats
import DogeConnect.Lib.Run
import DogeConnect.Lib.Tally

namespace DogeConnect

namespace PoolStats

/-! ## The relations -/

/-- The sum of a counter over the workers. -/
def Stats.total (stats : Stats) (counter : Counter) : Nat :=
  Tally.total (fun w => w.count counter) stats.workers

/-- The figure the sum of a counter is to be. -/
def Figures.count (figures : Figures) : Counter → Nat
  | .valid => figures.sharesValid
  | .invalid => figures.sharesInvalid
  | .blocks => figures.blocksFound
  | .blocksAuxiliary => figures.blocksFoundAuxiliary.getD 0

/-- What the figures have to do with each other, with the number of submissions
and with the block events in the order in which they came. -/
structure Relations (stats : Stats) (submissions : Nat) (blocks : List RecentBlock) : Prop where
  shares : stats.sharesValid + stats.sharesInvalid = submissions
  sums : ∀ counter, stats.count counter = stats.total counter
  blocksConfirmed : stats.blocksConfirmed ≤ stats.blocksFound
  blocksConfirmedAuxiliary :
    stats.blocksConfirmedAuxiliary.getD 0 ≤ stats.blocksFoundAuxiliary.getD 0
  found : stats.blocksFound + stats.blocksFoundAuxiliary.getD 0 = blocks.length
  recentBlocks : stats.recentBlocks = blocks.reverse.take 10

/-- The relations of a file that was saved when less had been counted. -/
def Readable (submissions : Nat) (blocks : List RecentBlock) (file : StatsFile) : Prop :=
  ∃ earlier front, earlier ≤ submissions ∧ front <+: blocks ∧
    ∀ now, Relations (loadStats now (some file)) earlier front

theorem loadStats_saveStats {stats : Stats} {n : Nat} {blocks : List RecentBlock}
    (h : Relations stats n blocks) (now : Nat) :
    Relations (loadStats now (some (saveStats stats))) n blocks :=
  { h with }

theorem Readable.mono {n n' : Nat} {blocks blocks' : List RecentBlock} {file : StatsFile}
    (hn : n ≤ n') (hblocks : blocks <+: blocks') (h : Readable n blocks file) :
    Readable n' blocks' file := by
  obtain ⟨earlier, front, hearlier, hfront, hrelations⟩ := h
  exact ⟨earlier, front, hearlier.trans hn, hfront.trans hblocks, hrelations⟩

/-- The four sums go on agreeing where a figure goes up with its counter. -/
theorem sums_add {stats stats' : Stats} {counter : Counter}
    (hsums : ∀ other, stats.count other = stats.total other)
    (hcount : ∀ other, stats'.count other = stats.count other + if other = counter then 1 else 0)
    (htotal : ∀ other, stats'.total other = stats.total other + if other = counter then 1 else 0) :
    ∀ other, stats'.count other = stats'.total other := by
  intro other
  rw [hcount, htotal, hsums]

/-- A name that no object has before it is given one. -/
def Ordinary (addr : Str) : Prop := addr ∉ inheritedNames

namespace Master

/-! ## One counter -/

section
variable {m : Master} {addr : Str}

theorem ensureWorker_total (hproto : m.proto = none) (haddr : Ordinary addr) :
    ∃ workers w, m.ensureWorker addr = m.setWorkers workers ∧ workers.lookup addr = some w ∧
      ∀ counter, Tally.total (fun w => w.count counter) workers = m.stats.total counter := by
  unfold ensureWorker
  split
  · rename_i w hw
    split
    · rename_i hmissing
      rw [hproto, Option.or_none, Option.isNone_iff_eq_none] at hmissing
      refine ⟨_, _, rfl, AList.lookup_insert _, fun counter => Tally.total_insert_eq hw ?_⟩
      cases counter with
      | blocksAuxiliary => simp [Worker.count, hmissing]
      | _ => rfl
    · exact ⟨m.stats.workers, w, rfl, hw, fun _ => rfl⟩
  · rename_i hnone
    have hordinary : ¬ m.inherits addr := by
      rw [inherits, hproto]
      simpa [Ordinary] using haddr
    have hname : addr ≠ "__proto__".toList := by
      rintro rfl
      exact haddr (by decide)
    rw [if_neg hname, if_neg hordinary]
    refine ⟨_, _, rfl, AList.lookup_insert _, fun counter => ?_⟩
    rw [Tally.total_insert_of_notMem _ (AList.lookup_eq_none.mp hnone)]
    cases counter with
    | _ => exact Nat.zero_add _

/-- A counter of a worker goes up by one, and so does the sum over the workers. -/
theorem increment_total (hproto : m.proto = none) (haddr : Ordinary addr) (counter : Counter) :
    ∃ workers, m.increment addr counter = m.setWorkers workers ∧
      ∀ other, Tally.total (fun w => w.count other) workers
        = m.stats.total other + if other = counter then 1 else 0 := by
  obtain ⟨workers, w, heq, hw, htotal⟩ := ensureWorker_total hproto haddr
  refine ⟨workers.insert addr (w.increment none counter), ?_, fun other => ?_⟩
  · rw [increment, heq]
    simp only [setWorkers, hw, hproto]
  · rw [← htotal other]
    refine Tally.total_insert_add hw ?_
    cases counter with
    | _ =>
      cases other with
      | _ => simp [Worker.increment, Worker.count]

theorem increment_inherited (hnone : m.stats.workers.lookup addr = none) (haddr : m.inherits addr)
    (counter : Counter) : (m.increment addr counter).stats = m.stats := by
  have hsame : (m.ensureWorker addr).stats = m.stats := by
    unfold ensureWorker
    rw [hnone]
    simp only [if_pos haddr]
    split
    · rfl
    · rfl
  unfold increment
  simp only [hsame, hnone]
  split
  · rfl
  · exact hsame

/-- The sums survive an invalid share just when its address is ordinary. -/
theorem invalidShare_sums_iff (hproto : m.proto = none)
    (hown : m.stats.workers.lookup addr = none)
    (hsums : ∀ counter, m.stats.count counter = m.stats.total counter) (now : Nat) :
    (∀ counter, (m.handleStatsEvent now (.invalidShare addr)).stats.count counter
        = (m.handleStatsEvent now (.invalidShare addr)).stats.total counter) ↔ Ordinary addr := by
  constructor
  · intro h
    by_contra hinherited
    have hlost := increment_inherited
      (m := { m with stats := { m.stats with
        lastShareTime := some now
        sharesInvalid := m.stats.sharesInvalid + 1 } }) hown
      (by simp [inherits, not_not.mp hinherited]) .invalid
    have hinvalid := h .invalid
    rw [handleStatsEvent, hlost] at hinvalid
    have hbefore : m.stats.sharesInvalid + 1 = m.stats.sharesInvalid :=
      hinvalid.trans (hsums .invalid).symm
    omega
  · intro haddr
    obtain ⟨workers, heq, htotal⟩ := increment_total
      (m := { m with stats := { m.stats with
        lastShareTime := some now
        sharesInvalid := m.stats.sharesInvalid + 1 } }) hproto haddr .invalid
    rw [handleStatsEvent, heq]
    refine sums_add hsums (fun counter => ?_) htotal
    cases counter with
    | _ => rfl

end

end Master

/-! ## One event -/

/-- What the master has counted, and can read back. -/
structure Counts (n : Nat) (blocks : List RecentBlock) (m : Master) : Prop where
  proto : m.proto = none
  relations : Relations m.stats n blocks
  file : ∀ file, m.file = some file → Readable n blocks file

namespace Counts

variable {m : Master} {n : Nat} {blocks : List RecentBlock}

theorem save (h : Counts n blocks m) : Counts n blocks m.save where
  proto := h.proto
  relations := h.relations
  file file hfile := by
    cases hfile
    exact ⟨n, blocks, le_rfl, List.prefix_rfl, loadStats_saveStats h.relations⟩

theorem file_mono (h : Counts n blocks m) {n' : Nat} {blocks' : List RecentBlock} (hn : n ≤ n')
    (hblocks : blocks <+: blocks') :
    ∀ file, m.file = some file → Readable n' blocks' file :=
  fun file hfile => (h.file file hfile).mono hn hblocks

theorem invalidShare (h : Counts n blocks m) {address : Str} (haddr : Ordinary address)
    (now : Nat) : Counts (n + 1) blocks (m.handleStatsEvent now (.invalidShare address)) := by
  have hr := h.relations
  obtain ⟨workers, heq, htotal⟩ := Master.increment_total
    (m := { m with stats := { m.stats with
      lastShareTime := some now
      sharesInvalid := m.stats.sharesInvalid + 1 } }) h.proto haddr .invalid
  rw [Master.handleStatsEvent, heq]
  refine ⟨h.proto, ?_, h.file_mono (Nat.le_succ n) List.prefix_rfl⟩
  exact { hr with
    shares := congrArg (· + 1) hr.shares
    sums := by
      refine sums_add hr.sums (fun other => ?_) htotal
      cases other with
      | _ => rfl }

theorem countShare (h : Counts n blocks m) {event : ShareEvent} (haddr : Ordinary event.address) :
    Counts (n + if event.chain = .primary then 1 else 0) blocks (m.countShare event) := by
  have hr := h.relations
  unfold Master.countShare
  cases hchain : event.chain with
  | primary =>
      obtain ⟨workers, heq, htotal⟩ := Master.increment_total
        (m := { m with stats := { m.stats with sharesValid := m.stats.sharesValid + 1 } }) h.proto
        haddr .valid
      simp only [heq]
      refine ⟨h.proto, ?_, h.file_mono (Nat.le_succ n) List.prefix_rfl⟩
      exact { hr with
        shares := (Nat.succ_add _ _).trans (congrArg (· + 1) hr.shares)
        sums := by
          refine sums_add hr.sums (fun other => ?_) htotal
          cases other with
          | _ => rfl }
  | auxiliary =>
      obtain ⟨workers, w, heq, -, htotal⟩ := Master.ensureWorker_total h.proto haddr
      simp only [heq]
      exact ⟨h.proto, { hr with sums := fun other => (hr.sums other).trans (htotal other).symm },
        h.file⟩

theorem unshift_recentBlocks {block : RecentBlock}
    (h : m.stats.recentBlocks = blocks.reverse.take 10) :
    (m.unshift block).stats.recentBlocks = (blocks ++ [block]).reverse.take 10 := by
  have htake : (m.unshift block).stats.recentBlocks = (block :: m.stats.recentBlocks).take 10 := by
    simp only [Master.unshift]
    split
    · rfl
    · rename_i hshort
      exact (List.take_of_length_le (not_lt.mp hshort)).symm
  rw [htake, h, List.reverse_append, List.reverse_singleton, List.singleton_append,
    List.take_succ_cons, List.take_succ_cons, List.take_take]
  rfl

theorem countPrimaryBlock (h : Counts n blocks m) {event : ShareEvent}
    (haddr : Ordinary event.address) (now : Nat) :
    Counts n (blocks ++ if event.isPrimaryBlock then [Master.primaryBlock now event] else [])
      (m.countPrimaryBlock now event) := by
  have hr := h.relations
  cases hblock : event.isPrimaryBlock with
  | false => simpa [Master.countPrimaryBlock, hblock] using h
  | true =>
      obtain ⟨workers, heq, htotal⟩ := Master.increment_total
        (m := { m with stats := { m.stats with
          blocksFound := m.stats.blocksFound + 1
          blocksConfirmed :=
            if event.accepted then m.stats.blocksConfirmed + 1 else m.stats.blocksConfirmed
          lastBlockTime := some now
          lastBlockHeight := event.height } }) h.proto haddr .blocks
      simp only [Master.countPrimaryBlock, hblock, if_true, heq]
      refine Counts.save ⟨h.proto, ?_, h.file_mono le_rfl (List.prefix_append _ _)⟩
      exact {
        shares := hr.shares
        sums := by
          refine sums_add hr.sums (fun other => ?_) htotal
          cases other with
          | _ => rfl
        blocksConfirmed := by
          have hconfirmed := hr.blocksConfirmed
          simp only [Master.unshift, Master.setWorkers]
          split
          · omega
          · omega
        blocksConfirmedAuxiliary := hr.blocksConfirmedAuxiliary
        found := by
          have hfound := hr.found
          simp only [Master.unshift, Master.setWorkers, List.length_append, List.length_singleton]
          omega
        recentBlocks := unshift_recentBlocks hr.recentBlocks }

theorem countAuxiliaryBlock (h : Counts n blocks m) {event : ShareEvent}
    (haddr : Ordinary event.address) (now : Nat) :
    Counts n (blocks ++ if event.isAuxiliaryBlock then [Master.auxiliaryBlock now event] else [])
      (m.countAuxiliaryBlock now event) := by
  have hr := h.relations
  cases hblock : event.isAuxiliaryBlock with
  | false => simpa [Master.countAuxiliaryBlock, hblock] using h
  | true =>
      obtain ⟨workers, heq, htotal⟩ := Master.increment_total
        (m := { m with stats := { m.stats with
          blocksFoundAuxiliary := some (m.stats.blocksFoundAuxiliary.getD 0 + 1)
          blocksConfirmedAuxiliary :=
            if event.accepted then some (m.stats.blocksConfirmedAuxiliary.getD 0 + 1)
            else m.stats.blocksConfirmedAuxiliary
          lastBlockAuxiliaryTime := some now
          lastBlockAuxiliaryHeight := event.height } }) h.proto haddr .blocksAuxiliary
      simp only [Master.countAuxiliaryBlock, hblock, if_true, heq]
      refine Counts.save ⟨h.proto, ?_, h.file_mono le_rfl (List.prefix_append _ _)⟩
      exact {
        shares := hr.shares
        sums := by
          refine sums_add hr.sums (fun other => ?_) htotal
          cases other with
          | _ => rfl
        blocksConfirmed := hr.blocksConfirmed
        blocksConfirmedAuxiliary := by
          have hconfirmed := hr.blocksConfirmedAuxiliary
          simp only [Master.unshift, Master.setWorkers, Option.getD_some]
          split
          · exact Nat.succ_le_succ hconfirmed
          · omega
        found := by
          have hfound := hr.found
          simp only [Master.unshift, Master.setWorkers, Option.getD_some, List.length_append,
            List.length_singleton]
          omega
        recentBlocks := unshift_recentBlocks hr.recentBlocks }

end Counts

/-- The event is the one that counts a submission. -/
def StatsEvent.isShare : StatsEvent → Bool
  | .network _ _ => false
  | .invalidShare _ => true
  | .validShare event => decide (event.chain = .primary)

def StatsEvent.Ordinary : StatsEvent → Prop
  | .network _ _ => True
  | .invalidShare address => PoolStats.Ordinary address
  | .validShare event => PoolStats.Ordinary event.address

/-- The spec of `handleStatsEvent`. -/
theorem handleStatsEvent_counts {m : Master} {n : Nat} {blocks : List RecentBlock}
    (h : Counts n blocks m) {event : StatsEvent} (hevent : event.Ordinary) (now : Nat) :
    Counts (n + event.isShare.toNat) (blocks ++ blocksOf now event)
      (m.handleStatsEvent now event) := by
  cases event with
  | network chain data =>
      have hblocks : blocks ++ blocksOf now (.network chain data) = blocks := List.append_nil _
      rw [hblocks]
      cases chain with
      | primary => exact ⟨h.proto, { h.relations with }, h.file⟩
      | auxiliary => exact ⟨h.proto, { h.relations with }, h.file⟩
  | invalidShare address =>
      have hblocks : blocks ++ blocksOf now (.invalidShare address) = blocks := List.append_nil _
      rw [hblocks]
      exact h.invalidShare hevent now
  | validShare event =>
      have hnow : Counts n blocks
          { m with stats := { m.stats with lastShareTime := some now } } :=
        ⟨h.proto, { h.relations with }, h.file⟩
      have hcounts := ((hnow.countShare hevent).countPrimaryBlock hevent now).countAuxiliaryBlock
        hevent now
      rw [List.append_assoc] at hcounts
      have hshare : (if event.chain = .primary then 1 else 0)
          = (StatsEvent.validShare event).isShare.toNat := by
        cases hchain : event.chain with
        | primary => simp [StatsEvent.isShare, hchain]
        | auxiliary => simp [StatsEvent.isShare, hchain]
      rw [← hshare]
      exact hcounts

/-! ## Whole runs -/

/-- The call is about the primary emission of its submission. -/
def BlockCall.isShare (call : BlockCall) : Bool := decide (call.shareData.blockType ≠ .auxiliary)

/-- The submissions that have not been counted yet. -/
def StatsPool.inFlight (s : StatsPool) : Nat :=
  s.calls.countP BlockCall.isShare + s.sent.countP fun message => message.2.isShare

/-- `extraNonce2` is a string. -/
def ExtraNonce2.IsString : ExtraNonce2 → Prop
  | .text _ => True
  | .list _ => False

/-- A submission that is handled, with a nonce in text, under a name that is a
worker's own. -/
def Handled.Countable : Handled → Prop
  | .thrown => False
  | .rejected addrPrimary _ => Ordinary (addressOf addrPrimary)
  | .accepted share => share.extraNonce2.IsString ∧ Ordinary (addressOf share.addrPrimary)

/-- What the counting of a call relies on. -/
structure PoolShare.Countable (shareData : PoolShare) : Prop where
  ordinary : Ordinary (addressOf shareData.addrPrimary)
  substring : shareData.noSubstring = false

def Action.Countable : Action → Prop
  | .share _ handled => handled.Countable
  | _ => True

theorem countP_middle {α : Type} (p : α → Bool) (front : List α) (a : α) (back : List α) :
    (front ++ a :: back).countP p = (front ++ back).countP p + (p a).toNat := by
  rw [List.countP_append, List.countP_append, List.countP_cons]
  cases p a with
  | _ => simp [Nat.add_assoc]

/-- What the counters say while submissions are on their way, `owed` of them in
the hands of the step that is being taken. -/
structure Books (n : Nat) (blocks : List RecentBlock) (owed : Nat) (s : StatsPool) : Prop where
  counted : ∃ counted, counted + s.inFlight + owed = n + s.submissions ∧
    Counts counted (blocks ++ s.arrived) s.master
  calls : ∀ call ∈ s.calls, call.shareData.Countable
  sent : ∀ message ∈ s.sent, message.2.Ordinary

namespace Books

variable {s : StatsPool} {n : Nat} {blocks : List RecentBlock}

theorem start {now : Nat} {file : Option StatsFile}
    (h : ∀ now, Relations (loadStats now file) n blocks) :
    Books n blocks 0 (StatsPool.start now file) where
  counted := by
    refine ⟨n, rfl, rfl, ?_, ?_⟩
    · rw [StatsPool.start, List.append_nil]
      exact h now
    · rintro saved rfl
      exact ⟨n, blocks, le_rfl, List.prefix_append _ _, h⟩
  calls _ hcall := nomatch hcall
  sent _ hmessage := nomatch hmessage

theorem emit (event : StatsEvent) (h : Books n blocks event.isShare.toNat s)
    (hevent : event.Ordinary) (fork : Nat) : Books n blocks 0 (s.emit fork event) where
  counted := by
    obtain ⟨counted, hcounted, hmaster⟩ := h.counted
    refine ⟨counted, ?_, hmaster⟩
    have hsent : (s.emit fork event).inFlight = s.inFlight + event.isShare.toNat := by
      rw [StatsPool.inFlight, StatsPool.emit, countP_middle, List.append_nil]
      exact (Nat.add_assoc _ _ _).symm
    rw [hsent]
    exact (Nat.add_assoc _ _ _).symm.trans hcounted
  calls := h.calls
  sent message hmessage := by
    rcases List.mem_append.mp hmessage with hmessage | hmessage
    · exact h.sent message hmessage
    · rw [List.mem_singleton.mp hmessage]
      exact hevent

theorem append_call (call : BlockCall) (h : Books n blocks call.isShare.toNat s)
    (hcall : call.shareData.Countable) :
    Books n blocks 0 { s with calls := s.calls ++ [call] } where
  counted := by
    obtain ⟨counted, hcounted, hmaster⟩ := h.counted
    refine ⟨counted, ?_, hmaster⟩
    have hcalls : StatsPool.inFlight { s with calls := s.calls ++ [call] }
        = s.inFlight + call.isShare.toNat := by
      rw [StatsPool.inFlight, countP_middle, List.append_nil]
      exact Nat.add_right_comm _ _ _
    rw [hcalls]
    exact (Nat.add_assoc _ _ _).symm.trans hcounted
  calls other hother := by
    rcases List.mem_append.mp hother with hother | hother
    · exact h.calls other hother
    · rw [List.mem_singleton.mp hother]
      exact hcall
  sent := h.sent

theorem answered {i : Nat} {call : BlockCall} (h : Books n blocks 0 s)
    (hcall : s.calls[i]? = some call) :
    Books n blocks call.isShare.toNat { s with calls := s.calls.eraseIdx i } ∧
      call.shareData.Countable := by
  obtain ⟨hi, hget⟩ := List.getElem?_eq_some_iff.mp hcall
  have hmem : call ∈ s.calls := List.mem_of_getElem? hcall
  refine ⟨?_, h.calls call hmem⟩
  have hcut : s.calls = s.calls.take i ++ call :: s.calls.drop (i + 1) := by
    rw [← hget, List.getElem_cons_drop, List.take_append_drop]
  constructor
  · obtain ⟨counted, hcounted, hmaster⟩ := h.counted
    refine ⟨counted, ?_, hmaster⟩
    have hcalls : s.inFlight
        = StatsPool.inFlight { s with calls := s.calls.eraseIdx i } + call.isShare.toNat := by
      rw [StatsPool.inFlight, hcut, countP_middle, ← List.eraseIdx_eq_take_drop_succ, ← hcut]
      exact Nat.add_right_comm _ _ _
    rw [hcalls] at hcounted
    exact (Nat.add_assoc _ _ _).trans hcounted
  · exact fun other hother => h.calls other (List.mem_of_mem_eraseIdx hother)
  · exact h.sent

/-- A message that arrives is counted for what it was on its way as. -/
theorem receive {fork : Nat} {event : StatsEvent} {rest : List (Nat × StatsEvent)}
    (h : Books n blocks 0 s) (hfirst : takeFirst fork s.sent = some (event, rest)) (now : Nat) :
    Books n blocks 0 { s with
      sent := rest
      master := s.master.handleStatsEvent now event
      arrived := s.arrived ++ blocksOf now event } := by
  obtain ⟨front, back, hsent, hrest⟩ := takeFirst_some hfirst
  have hevent : event.Ordinary := by
    refine h.sent (fork, event) ?_
    rw [hsent]
    exact List.mem_append_right _ List.mem_cons_self
  constructor
  · obtain ⟨counted, hcounted, hmaster⟩ := h.counted
    refine ⟨counted + event.isShare.toNat, ?_, ?_⟩
    · have hmessages : (s.sent.countP fun message => message.2.isShare)
          = (rest.countP fun message => message.2.isShare) + event.isShare.toNat := by
        rw [hsent, hrest]
        exact countP_middle _ front (fork, event) back
      simp only [StatsPool.inFlight] at hcounted ⊢
      omega
    · rw [← List.append_assoc]
      exact handleStatsEvent_counts hmaster hevent now
  · exact h.calls
  · intro message hmessage
    refine h.sent message ?_
    rw [hrest] at hmessage
    rw [hsent]
    rcases List.mem_append.mp hmessage with hmessage | hmessage
    · exact List.mem_append_left _ hmessage
    · exact List.mem_append_right _ (List.mem_cons_of_mem _ hmessage)

end Books

/-- The listener counts a countable emission, as a share where it is a primary
one. -/
theorem shareEvent_countable (coins : Coins) {shareData : PoolShare} (h : shareData.Countable)
    (accepted : Bool) :
    ∃ event, shareEvent coins shareData true accepted = some event ∧ event.Ordinary ∧
      event.isShare = decide (shareData.blockType ≠ .auxiliary) := by
  rw [shareEvent, h.substring]
  refine ⟨_, rfl, h.ordinary, ?_⟩
  cases hblock : shareData.blockType with
  | _ => simp [StatsEvent.isShare]

section
variable {coins : Coins} {n : Nat} {blocks : List RecentBlock} {s : StatsPool}

theorem AcceptedShare.countable {share : AcceptedShare}
    (h : (Handled.accepted share).Countable) :
    share.shareData.Countable ∧ share.auxShareData.Countable := by
  obtain ⟨htext, haddr⟩ := h
  refine ⟨⟨haddr, ?_⟩, ⟨haddr, rfl⟩⟩
  rw [PoolShare.noSubstring, AcceptedShare.shareData]
  cases hnonce : share.extraNonce2 with
  | text s => rfl
  | list length =>
      rw [hnonce] at htext
      exact htext.elim

/-- One submission is counted by one emission, now or when the daemon has answered. -/
theorem managerShare_books (h : Books n blocks 1 s) (fork : Nat) {handled : Handled}
    (hhandled : handled.Countable) : Books n blocks 0 (s.managerShare coins fork handled) := by
  cases handled with
  | thrown => exact hhandled.elim
  | rejected addrPrimary addrAuxiliary =>
      exact Books.emit (.invalidShare (addressOf addrPrimary)) h hhandled fork
  | accepted share =>
      obtain ⟨hprimary, hauxiliary⟩ := AcceptedShare.countable hhandled
      have hshare : ∃ s', s.handlePrimary coins fork share.shareData true share.blockValid = some s' ∧
          Books n blocks 0 s' := by
        unfold StatsPool.handlePrimary
        cases hblock : share.blockValid with
        | true =>
            refine ⟨_, rfl, Books.append_call ⟨fork, share.shareData, .submitted⟩ ?_ hprimary⟩
            simpa [BlockCall.isShare, AcceptedShare.shareData, hblock] using h
        | false =>
            obtain ⟨event, hevent, hordinary, hisShare⟩ := shareEvent_countable coins hprimary false
            rw [hevent]
            refine ⟨_, rfl, Books.emit event ?_ hordinary fork⟩
            rw [hisShare]
            simpa [AcceptedShare.shareData, hblock] using h
      obtain ⟨s', hs', hbooks⟩ := hshare
      simp only [StatsPool.managerShare, hs']
      split
      · exact Books.append_call ⟨fork, share.auxShareData, .submitted⟩ hbooks hauxiliary
      · exact hbooks

theorem books_step (s : StatsPool) (a : Action) (s' : StatsPool) (h : Books n blocks 0 s)
    (hok : a.Countable) (hstep : s.step coins a = some s') : Books n blocks 0 s' := by
  cases a with
  | share fork handled =>
      cases hstep
      obtain ⟨counted, hcounted, hmaster⟩ := h.counted
      have howed : Books n blocks 1 { s with submissions := s.submissions + 1 } :=
        ⟨⟨counted, congrArg (· + 1) hcounted, hmaster⟩, h.calls, h.sent⟩
      exact managerShare_books howed fork hok
  | network fork chain data =>
      cases hstep
      exact Books.emit (.network chain data) h trivial fork
  | submitReply i result results auxHash =>
      simp only [StatsPool.step, submitBlock_checks] at hstep
      split at hstep
      · rename_i fork shareData hcall
        cases hstep
        obtain ⟨hanswered, hcountable⟩ := h.answered hcall
        exact Books.append_call ⟨fork, shareData, .checked _⟩ hanswered hcountable
      · cases hstep
  | blockReply i results =>
      simp only [StatsPool.step] at hstep
      split at hstep
      · rename_i fork shareData hash hcall
        cases hstep
        obtain ⟨hanswered, hcountable⟩ := h.answered hcall
        obtain ⟨event, hevent, hordinary, hisShare⟩ :=
          shareEvent_countable coins hcountable (checkAccepted hash results)
        rw [hevent]
        refine Books.emit event ?_ hordinary fork
        rw [hisShare]
        exact hanswered
      · cases hstep
  | receive fork now =>
      obtain ⟨⟨event, rest⟩, hfirst, rfl⟩ := Option.map_eq_some_iff.mp hstep
      exact h.receive hfirst now
  | save =>
      cases hstep
      obtain ⟨counted, hcounted, hmaster⟩ := h.counted
      exact ⟨⟨counted, hcounted, hmaster.save⟩, h.calls, h.sent⟩

/-- What the figures say once all callbacks have returned, and what is on disk. -/
structure Conserved (n : Nat) (blocks : List RecentBlock) (s : StatsPool) : Prop where
  quiet : s.Quiet → Relations s.master.stats (n + s.submissions) (blocks ++ s.arrived)
  restarted : s.Quiet → ∀ now, Relations (loadStats now (some (saveStats s.master.stats)))
    (n + s.submissions) (blocks ++ s.arrived)
  file : ∀ file, s.master.file = some file →
    Readable (n + s.submissions) (blocks ++ s.arrived) file

theorem Books.conserved (h : Books n blocks 0 s) : Conserved n blocks s := by
  obtain ⟨counted, hcounted, hmaster⟩ := h.counted
  have hquiet : s.Quiet → Relations s.master.stats (n + s.submissions) (blocks ++ s.arrived) := by
    rintro ⟨hcalls, hsent⟩
    have hnone : s.inFlight = 0 := by
      rw [StatsPool.inFlight, hcalls, hsent]
      rfl
    rw [hnone] at hcounted
    rw [← hcounted]
    exact hmaster.relations
  refine ⟨hquiet, fun h now => loadStats_saveStats (hquiet h) now, ?_⟩
  exact hmaster.file_mono (by omega) List.prefix_rfl

/-- Along a run whose submissions are all countable, every
submission is counted once, and the sums, the blocks and the file agree.  The master
may have started from a file. -/
theorem stats_conserved (coins : Coins) (now : Nat) (file : Option StatsFile) (n : Nat)
    (blocks : List RecentBlock) (hfile : Relations (loadStats now file) n blocks)
    (actions : List Action)
    (hok : Run.Along (StatsPool.step coins) (fun _ a => a.Countable) (.start now file) actions) :
    Run.Always (StatsPool.step coins) (Conserved n blocks) (.start now file) actions := by
  have hrelations : ∀ now, Relations (loadStats now file) n blocks := by
    intro now
    cases file with
    | none => exact { hfile with }
    | some file => exact { hfile with }
  exact (Run.always_of_along books_step (Books.start hrelations) hok).mono
    fun s h => h.conserved

/-! ## Two runs -/

def sampleCoins : Coins := ⟨"LTC".toList, "DOGE".toList⟩

/-- A share that wins both blocks. -/
def sampleShare : AcceptedShare :=
  ⟨"addr.rig".toList, some "aux".toList, .text "0000000000000000".toList, "00".toList, 7, true, 8,
    true⟩

def olderBlock : RecentBlock :=
  ⟨none, none, some 1, none, "addr".toList, none, 0, true⟩

/-- A file without the auxiliary fields. -/
def olderFile : StatsFile where
  sharesValid := 2
  sharesInvalid := 1
  blocksFound := 1
  blocksConfirmed := 1
  blocksFoundAuxiliary := none
  blocksConfirmedAuxiliary := none
  lastShareTime := none
  lastBlockTime := none
  lastBlockHeight := none
  lastBlockAuxiliaryTime := none
  lastBlockAuxiliaryHeight := none
  network := none
  networkAuxiliary := none
  recentBlocks := some [olderBlock]
  workers := some (AList.singleton "addr".toList ⟨2, 1, 1, none⟩)

/-- A share wins both blocks, one of which is rejected, and another fork has an
invalid one. -/
def bothRun : List Action :=
  [.share 0 (.accepted sampleShare), .share 1 (.rejected [] none),
    .submitReply 1 ⟨false, true⟩ [] (some "01".toList), .receive 1 5,
    .blockReply 1 [none], .submitReply 0 ⟨false, false⟩ [] none, .receive 0 6,
    .blockReply 0 [some ⟨"00".toList, 0⟩], .save, .receive 0 7]

theorem stats_conserved_bothRun :
    Run.Always (StatsPool.step sampleCoins) (Conserved 3 [olderBlock]) (.start 0 (some olderFile))
      bothRun := by
  refine stats_conserved sampleCoins 0 (some olderFile) 3 [olderBlock] ?_ bothRun ?_
  · exact {
      shares := rfl
      sums := by
        intro counter
        cases counter with
        | _ => rfl
      blocksConfirmed := le_rfl
      blocksConfirmedAuxiliary := le_rfl
      found := rfl
      recentBlocks := rfl }
  · have haddr : addressOf "addr.rig".toList ∉ inheritedNames := by decide
    have hunknown : addressOf [] ∉ inheritedNames := by decide
    exact .cons rfl ⟨trivial, haddr⟩ (.cons rfl hunknown (.cons rfl trivial (.cons rfl trivial
      (.cons rfl trivial (.cons rfl trivial (.cons rfl trivial (.cons rfl trivial
      (.cons rfl trivial (.cons rfl trivial trivial)))))))))

example : (Run.exec (StatsPool.step sampleCoins) (.start 0 (some olderFile)) bothRun).map
    (fun s => (s.calls, s.sent.length, s.master.stats.sharesValid, s.master.stats.sharesInvalid,
      s.master.stats.blocksFound, s.master.stats.blocksFoundAuxiliary,
      s.master.stats.blocksConfirmedAuxiliary))
      = some ([], 0, 3, 2, 2, some 1, none) := rfl

/-- A share whose `extraNonce2` is an array of sixteen, and wins the primary block. -/
def arrayShare : AcceptedShare :=
  { sampleShare with extraNonce2 := .list 16, auxBlockValid := false }

/-- An invalid share under a name that every object has, a submission that is not
handled, and a share whose nonce is an array. -/
theorem constructor_uncounted :
    (∃ s, Run.exec (StatsPool.step sampleCoins) (.start 0 none)
        [.share 0 (.rejected "constructor".toList none), .receive 0 1] = some s ∧ s.Quiet ∧
      s.submissions = 1 ∧ s.master.stats.sharesInvalid = 1 ∧ s.master.stats.total .invalid = 0) ∧
    (∃ s, Run.exec (StatsPool.step sampleCoins) (.start 0 none) [.share 0 .thrown] = some s ∧
      s.Quiet ∧ s.submissions = 1 ∧
      s.master.stats.sharesValid + s.master.stats.sharesInvalid = 0) ∧
    ∃ s, Run.exec (StatsPool.step sampleCoins) (.start 0 none)
        [.share 0 (.accepted arrayShare), .submitReply 0 ⟨false, false⟩ [] none,
          .blockReply 0 [some ⟨"00".toList, 0⟩]] = some s ∧ s.Quiet ∧ s.submissions = 1 ∧
      s.master.stats.sharesValid + s.master.stats.sharesInvalid = 0 ∧
      s.master.stats.blocksFound = 0 :=
  ⟨⟨_, rfl, ⟨rfl, rfl⟩, rfl, rfl, rfl⟩, ⟨_, rfl, ⟨rfl, rfl⟩, rfl, rfl⟩,
    ⟨_, rfl, ⟨rfl, rfl⟩, rfl, rfl, rfl⟩⟩

end

end PoolStats

end DogeConnect
