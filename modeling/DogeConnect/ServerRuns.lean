/-
The runs of the stratum server.

Over every run of `PoolServer.step`, from no clients and no jobs on:

    told_share         a share is held against what its client was told last
    banned_by_batches  a client is banned just for a bad batch of shares
    banned_silent      nothing from a banned address is heard until the ban is over
    last_job_current   a client that subscribed has the pool's job
    honest_share       what a client may work on, at its difficulty, is not refused
    credited_granted   the names on a share are ones the daemons know
-/
import DogeConnect.PoolServer
import DogeConnect.PoolAccept
import DogeConnect.Lib.Run

namespace DogeConnect

namespace PoolServer

/-! ## Every client -/

section
variable {config : ServerConfig} {env : PoolEnv}

/-- What holds of a new client and is kept by its moves holds of every client. -/
theorem clients_step {P : Client → Prop} (hfresh : ∀ c, Fresh c → P c)
    (hmove : ∀ {currentJob c c'}, P c → Move config currentJob c c' → P c') {s s' : Server} {e : Timed}
    (hs : ∀ id c, s.clients id = some c → P c) (h : step config env s e = some s') :
    ∀ id c, s'.clients id = some c → P c := by
  intro id c hc
  cases hbefore : s.clients id with
  | none => exact hfresh c (step_new h hbefore hc)
  | some d =>
      obtain ⟨c', hc', hmoves⟩ := step_client h hbefore
      rw [hc] at hc'
      cases hc'
      exact hmoves.keeps hmove (hs id d hbefore)

theorem Fresh.told {c : Client} (h : Fresh c) : c.Told := by
  obtain ⟨remoteAddress, localPort, activity, rfl | rfl⟩ := h
  · exact ⟨rfl, rfl, rfl⟩
  · exact ⟨rfl, rfl, rfl⟩

theorem Fresh.watched {c : Client} (h : Fresh c) : c.Watched config := by
  have hsize : 0 < config.batchSize := Nat.lt_of_lt_of_le Nat.one_pos (le_max_left 1 _)
  obtain ⟨remoteAddress, localPort, activity, rfl | rfl⟩ := h
  all_goals
    exact .inl ⟨rfl, [], [], .nil hsize, fun _ h => absurd h List.not_mem_nil, rfl, rfl⟩

end

/-! ### A server with one client -/

/-- The quotients of the runs below are doubles, so that nothing is rounded. -/
def sampleServer : ServerConfig where
  pool := ⟨false, [], fun _ => some []⟩
  round := id
  checkThreshold := 2
  invalidPercent := 50
  banLength := 600000
  connectionTimeout := 600000
  initialDifficulty := fun _ => some (1 / 1024)

def sampleTemplate : BlockTemplate := emptyTemplate (byteHash 0) 1 0

/-- A hash that is good enough. -/
def smallHashEnv : PoolEnv :=
  { sampleEnv with scrypt := fun _ => ByteArr.copy 32 (leBytes 32 (2 ^ 200)) }

def subscribedRun : List Timed :=
  [⟨1, .template (.primaryTemplate false true (.success sampleTemplate) 0)⟩,
    ⟨2, .connection 0 "10.0.0.1".toList 3333⟩, ⟨3, .data 0⟩,
    ⟨3, .line (.subscribe .null (ByteArr.fill 4 7))⟩]

def sampleRun : List Timed :=
  subscribedRun ++
    [⟨3, .line (.authorize .null "miner".toList [])⟩, ⟨3, .dataEnd⟩,
    ⟨4, .authorizeReply 0 0 true⟩, ⟨5, .data 0⟩,
    ⟨5, .line (.submit .null "miner".toList "none".toList [] [] [])⟩]

/-- Two shares that are not authorized, with a threshold of two. -/
def badRun : List Timed :=
  [⟨2, .connection 0 "10.0.0.1".toList 3333⟩, ⟨3, .data 0⟩,
    ⟨3, .line (.submit .null "miner".toList "none".toList [] [] [])⟩,
    ⟨3, .line (.submit .null "miner".toList "none".toList [] [] [])⟩, ⟨3, .dataEnd⟩]

/-! ### What a share is held against -/

section
variable {config : ServerConfig} {env : PoolEnv}

/-- A share in the log: its client's object is on the state of its wire, of which the
client has seen the rest since. -/
structure HandedTold (config : ServerConfig) (env : PoolEnv) (s : Server) (h : Handed) : Prop where
  wire : ∃ c, s.clients h.sender = some c ∧ h.client.sent <:+ c.sent
  told : h.client.Told
  authorized : h.client.authorized = true
  extraNonce1 : h.client.extraNonce1 = some h.extraNonce1
  result : h.result = (PoolState.handleEvent config.pool env h.pool
    (.submit (h.client.forShare h.extraNonce1) h.jobId h.extraNonce2 h.nTime h.nonce h.time)).2

structure ToldInv (config : ServerConfig) (env : PoolEnv) (s : Server) : Prop where
  told : ∀ id c, s.clients id = some c → c.Told
  handed : ∀ h ∈ s.handed, HandedTold config env s h

theorem suffix_moves {currentJob : Option Job} {c c' : Client} (h : Moves config currentJob c c') :
    c.sent <:+ c'.sent := by
  induction h with
  | refl => exact List.suffix_refl _
  | tail _ hlast ih => exact ih.trans (suffix_move hlast)

theorem HandedTold.step {s s' : Server} {e : Timed} {h : Handed} (hh : HandedTold config env s h)
    (hstep : step config env s e = some s') : HandedTold config env s' h := by
  obtain ⟨c, hc, hsuffix⟩ := hh.wire
  obtain ⟨c', hc', hmoves⟩ := step_client hstep hc
  exact { hh with wire := ⟨c', hc', hsuffix.trans (suffix_moves hmoves)⟩ }

theorem toldInv_step (s : Server) (e : Timed) (s' : Server) (hs : ToldInv config env s)
    (h : step config env s e = some s') : ToldInv config env s' := by
  refine ⟨clients_step (fun c hc => hc.told) (fun hc hmove => hc.move hmove) hs.told h, ?_⟩
  intro share hshare
  obtain ⟨id, c, message, -, -, hc, heffect⟩ | ⟨hevent, -⟩ | ⟨-, rfl⟩ := step_cases h
  · rcases heffect.handed with hsame | ⟨new, hnew, -, hfor⟩
    · rw [hsame] at hshare
      exact (hs.handed share hshare).step h
    · rw [hnew] at hshare
      rcases List.mem_cons.mp hshare with rfl | hshare
      · obtain ⟨c', hclients, hmoves, -⟩ := heffect.client
        obtain ⟨name, hclient⟩ := hfor.client
        have hquiet := Quiet.nameWorker c name e.now
        exact {
          wire := by
            rw [hfor.sender, hclients]
            refine ⟨c', Function.update_self .., ?_⟩
            rw [hclient, hquiet.sent]
            exact suffix_moves hmoves
          told := by
            rw [hclient]
            exact (hs.told id c hc).quiet hquiet
          authorized := hfor.authorized
          extraNonce1 := hfor.extraNonce1
          result := by
            rw [hfor.result, hfor.pool, hfor.time] }
      · exact (hs.handed share hshare).step h
  · rw [(handleEvent_frame hevent).1] at hshare
    exact (hs.handed share hshare).step h
  · exact (hs.handed share hshare).step h

end

section
variable {config : ServerConfig} {env : PoolEnv}

structure BanInv (config : ServerConfig) (s : Server) : Prop where
  watched : ∀ id c, s.clients id = some c → c.Watched config
  recorded : ∀ id c, s.clients id = some c → c.banned = true → ∃ t, (c.remoteAddress, t) ∈ s.bans

theorem Outside.banned {currentJob : Option Job} {id : Nat} {event : ServerEvent} {c c' : Client}
    (h : Outside config currentJob id event c c') :
    c'.banned = c.banned ∧ c'.remoteAddress = c.remoteAddress := by
  cases h with
  | same => exact ⟨rfl, rfl⟩
  | lost => exact ⟨rfl, rfl⟩
  | queue difficulty =>
      have hsame := SameRecord.enqueueDifficulty c difficulty
      exact ⟨hsame.banned, hsame.remoteAddress⟩
  | notify h cleanJobs now =>
      exact ⟨(SameRecord.broadcastMiningJob c _ cleanJobs now).banned,
        (SameRecord.broadcastMiningJob c _ cleanJobs now).remoteAddress⟩
  | reply h =>
      unfold Client.authorizeWorker Client.authorizeResult
      dsimp only
      repeat' split
      all_goals exact ⟨rfl, rfl⟩

theorem remoteAddress_moves {currentJob : Option Job} {c c' : Client}
    (h : Moves config currentJob c c') : c'.remoteAddress = c.remoteAddress := by
  induction h with
  | refl => rfl
  | tail _ hlast ih => rw [remoteAddress_move hlast, ih]

theorem banInv_step (s : Server) (e : Timed) (s' : Server) (hs : BanInv config s)
    (h : step config env s e = some s') : BanInv config s' := by
  refine ⟨clients_step (fun c hc => hc.watched) (fun hc hmove => hc.move hmove) hs.watched h, ?_⟩
  intro id c hc hbanned
  cases hbefore : s.clients id with
  | none =>
      obtain ⟨remoteAddress, localPort, activity, rfl | rfl⟩ := step_new h hbefore hc
      · cases hbanned
      · cases hbanned
  | some d =>
      obtain ⟨other, d', message, -, -, hd, heffect⟩ | ⟨hevent, -⟩ | ⟨-, rfl⟩ := step_cases h
      · have hbans : s.bans ⊆ s'.bans := by
          rcases heffect.bans with ⟨hbans, -⟩ | ⟨hbans, -⟩
          · rw [hbans]
            exact List.Subset.refl _
          · rw [hbans]
            exact List.subset_cons_self _ _
        obtain ⟨c', hclients, hmoves, -, htrigger⟩ := heffect.client
        rw [hclients] at hc
        by_cases hid : id = other
        · subst hid
          rw [Function.update_self] at hc
          cases hc
          rw [remoteAddress_moves hmoves]
          rcases htrigger hbanned with hold | hnew
          · obtain ⟨t, ht⟩ := hs.recorded id d' hd hold
            exact ⟨t, hbans ht⟩
          · exact ⟨e.now, hnew⟩
        · rw [Function.update_of_ne hid] at hc
          obtain ⟨t, ht⟩ := hs.recorded id c hc hbanned
          exact ⟨t, hbans ht⟩
      · obtain ⟨c', hc', houtside⟩ := handleEvent_client hevent (c := d) hbefore
        rw [hc] at hc'
        cases hc'
        rw [houtside.banned.1] at hbanned
        rw [houtside.banned.2, (handleEvent_frame hevent).2.1]
        exact hs.recorded id d hbefore hbanned
      · exact hs.recorded id c hc hbanned

end

/-- **Who is banned.**  In every run the shares of a client, as the server judged them,
fall into batches of the threshold, counted from its first share on.  The client is banned
just when there is a complete batch with too many invalid ones, and then the ban of its
address is on the record. -/
theorem banned_by_batches (config : ServerConfig) (env : PoolEnv) (es : List Timed) (s : Server)
    (hrun : Run.exec (step config env) (Server.initial .initial) es = some s)
    (id : Nat) (c : Client) (hc : s.clients id = some c) :
    (c.banned = true ↔ ∃ k, (k + 1) * config.batchSize ≤ c.verdicts.length ∧
      config.TooMany (Batches.batch config.batchSize k c.verdicts)) ∧
    (c.banned = true → ∃ t, (c.remoteAddress, t) ∈ s.bans) := by
  have hstart : BanInv config (Server.initial .initial) :=
    ⟨fun _ _ h => (nomatch h), fun _ _ h => (nomatch h)⟩
  have halways : Run.Always (step config env) (BanInv config) (Server.initial .initial) es :=
    Run.always_of_step banInv_step hstart
  have hinv := halways.exec hrun
  exact ⟨(hinv.watched id c hc).bad_batch, hinv.recorded id c hc⟩

theorem banned_by_batches_sample :
    ∃ s c, Run.exec (step sampleServer sampleEnv) (Server.initial .initial) badRun = some s ∧
      s.clients 0 = some c ∧ c.banned = true ∧ ∃ t, (c.remoteAddress, t) ∈ s.bans := by
  have hrun : (Run.exec (step sampleServer sampleEnv) (Server.initial .initial) badRun).map
      (fun s => (s.clients 0).map Client.banned) = some (some true) := by decide +kernel
  obtain ⟨s, hrun, hc⟩ := Option.map_eq_some_iff.mp hrun
  obtain ⟨c, hc, hbanned⟩ := Option.map_eq_some_iff.mp hc
  exact ⟨s, c, hrun, hc, hbanned, (banned_by_batches sampleServer sampleEnv badRun s hrun 0 c hc).2 hbanned⟩

/-! ### Banned addresses -/

section
variable {config : ServerConfig} {env : PoolEnv}

/-- The clock does not go back. -/
def Forward (s : Server) (e : Timed) : Prop := s.clock ≤ e.now

theorem clock_step {s s' : Server} {e : Timed}
    (h : step config env s e = some s') : s'.clock = e.now := by
  obtain ⟨id, c, message, -, -, -, heffect⟩ | ⟨hevent, -⟩ | ⟨-, rfl⟩ := step_cases h
  · exact heffect.clock
  · exact (handleEvent_frame hevent).2.2
  · rfl

theorem along_forward : ∀ (es : List Timed) (s : Server),
    (s.clock :: es.map Timed.now).Pairwise (· ≤ ·) → Run.Along (step config env) Forward s es := by
  intro es
  induction es with
  | nil => exact fun _ _ => trivial
  | cons e es ih =>
      intro s hsorted s' hstep
      obtain ⟨hfirst, hrest⟩ := List.pairwise_cons.mp hsorted
      refine ⟨hfirst e.now List.mem_cons_self, ih s' ?_⟩
      rw [clock_step hstep]
      exact hrest

/-- While a ban is not over, the network knows of it or of a later one. -/
def Remembered (config : ServerConfig) (s : Server) : Prop :=
  ∀ ip t, (ip, t) ∈ s.bans → t ≤ s.clock ∧
    (s.clock < t + config.banLength → ∃ t', s.bannedIPs ip = some t' ∧ t ≤ t')

/-- A ban that is remembered is remembered later, while the network keeps it. -/
theorem remembered_later {s s' : Server} (hs : Remembered config s) (hclock : s.clock ≤ s'.clock)
    (hbans : s'.bans = s.bans)
    (hkept : ∀ ip t', s.bannedIPs ip = some t' → (s'.clock : Int) - t' < config.banLength →
      s'.bannedIPs ip = some t') : Remembered config s' := by
  intro ip t hban
  rw [hbans] at hban
  obtain ⟨hpast, hknown⟩ := hs ip t hban
  refine ⟨hpast.trans hclock, fun hlast => ?_⟩
  obtain ⟨t', ht', hle⟩ := hknown (Nat.lt_of_le_of_lt hclock hlast)
  exact ⟨t', hkept ip t' ht' (by omega), hle⟩

theorem remembered_step (s : Server) (e : Timed) (s' : Server) (hs : Remembered config s)
    (hforward : Forward s e) (h : step config env s e = some s') : Remembered config s' := by
  obtain ⟨id, c, message, -, -, hc, heffect⟩ | ⟨hevent, -⟩ | ⟨-, rfl⟩ := step_cases h
  · have hclock : s'.clock = e.now := heffect.clock
    rcases heffect.bans with ⟨hbans, hips⟩ | ⟨hbans, hips⟩
    · refine remembered_later hs (by rw [hclock]; exact hforward) hbans ?_
      intro ip t' ht' _
      rw [hips]
      exact ht'
    · intro ip t hban
      rw [hbans] at hban
      rw [hclock, hips]
      by_cases hip : ip = c.remoteAddress
      · rw [hip, Function.update_self]
        rcases List.mem_cons.mp hban with hnew | hold
        · cases hnew
          exact ⟨le_rfl, fun _ => ⟨e.now, rfl, le_rfl⟩⟩
        · have hpast := (hs ip t hold).1.trans hforward
          exact ⟨hpast, fun _ => ⟨e.now, rfl, hpast⟩⟩
      · rw [Function.update_of_ne hip]
        rcases List.mem_cons.mp hban with hnew | hold
        · cases hnew
          exact absurd rfl hip
        · obtain ⟨hpast, hknown⟩ := hs ip t hold
          exact ⟨hpast.trans hforward, fun hlast => hknown (Nat.lt_of_le_of_lt hforward hlast)⟩
  · obtain ⟨-, hbans, hclock⟩ := handleEvent_frame hevent
    have hclock : s'.clock = e.now := hclock
    refine remembered_later hs (by rw [hclock]; exact hforward) hbans ?_
    intro ip t' ht' hlast
    rw [hclock] at hlast
    obtain ⟨id, remoteAddress, localPort, -, -, rfl⟩ | ⟨id, c, -, -, -, rfl⟩ |
      ⟨id, c, c', keys, -, rfl, -, -⟩ | ⟨job, cleanJobs, pool, rfl, -, -⟩ | ⟨reply, pool, -, rfl, -⟩ |
      ⟨-, rfl⟩ := handleEvent_cases hevent
    · obtain ⟨c, -, ⟨heq, -⟩ | ⟨bannedTime, hban, hover, heq⟩⟩ :=
        handleClient_cases config { s with clock := e.now } id remoteAddress localPort e.now
      · rw [heq]
        exact ht'
      · rw [heq]
        by_cases hip : ip = remoteAddress
        · -- a ban that is over is not remembered any more
          subst hip
          have hsame : bannedTime = t' := Option.some.inj (hban.symm.trans ht')
          omega
        · change Function.update s.bannedIPs remoteAddress none ip = some t'
          rw [Function.update_of_ne hip]
          exact ht'
    · exact ht'
    · exact ht'
    · exact ht'
    · exact ht'
    · change (s.bannedIPs ip).filter _ = some t'
      rw [ht', Option.filter_some, if_pos (decide_eq_true hlast.le)]
  · refine remembered_later hs hforward rfl ?_
    intro ip t' ht' _
    exact ht'

/-- A client that was turned away, and of which nothing was heard. -/
structure Silent (id : Nat) (s : Server) : Prop where
  client : ∃ c, s.clients id = some c ∧ c.destroyed = true ∧ c.requests = [] ∧ c.verdicts = []
  notReading : s.reading ≠ some id
  notHanded : ∀ h ∈ s.handed, h.sender ≠ id

theorem Outside.silent {currentJob : Option Job} {id : Nat} {event : ServerEvent} {c c' : Client}
    (h : Outside config currentJob id event c c') (hdead : c.destroyed = true)
    (hrequests : c.requests = []) (hverdicts : c.verdicts = []) :
    c'.destroyed = true ∧ c'.requests = [] ∧ c'.verdicts = [] := by
  cases h with
  | same => exact ⟨hdead, hrequests, hverdicts⟩
  | lost => exact ⟨rfl, hrequests, hverdicts⟩
  | reply h =>
      rw [Client.authorizeWorker, hrequests]
      exact ⟨hdead, hrequests, hverdicts⟩
  | queue difficulty =>
      have hsame := SameRecord.enqueueDifficulty c difficulty
      refine ⟨?_, hsame.requests.trans hrequests, hsame.verdicts.trans hverdicts⟩
      unfold Client.enqueueDifficulty
      split <;> exact hdead
  | notify h cleanJobs now =>
      refine ⟨?_, (SameRecord.broadcastMiningJob c _ cleanJobs now).requests.trans hrequests,
        (SameRecord.broadcastMiningJob c _ cleanJobs now).verdicts.trans hverdicts⟩
      rcases broadcastMiningJob_cases config c _ cleanJobs now with hgone | ⟨-, hsame⟩
      · exact hgone
      · exact hsame.trans hdead

theorem silent_step {id : Nat} (s : Server) (e : Timed) (s' : Server) (hs : Silent id s)
    (h : step config env s e = some s') : Silent id s' := by
  obtain ⟨c, hc, hdead, hrequests, hverdicts⟩ := hs.client
  obtain ⟨other, d, message, hreading, -, hd, heffect⟩ | ⟨hevent, -⟩ | ⟨-, rfl⟩ := step_cases h
  · -- the line is another client's
    have hid : id ≠ other := by
      rintro rfl
      exact hs.notReading hreading
    obtain ⟨d', hclients, -⟩ := heffect.client
    refine ⟨⟨c, ?_, hdead, hrequests, hverdicts⟩, ?_, ?_⟩
    · rw [hclients, Function.update_of_ne hid]
      exact hc
    · rw [heffect.reading]
      exact hs.notReading
    · intro share hshare
      rcases heffect.handed with hsame | ⟨new, hnew, -, hfor⟩
      · rw [hsame] at hshare
        exact hs.notHanded share hshare
      · rw [hnew] at hshare
        rcases List.mem_cons.mp hshare with rfl | hshare
        · rw [hfor.sender]
          exact Ne.symm hid
        · exact hs.notHanded share hshare
  · obtain ⟨c', hc', houtside⟩ := handleEvent_client hevent (c := c) hc
    refine ⟨⟨c', hc', houtside.silent hdead hrequests hverdicts⟩, ?_, ?_⟩
    · obtain ⟨other, remoteAddress, localPort, -, -, rfl⟩ | ⟨other, d, -, hd, halive, rfl⟩ |
        ⟨other, d, d', keys, -, rfl, -, -⟩ | ⟨job, cleanJobs, pool, rfl, -, -⟩ |
        ⟨reply, pool, -, rfl, -⟩ | ⟨-, rfl⟩ := handleEvent_cases hevent
      · obtain ⟨d, -, ⟨heq, -⟩ | ⟨bannedTime, -, -, heq⟩⟩ :=
          handleClient_cases config { s with clock := e.now } other remoteAddress localPort e.now
        · rw [heq]
          exact hs.notReading
        · rw [heq]
          exact hs.notReading
      · rintro ⟨⟩
        have hsame : some d = some c := hd.symm.trans hc
        cases hsame
        rw [hdead] at halive
        cases halive
      · exact hs.notReading
      · exact hs.notReading
      · exact hs.notReading
      · exact hs.notReading
    · rw [(handleEvent_frame hevent).1]
      exact hs.notHanded
  · exact ⟨⟨c, hc, hdead, hrequests, hverdicts⟩, nofun, hs.notHanded⟩

theorem handed_known (s : Server) (e : Timed) (s' : Server)
    (hs : ∀ h ∈ s.handed, (s.clients h.sender).isSome = true) (hstep : step config env s e = some s') :
    ∀ h ∈ s'.handed, (s'.clients h.sender).isSome = true := by
  have hold : ∀ h ∈ s.handed, (s'.clients h.sender).isSome = true := by
    intro h hh
    obtain ⟨c, hc⟩ := Option.isSome_iff_exists.mp (hs h hh)
    obtain ⟨c', hc', -⟩ := step_client hstep hc
    rw [hc']
    rfl
  intro h hh
  obtain ⟨id, c, message, -, -, hc, heffect⟩ | ⟨hevent, -⟩ | ⟨-, rfl⟩ := step_cases hstep
  · rcases heffect.handed with hsame | ⟨new, hnew, -, hfor⟩
    · rw [hsame] at hh
      exact hold h hh
    · rw [hnew] at hh
      rcases List.mem_cons.mp hh with rfl | hh
      · have hsender : s.clients h.sender = some c := by
          rw [hfor.sender]
          exact hc
        obtain ⟨c', hc', -⟩ := step_client hstep hsender
        rw [hc']
        rfl
      · exact hold h hh
  · rw [(handleEvent_frame hevent).1] at hh
    exact hold h hh
  · exact hold h hh

end

theorem silent_connection {config : ServerConfig} {env : PoolEnv} {s s' : Server}
    (hremembered : Remembered config s)
    (hknown : ∀ h ∈ s.handed, (s.clients h.sender).isSome = true) {ip : Str} {t now : Nat}
    (hban : (ip, t) ∈ s.bans) (hnow : s.clock ≤ now) (hlast : now < t + config.banLength)
    {id localPort : Nat}
    (hconnect : step config env s ⟨now, .connection id ip localPort⟩ = some s') : Silent id s' := by
  have hreading : s.reading = none := by
    cases hreading : s.reading with
    | none => rfl
    | some other =>
        rw [step, hreading] at hconnect
        cases hconnect
  have hnew : s.clients id = none ∧
      s' = Server.handleClient config { s with clock := now, reading := none } id ip localPort now := by
    rw [step, hreading] at hconnect
    change (if (s.clients id).isSome then none else some _) = some s' at hconnect
    split at hconnect
    · cases hconnect
    · next hnone => exact ⟨by simpa using hnone, (Option.some.inj hconnect).symm⟩
  obtain ⟨hnone, rfl⟩ := hnew
  obtain ⟨t', ht', hle⟩ := (hremembered ip t hban).2 (Nat.lt_of_le_of_lt hnow hlast)
  have hhanded : ∀ h ∈ s.handed, h.sender ≠ id := by
    rintro h hh rfl
    have hsome := hknown h hh
    rw [hnone] at hsome
    cases hsome
  obtain ⟨c, hc, ⟨heq, hkicked⟩ | ⟨bannedTime, hbanned, hover, -⟩⟩ :=
    handleClient_cases config { s with clock := now, reading := none } id ip localPort now
  · have hdead : c.destroyed = true := hkicked t' ht'
    rw [heq]
    refine ⟨⟨c, Function.update_self .., hdead, ?_⟩, nofun, hhanded⟩
    rcases hc with rfl | rfl
    · exact ⟨rfl, rfl⟩
    · exact ⟨rfl, rfl⟩
  · have hsame : bannedTime = t' := Option.some.inj (hbanned.symm.trans ht')
    omega

/-- **A ban holds.**  Whatever came before, with a clock that does not go back: who connects
from an address before a ban of it is over is turned away, and whatever comes after, no line
of this client is handled: no share of it is judged or handed to the manager. -/
theorem banned_silent (config : ServerConfig) (env : PoolEnv) (es : List Timed) (s : Server)
    (hrun : Run.exec (step config env) (Server.initial .initial) es = some s)
    (hforward : Run.Along (step config env) Forward (Server.initial .initial) es)
    (ip : Str) (t : Nat) (hban : (ip, t) ∈ s.bans) (now : Nat) (hnow : s.clock ≤ now)
    (hlast : now < t + config.banLength) (id localPort : Nat) (s' : Server)
    (hconnect : step config env s ⟨now, .connection id ip localPort⟩ = some s')
    (later : List Timed) (s'' : Server) (hlater : Run.exec (step config env) s' later = some s'') :
    (∃ c, s''.clients id = some c ∧ c.destroyed = true ∧ c.verdicts = []) ∧
    ∀ h ∈ s''.handed, h.sender ≠ id := by
  have hremembered : Remembered config s := by
    have halways : Run.Always (step config env) (Remembered config) (Server.initial .initial) es :=
      Run.always_of_along remembered_step (fun _ _ h => absurd h List.not_mem_nil) hforward
    exact halways.exec hrun
  have hknown : ∀ h ∈ s.handed, (s.clients h.sender).isSome = true := by
    have halways : Run.Always (step config env)
        (fun s => ∀ h ∈ s.handed, (s.clients h.sender).isSome = true) (Server.initial .initial) es :=
      Run.always_of_step handed_known fun _ h => absurd h List.not_mem_nil
    exact halways.exec hrun
  have hsilent := silent_connection hremembered hknown hban hnow hlast hconnect
  have hend := (Run.always_of_step silent_step hsilent).exec hlater
  obtain ⟨c, hc, hdead, -, hverdicts⟩ := hend.client
  exact ⟨⟨c, hc, hdead, hverdicts⟩, hend.notHanded⟩

theorem banned_silent_sample :
    ∃ s s' s'', Run.exec (step sampleServer sampleEnv) (Server.initial .initial) badRun = some s ∧
      step sampleServer sampleEnv s ⟨4, .connection 1 "10.0.0.1".toList 3333⟩ = some s' ∧
      Run.exec (step sampleServer sampleEnv) s' [⟨5, .purge⟩] = some s'' ∧
      (∃ c, s''.clients 1 = some c ∧ c.destroyed = true ∧ c.verdicts = []) ∧
      ∀ h ∈ s''.handed, h.sender ≠ 1 := by
  have hcheck : (Run.exec (step sampleServer sampleEnv) (Server.initial .initial) badRun).map
      (fun s => (s.bans, s.clock, ((step sampleServer sampleEnv s
        ⟨4, .connection 1 "10.0.0.1".toList 3333⟩).bind fun s' =>
          Run.exec (step sampleServer sampleEnv) s' [⟨5, .purge⟩]).isSome))
      = some ([("10.0.0.1".toList, 3)], 3, true) := by decide +kernel
  obtain ⟨s, hrun, hstate⟩ := Option.map_eq_some_iff.mp hcheck
  obtain ⟨hbans, hclock, hlater⟩ : s.bans = [("10.0.0.1".toList, 3)] ∧ s.clock = 3 ∧
      ((step sampleServer sampleEnv s ⟨4, .connection 1 "10.0.0.1".toList 3333⟩).bind fun s' =>
        Run.exec (step sampleServer sampleEnv) s' [⟨5, .purge⟩]).isSome = true := by
    simpa only [Prod.mk.injEq] using hstate
  obtain ⟨s'', hlater⟩ := Option.isSome_iff_exists.mp hlater
  obtain ⟨s', hconnect, hlater⟩ := Option.bind_eq_some_iff.mp hlater
  obtain ⟨hclient, hhanded⟩ := banned_silent sampleServer sampleEnv badRun s hrun
    (along_forward badRun _ (by decide)) "10.0.0.1".toList 3
    (by rw [hbans]; exact List.mem_singleton_self _) 4 (by rw [hclock]; decide) (by decide)
    1 3333 s' hconnect [⟨5, .purge⟩] s'' hlater
  exact ⟨s, s', s'', hrun, hconnect, hlater, hclient, hhanded⟩

/-! ### Jobs -/

section
variable {config : ServerConfig} {env : PoolEnv}

/-- Who is not gone is on the list. -/
def Listed (s : Server) : Prop :=
  ∀ id c, s.clients id = some c → c.destroyed = false → id ∈ s.keys.list

theorem alive_moves {currentJob : Option Job} {c c' : Client} (h : Moves config currentJob c c')
    (halive : c'.destroyed = false) : c.destroyed = false := by
  induction h with
  | refl => exact halive
  | tail _ hlast ih => exact ih (destroyed_move hlast halive)

/-- A step keeps the keys of the clients that are not gone, and adds those of new ones. -/
theorem keys_step {s s' : Server} {e : Timed} (h : step config env s e = some s') {id : Nat}
    {c : Client} (hc : s'.clients id = some c) (halive : c.destroyed = false)
    (hkey : (∃ d, s.clients id = some d) → id ∈ s.keys.list) : id ∈ s'.keys.list := by
  obtain ⟨other, d, message, -, -, hd, heffect⟩ | ⟨hevent, -⟩ | ⟨-, rfl⟩ := step_cases h
  · rw [heffect.keys]
    refine hkey ?_
    obtain ⟨d', hclients, -⟩ := heffect.client
    by_cases hid : id = other
    · exact hid ▸ ⟨d, hd⟩
    · rw [hclients, Function.update_of_ne hid] at hc
      exact ⟨c, hc⟩
  · obtain ⟨other, remoteAddress, localPort, -, -, rfl⟩ | ⟨other, d, -, -, -, rfl⟩ |
      ⟨other, d, d', keys, hd, rfl, -, hkeys⟩ | ⟨job, cleanJobs, pool, rfl, -, -⟩ |
      ⟨reply, pool, -, rfl, -⟩ | ⟨-, rfl⟩ := handleEvent_cases hevent
    · have hkeys : (Server.handleClient config { s with clock := e.now } other remoteAddress localPort
            e.now).keys = s.keys.insert other ∧
          ∃ d, (Server.handleClient config { s with clock := e.now } other remoteAddress localPort
            e.now).clients = Function.update s.clients other (some d) := by
        obtain ⟨d, -, ⟨heq, -⟩ | ⟨bannedTime, -, -, heq⟩⟩ :=
          handleClient_cases config { s with clock := e.now } other remoteAddress localPort e.now
        · rw [heq]
          exact ⟨rfl, d, rfl⟩
        · rw [heq]
          exact ⟨rfl, d, rfl⟩
      obtain ⟨hkeys, d, hclients⟩ := hkeys
      rw [hkeys, Keys.mem_insert]
      by_cases hid : id = other
      · exact .inr hid
      · rw [hclients, Function.update_of_ne hid] at hc
        exact .inl (hkey ⟨c, hc⟩)
    · exact hkey ⟨c, hc⟩
    · have hmem : id ∈ s.keys.list := by
        by_cases hid : id = other
        · subst hid
          exact hkey ⟨d, hd⟩
        · change Function.update s.clients other (some d') id = some c at hc
          rw [Function.update_of_ne hid] at hc
          exact hkey ⟨c, hc⟩
      rcases hkeys with rfl | ⟨rfl, hgone⟩
      · exact hmem
      · refine Keys.mem_erase.mpr ⟨?_, hmem⟩
        rintro rfl
        change Function.update s.clients id (some d') id = some c at hc
        rw [Function.update_self] at hc
        cases hc
        rw [hgone] at halive
        cases halive
    · refine hkey ?_
      cases hd : s.clients id with
      | some d => exact ⟨d, rfl⟩
      | none =>
          have hnone := broadcastTo_none config job cleanJobs e.now s.keys.list s.clients hd
          exact absurd (hnone.symm.trans hc) nofun
    · exact hkey ⟨c, hc⟩
    · exact hkey ⟨c, hc⟩
  · exact hkey ⟨c, hc⟩

theorem listed_step (s : Server) (e : Timed) (s' : Server) (hs : Listed s)
    (h : step config env s e = some s') : Listed s' := by
  intro id c hc halive
  refine keys_step h hc halive ?_
  rintro ⟨d, hd⟩
  obtain ⟨c', hc', hmoves⟩ := step_client h hd
  rw [hc] at hc'
  cases hc'
  exact hs id d hd (alive_moves hmoves halive)

/-- What a template does to the jobs and the clients. -/
structure Handout (config : ServerConfig) (s s' : Server) (now : Nat) (reply : ManagerEvent)
    (job : Job) (cleanJobs : Bool) : Prop where
  broadcast : Server.broadcastOf config s.pool reply = some (job, cleanJobs)
  replaced : Replaced s.pool s'.pool job cleanJobs
    (s.broadcastMiningJobs config job cleanJobs now).2
  clients : s'.clients = (s.broadcastMiningJobs config job cleanJobs now).1.clients

/-- The jobs stay, or the valid ones are lost to an exception, or a reply replaces the
current one. -/
theorem step_jobs {s s' : Server} {e : Timed} (h : step config env s e = some s') :
    (s'.pool.manager.currentJob = s.pool.manager.currentJob ∧
      (s'.pool.manager.validJobs = s.pool.manager.validJobs ∨
        ∃ reply, e.event = .template reply ∧ Kept config s.pool s'.pool reply)) ∨
    ∃ reply job cleanJobs, e.event = .template reply ∧
      Handout config s s' e.now reply job cleanJobs := by
  obtain ⟨id, c, message, -, -, hc, heffect⟩ | ⟨hevent, -⟩ | ⟨-, rfl⟩ := step_cases h
  · exact .inl ⟨heffect.currentJob, .inl heffect.validJobs⟩
  · obtain ⟨id, remoteAddress, localPort, -, -, rfl⟩ | ⟨id, c, -, -, -, rfl⟩ |
      ⟨id, c, c', keys, -, rfl, -, -⟩ |
      ⟨job, cleanJobs, pool, rfl, -, ⟨-, rfl⟩ | ⟨reply, hreply, hbroadcast, hreplaced⟩⟩ |
      ⟨reply, pool, hreply, rfl, hkept⟩ | ⟨-, rfl⟩ := handleEvent_cases hevent
    · obtain ⟨c, -, ⟨heq, -⟩ | ⟨bannedTime, -, -, heq⟩⟩ :=
        handleClient_cases config { s with clock := e.now } id remoteAddress localPort e.now
      · rw [heq]
        exact .inl ⟨rfl, .inl rfl⟩
      · rw [heq]
        exact .inl ⟨rfl, .inl rfl⟩
    · exact .inl ⟨rfl, .inl rfl⟩
    · exact .inl ⟨rfl, .inl rfl⟩
    · exact .inl ⟨rfl, .inl rfl⟩
    · exact .inr ⟨reply, job, cleanJobs, hreply, hbroadcast, hreplaced, rfl⟩
    · exact .inl ⟨hkept.current, .inr ⟨reply, hreply, hkept⟩⟩
    · exact .inl ⟨rfl, .inl rfl⟩
  · exact .inl ⟨rfl, .inl rfl⟩

/-- What is handed out reaches every client: its parameters can be written, and nobody on the
list who is gone has a difficulty queued. -/
def Reaches (config : ServerConfig) (s : Server) (e : Timed) : Prop :=
  ∀ reply job cleanJobs, e.event = .template reply →
    Server.broadcastOf config s.pool reply = some (job, cleanJobs) →
    ∀ c ∈ s.keys.list.filterMap s.clients, job.hasParameters = true ∧ ¬ c.Stumbles config e.now

theorem Handout.sent {s s' : Server} {e : Timed} {reply : ManagerEvent} {job : Job}
    {cleanJobs : Bool} (h : Handout config s s' e.now reply job cleanJobs)
    (hevent : e.event = .template reply) (hreaches : Reaches config s e) :
    (s.broadcastMiningJobs config job cleanJobs e.now).2 = true ∧
      ∀ id c, s'.clients id = some c → c.destroyed = false → Listed s →
        ∃ d, s.clients id = some d ∧ c = (d.broadcastMiningJob config job cleanJobs e.now).1 := by
  have htold : (s.broadcastMiningJobs config job cleanJobs e.now).2 = true := by
    rw [broadcastMiningJobs_returns, ServerConfig.emits, List.all_eq_true]
    exact fun c hc => Client.passes_iff.mpr (hreaches reply job cleanJobs hevent h.broadcast c hc)
  refine ⟨htold, fun id c hc halive hlisted => ?_⟩
  rw [h.clients] at hc
  cases hd : s.clients id with
  | none =>
      have hnone := broadcastTo_none config job cleanJobs e.now s.keys.list s.clients hd
      have hsame : none = some c := hnone.symm.trans hc
      cases hsame
  | some d =>
      rcases broadcastTo_client config job cleanJobs e.now s.keys.list s.clients s.keys.nodup id d hd
        with ⟨hsame, hleft⟩ | ⟨-, hsent⟩
      · -- the loop came to everybody on the list
        have heq : d = c := Option.some.inj (hsame.symm.trans hc)
        subst heq
        have hend := hleft (hlisted id d hd halive)
        exact absurd (hend.symm.trans htold) Bool.false_ne_true
      · exact ⟨d, rfl, (Option.some.inj (hsent.symm.trans hc)).symm⟩

theorem Client.Served.congr {manager manager' : Manager} {c : Client} (hc : c.Served manager)
    (h : manager'.currentJob = manager.currentJob) : c.Served manager' := by
  refine ⟨fun job hjob => ?_, hc.subscribed⟩
  rw [h]
  exact hc.current job hjob

theorem Client.StillValid.congr {manager manager' : Manager} {c : Client}
    (hc : c.StillValid manager) (h : manager'.validJobs = manager.validJobs) :
    c.StillValid manager' := by
  intro job hjob
  rw [h]
  exact hc job hjob

theorem Fresh.sent {c : Client} (h : Fresh c) : c.sent = [] ∧ c.extraNonce1 = none := by
  obtain ⟨remoteAddress, localPort, activity, rfl | rfl⟩ := h
  · exact ⟨rfl, rfl⟩
  · exact ⟨rfl, rfl⟩

/-- The clients that are there are served. -/
structure ServedInv (s : Server) : Prop where
  listed : Listed s
  served : ∀ id c, s.clients id = some c → c.destroyed = false → c.Served s.pool.manager

theorem servedInv_step (s : Server) (e : Timed) (s' : Server) (hs : ServedInv s)
    (hreaches : Reaches config s e) (h : step config env s e = some s') : ServedInv s' := by
  refine ⟨listed_step s e s' hs.listed h, fun id c hc => ?_⟩
  obtain ⟨hjob, -⟩ | ⟨reply, job, cleanJobs, hevent, hhandout⟩ := step_jobs h
  · cases hold : s.clients id with
    | none =>
        obtain ⟨hsent, hextra⟩ := (step_new h hold hc).sent
        refine fun _ => ⟨fun job hjob => ?_, fun hsome => ?_⟩
        · rw [hsent] at hjob
          cases hjob
        · rw [hextra] at hsome
          cases hsome
    | some d =>
        obtain ⟨c', hc', hmoves⟩ := step_client h hold
        rw [hc] at hc'
        cases hc'
        exact hmoves.keeps (P := fun c => c.destroyed = false → c.Served s'.pool.manager)
          (fun hd hmove => Client.Served.move hd hmove)
          fun halive => (hs.served id d hold halive).congr hjob
  · intro halive
    obtain ⟨-, hsent⟩ := hhandout.sent hevent hreaches
    obtain ⟨d, -, rfl⟩ := hsent id c hc halive hs.listed
    exact .notify hhandout.replaced.current halive

/-- An update does not take the id of a job that is valid. -/
def KeepsIds (config : ServerConfig) (s : Server) (e : Timed) : Prop :=
  ∀ reply job, e.event = .template reply →
    Server.broadcastOf config s.pool reply = some (job, false) →
    s.pool.manager.validJobs job.jobId = none

/-- The constructor takes the templates that come. -/
def Constructed (config : ServerConfig) (s : Server) (e : Timed) : Prop :=
  ∀ reply response now, e.event = .template reply →
    (reply = .timeout (.success response) now ∨ ∃ newBlock newBroadcast,
      reply = .primaryTemplate newBlock newBroadcast (.success response) now) →
    (s.pool.withAuxData config.pool response).Constructs config.pool now = true

/-- Nothing throws while jobs are handed out, and no id of a valid job is taken. -/
structure Undisturbed (config : ServerConfig) (s : Server) (e : Timed) : Prop where
  reaches : Reaches config s e
  constructed : Constructed config s e
  keepsIds : KeepsIds config s e

/-- What everybody may work on is valid, and the current job is. -/
structure AllValid (s : Server) : Prop where
  listed : Listed s
  current : ∀ job, s.pool.manager.currentJob = some job →
    s.pool.manager.validJobs job.jobId = some job
  stillValid : ∀ id c, s.clients id = some c → c.destroyed = false → c.StillValid s.pool.manager

theorem allValid_step (s : Server) (e : Timed) (s' : Server) (hs : AllValid s)
    (hok : Undisturbed config s e) (h : step config env s e = some s') : AllValid s' := by
  obtain ⟨hjob, hjobs⟩ | ⟨reply, job, cleanJobs, hevent, hhandout⟩ := step_jobs h
  · have hvalid : s'.pool.manager.validJobs = s.pool.manager.validJobs := by
      rcases hjobs with hvalid | ⟨reply, hevent, hkept⟩
      · exact hvalid
      · rcases hkept.valid with hvalid | ⟨response, newBroadcast, now, hreply, hthrows⟩
        · exact hvalid
        · have hconstructs := hok.constructed reply response now hevent
            (hreply.imp_right fun ⟨newBlock, heq⟩ => ⟨newBlock, newBroadcast, heq⟩)
          rw [hthrows] at hconstructs
          cases hconstructs
    have hcurrent : ∀ job, s'.pool.manager.currentJob = some job →
        s'.pool.manager.validJobs job.jobId = some job := by
      rw [hjob, hvalid]
      exact hs.current
    refine ⟨listed_step s e s' hs.listed h, hcurrent, fun id c hc => ?_⟩
    cases hold : s.clients id with
    | none =>
        intro _ job hmem
        rw [(step_new h hold hc).sent.1] at hmem
        cases hmem
    | some d =>
        obtain ⟨c', hc', hmoves⟩ := step_client h hold
        rw [hc] at hc'
        cases hc'
        exact hmoves.keeps (P := fun c => c.destroyed = false → c.StillValid s'.pool.manager)
          (fun hd hmove => Client.StillValid.move hcurrent hd hmove)
          fun halive => (hs.stillValid id d hold halive).congr hvalid
  · obtain ⟨htold, hsent⟩ := hhandout.sent hevent hok.reaches
    refine ⟨listed_step s e s' hs.listed h, fun current hcurrent => ?_, fun id c hc halive => ?_⟩
    · rw [hhandout.replaced.current] at hcurrent
      cases hcurrent
      exact hhandout.replaced.valid htold
    · obtain ⟨d, hd, rfl⟩ := hsent id c hc halive hs.listed
      refine .notify (hhandout.replaced.valid htold) ?_ halive
      intro hupdate halive' old hmem
      -- the new job has an id of its own
      subst hupdate
      have hvalid := hs.stillValid id d hd halive' old hmem
      rw [hhandout.replaced.kept htold rfl, Function.update_of_ne ?_]
      · exact hvalid
      · intro hid
        have hfree := hok.keepsIds reply job hevent hhandout.broadcast
        rw [← hid, hvalid] at hfree
        cases hfree

end

/-- **The job a client has is the pool's.**  In every run in which what is handed out reaches
everybody: a client that is connected and has subscribed was sent the pool's current job, and
no other job since. -/
theorem last_job_current (config : ServerConfig) (env : PoolEnv) (es : List Timed) (s : Server)
    (hrun : Run.exec (step config env) (Server.initial .initial) es = some s)
    (hreaches : Run.Along (step config env) (Reaches config) (Server.initial .initial) es)
    (id : Nat) (c : Client) (hc : s.clients id = some c) (halive : c.destroyed = false)
    (hsubscribed : c.extraNonce1.isSome = true) :
    ∃ job, s.pool.manager.currentJob = some job ∧ lastJob c.sent = some job := by
  have hstart : ServedInv (Server.initial .initial) :=
    ⟨fun _ _ h => (nomatch h), fun _ _ h => (nomatch h)⟩
  have halways := Run.always_of_along servedInv_step hstart hreaches
  have hserved := (halways.exec hrun).served id c hc halive
  obtain ⟨job, hjob⟩ := hserved.subscribed hsubscribed
  exact ⟨job, hserved.current job hjob, hjob⟩

theorem along_noTemplate {config : ServerConfig} {env : PoolEnv} : ∀ (es : List Timed) (s : Server),
    (∀ e ∈ es, ∀ reply, e.event ≠ .template reply) →
    Run.Along (step config env) (Undisturbed config) s es := by
  intro es
  induction es with
  | nil => exact fun _ _ => trivial
  | cons e es ih =>
      intro s h s' _
      have hother := h e List.mem_cons_self
      refine ⟨⟨?_, ?_, ?_⟩, ih s' fun e he => h e (List.mem_cons_of_mem _ he)⟩
      · exact fun reply job cleanJobs hevent => absurd hevent (hother reply)
      · exact fun reply response now hevent => absurd hevent (hother reply)
      · exact fun reply job hevent => absurd hevent (hother reply)

theorem along_subscribedRun (env : PoolEnv) :
    Run.Along (step sampleServer env) (Undisturbed sampleServer) (Server.initial .initial)
      subscribedRun := by
  intro s _
  refine ⟨⟨?_, ?_, ?_⟩, along_noTemplate _ s (by simp)⟩
  · exact fun reply job cleanJobs _ _ c hc => absurd hc List.not_mem_nil
  · intro reply response now hevent hreply
    cases hevent
    rcases hreply with h | ⟨newBlock, newBroadcast, h⟩
    · cases h
    · cases h
      decide +kernel
  · exact fun _ _ _ _ => rfl

theorem last_job_current_sample :
    ∃ s c job, Run.exec (step sampleServer sampleEnv) (Server.initial .initial) subscribedRun
      = some s ∧ s.clients 0 = some c ∧ s.pool.manager.currentJob = some job ∧
      lastJob c.sent = some job := by
  have hrun : (Run.exec (step sampleServer sampleEnv) (Server.initial .initial) subscribedRun).map
      (fun s => (s.clients 0).map fun c => (c.destroyed, c.extraNonce1.isSome))
        = some (some (false, true)) := by decide +kernel
  obtain ⟨s, hrun, hc⟩ := Option.map_eq_some_iff.mp hrun
  obtain ⟨c, hc, hstate⟩ := Option.map_eq_some_iff.mp hc
  obtain ⟨halive, hsubscribed⟩ : c.destroyed = false ∧ c.extraNonce1.isSome = true := by
    simpa using hstate
  obtain ⟨job, hjob, hlast⟩ := last_job_current sampleServer sampleEnv subscribedRun s hrun
    (Run.along_of_along (I := fun _ => True) (fun _ _ _ _ _ => trivial) (fun _ _ _ h => h.reaches)
      trivial (along_subscribedRun sampleEnv)) 0 c hc halive hsubscribed
  exact ⟨s, c, job, hrun, hc, hjob, hlast⟩

/-! ### Honest shares -/

/-- `shareDiff` of `handleShare`. -/
def roundedDiff (round : ℚ → ℚ) (headerBigInt : Nat) : ℚ :=
  round (round ((scryptDiff : ℚ) / round headerBigInt) * scryptMultiplier)

/-- The test of `handleShare` on the hash: a difficulty of zero lets everything pass, and the
difficulty before is tried where it is not zero. -/
def acceptsShare (round : ℚ → ℚ) (job : Job) (client : DogeConnect.Client)
    (headerBigInt : Nat) : Bool :=
  decide (headerBigInt ≤ job.target) || decide (client.difficulty = 0) ||
  decide (round (99 / 100) ≤ round (roundedDiff round headerBigInt / client.difficulty)) ||
  match client.previousDifficulty with
  | none => false
  | some previous => decide (previous ≠ 0) && decide (previous ≤ roundedDiff round headerBigInt)

section
variable {config : ServerConfig} {env : PoolEnv}

theorem announced_append (later earlier : List OutMessage) :
    announced (later ++ earlier) = announced later ++ announced earlier := by
  rw [announced, announced, announced, List.filterMap_append]

theorem mem_sinceClean {later earlier : List OutMessage} {job : Job} {cleanJobs : Bool}
    (h : ∀ other, .notify other true ∉ later) :
    job ∈ sinceClean (later ++ .notify job cleanJobs :: earlier) := by
  induction later with
  | nil =>
      cases cleanJobs with
      | true => exact List.mem_singleton_self job
      | false => exact List.mem_cons_self
  | cons message later ih =>
      have hrest := ih fun other hmem => h other (List.mem_cons_of_mem message hmem)
      cases message with
      | setDifficulty difficulty => exact hrest
      | subscription id extraNonce1 => exact hrest
      | response id result error => exact hrest
      | notify other clean =>
          cases clean with
          | true => exact absurd List.mem_cons_self (h other)
          | false => exact List.mem_cons_of_mem other hrest

/-- What meets the difficulty a job was sent with meets the last one or the one before. -/
theorem acceptsShare_of_told {round : ℚ → ℚ} (hround : Monotone round) {job : Job} {c : Client}
    (hc : c.Told) {extraNonce1 : ByteArr 4} {later earlier : List OutMessage} {message : OutMessage}
    (hmessage : announced (message :: earlier) = announced earlier)
    (hsent : c.sent = later ++ message :: earlier) (hfew : (announced later).length ≤ 1) {d : ℚ}
    (hd : (announced earlier).head? = some d) (hpos : 0 < d) {headerBigInt : Nat}
    (hmeets : d ≤ roundedDiff round headerBigInt) :
    acceptsShare round job (c.forShare extraNonce1) headerBigInt = true := by
  have htold : announced c.sent = announced later ++ announced earlier := by
    rw [hsent, announced_append, hmessage]
  obtain ⟨older, hearlier⟩ : ∃ older, announced earlier = d :: older := by
    cases hcase : announced earlier with
    | nil => rw [hcase] at hd; cases hd
    | cons first older =>
        rw [hcase] at hd
        cases hd
        exact ⟨older, rfl⟩
  have hdifficulty : (c.forShare extraNonce1).difficulty = (announced c.sent).headD 0 := hc.difficulty
  have hprevious : (c.forShare extraNonce1).previousDifficulty = beforeLast (announced c.sent) :=
    hc.previousDifficulty
  rw [htold, hearlier] at hdifficulty hprevious
  cases hlater : announced later with
  | nil =>
      -- the difficulty is still the job's
      rw [hlater] at hdifficulty
      have hratio : (99 / 100 : ℚ)
          ≤ roundedDiff round headerBigInt / (c.forShare extraNonce1).difficulty := by
        rw [hdifficulty]
        change (99 / 100 : ℚ) ≤ roundedDiff round headerBigInt / d
        rw [le_div_iff₀ hpos]
        linarith
      simp [acceptsShare, hround hratio]
  | cons last rest =>
      have hrest : rest = [] := by
        rw [hlater] at hfew
        exact List.eq_nil_of_length_eq_zero (by simpa using hfew)
      rw [hlater, hrest] at hprevious
      have hprevious : (c.forShare extraNonce1).previousDifficulty = some d := hprevious
      simp [acceptsShare, hprevious, hpos.ne', hmeets]

/-- What a share can still be refused for when its job is known and its hash good enough. -/
theorem rejected_code (env : PoolEnv) {manager : Manager} {client : DogeConnect.Client} {submission : Submission}
    {submitTime : Nat} {job : Job} (hjob : manager.validJobs job.jobId = some job)
    (haccepts : ∀ header, headerBuffer env.lib env.doubleSHA256 job.toTemplate submission = some header →
      env.accepts job client (env.scrypt header).val = true) {code : Nat} {text : Str}
    (h : (manager.handleShare env client job.jobId submission submitTime).2 = .rejected code text) :
    code = 20 ∨ code = 22 := by
  unfold Manager.handleShare at h
  rw [hjob] at h
  dsimp only at h
  rw [if_neg (fun hne => hne rfl)] at h
  split at h
  · cases h; exact .inl rfl
  split at h
  · cases h; exact .inl rfl
  split at h
  · cases h; exact .inl rfl
  split at h
  · cases h; exact .inl rfl
  split at h
  · cases h; exact .inl rfl
  split at h
  · cases h; exact .inr rfl
  · split at h
    · cases h
    · next header hheader =>
      rw [if_pos (haccepts header hheader)] at h
      cases h

end

/-- **Honest shares are not refused.**  In every run in which nothing throws while jobs are
handed out and no update takes the id of a valid job: a share for a job that was sent and not
voided since, which meets the difficulty the client had when the job was sent, is refused
neither for its job nor for its difficulty, as long as the difficulty has changed at most once
since. -/
theorem honest_share (config : ServerConfig) (env : PoolEnv) (hround : Monotone config.round)
    (es : List Timed) (s : Server)
    (hrun : Run.exec (step config { env with accepts := acceptsShare config.round })
      (Server.initial .initial) es = some s)
    (hundisturbed : Run.Along (step config { env with accepts := acceptsShare config.round })
      (Undisturbed config) (Server.initial .initial) es)
    (id : Nat) (c : Client) (hc : s.clients id = some c) (halive : c.destroyed = false)
    (extraNonce1 : ByteArr 4)
    (later earlier : List OutMessage) (job : Job) (cleanJobs : Bool)
    (hsent : c.sent = later ++ .notify job cleanJobs :: earlier)
    (hvoid : ∀ other, .notify other true ∉ later) (hfew : (announced later).length ≤ 1)
    (d : ℚ) (hd : (announced earlier).head? = some d) (hpos : 0 < d)
    (extraNonce2 nTime nonce : Str) (now : Nat)
    (hmeets : ∀ header, headerBuffer env.lib env.doubleSHA256 job.toTemplate
      (submissionOf (c.forShare extraNonce1) extraNonce2 nTime nonce) = some header →
      d ≤ roundedDiff config.round (env.scrypt header).val) (code : Nat) (text : Str)
    (h : (s.pool.handleEvent config.pool { env with accepts := acceptsShare config.round }
      (.submit (c.forShare extraNonce1) job.jobId extraNonce2 nTime nonce now)).2
        = some (.rejected code text)) :
    code = 20 ∨ code = 22 := by
  have hstart : AllValid (Server.initial .initial) :=
    ⟨fun _ _ h => (nomatch h), fun _ h => (nomatch h), fun _ _ h => (nomatch h)⟩
  have hvalid := ((Run.always_of_along allValid_step hstart hundisturbed).exec hrun).stillValid id c
    hc halive
  have htold : c.Told := by
    have hinv : ToldInv config { env with accepts := acceptsShare config.round }
        (Server.initial .initial) :=
      ⟨fun _ _ h => (nomatch h), fun _ h => absurd h List.not_mem_nil⟩
    exact ((Run.always_of_step toldInv_step hinv).exec hrun).told id c hc
  have hmem : job ∈ sinceClean c.sent := by
    rw [hsent]
    exact mem_sinceClean hvoid
  exact rejected_code { env with accepts := acceptsShare config.round } (hvalid job hmem)
    (fun header hheader =>
      acceptsShare_of_told hround htold rfl hsent hfew hd hpos (hmeets header hheader))
    (Option.some.inj h)

/-- The job of a message. -/
def OutMessage.job? : OutMessage → Option (Job × Bool)
  | .notify job cleanJobs => some (job, cleanJobs)
  | _ => none

theorem eq_notify {message : OutMessage} {job : Job} {cleanJobs : Bool}
    (h : message.job? = some (job, cleanJobs)) : message = .notify job cleanJobs := by
  cases message with
  | notify job' cleanJobs' =>
      cases h
      rfl
  | setDifficulty difficulty => cases h
  | subscription id extraNonce1 => cases h
  | response id result error => cases h

theorem honest_share_sample :
    ∃ s c code text, Run.exec (step sampleServer { smallHashEnv with accepts := acceptsShare id })
        (Server.initial .initial) subscribedRun = some s ∧
      s.clients 0 = some c ∧ (∃ job, lastJob c.sent = some job ∧
      (s.pool.handleEvent sampleServer.pool { smallHashEnv with accepts := acceptsShare id }
        (.submit (c.forShare (ByteArr.fill 4 7)) job.jobId [] [] [] 3)).2 = some (.rejected code text)) ∧
      (code = 20 ∨ code = 22) := by
  have hcheck : (Run.exec (step sampleServer { smallHashEnv with accepts := acceptsShare id })
      (Server.initial .initial) subscribedRun).map (fun s => (s.clients 0).map fun c =>
        (c.destroyed, decide ((announced c.sent.tail).head? = some (1 / 1024)),
          (c.sent.head?.bind OutMessage.job?).any fun sent => sent.2 && decide (
            (s.pool.handleEvent sampleServer.pool { smallHashEnv with accepts := acceptsShare id }
              (.submit (c.forShare (ByteArr.fill 4 7)) sent.1.jobId [] [] [] 3)).2
              = some (.rejected 20 "incorrect size of extranonce2".toList))))
      = some (some (false, true, true)) := by
    decide +kernel
  obtain ⟨s, hrun, hc⟩ := Option.map_eq_some_iff.mp hcheck
  obtain ⟨c, hc, hstate⟩ := Option.map_eq_some_iff.mp hc
  simp only [Prod.mk.injEq, Option.any_eq_true, Option.bind_eq_some_iff, Bool.and_eq_true,
    decide_eq_true_eq] at hstate
  obtain ⟨halive, hd, ⟨job, cleanJobs⟩, ⟨message, hhead, hmessage⟩, hclean, hrefused⟩ := hstate
  have hsent : c.sent = [] ++ .notify job true :: c.sent.tail := by
    rw [eq_notify hmessage, show cleanJobs = true from hclean] at hhead
    exact (List.cons_head?_tail hhead).symm
  have hmeets : (1 / 1024 : ℚ)
      ≤ roundedDiff id (ByteArr.copy 32 (leBytes 32 (2 ^ 200)) : ByteArr 32).val := by
    have hval : (ByteArr.copy 32 (leBytes 32 (2 ^ 200)) : ByteArr 32).val = 2 ^ 200 := by
      decide +kernel
    rw [hval, roundedDiff, scryptDiff, scryptMultiplier]
    norm_num
  have hcode := honest_share sampleServer smallHashEnv monotone_id subscribedRun s hrun
    (along_subscribedRun _) 0 c hc halive (ByteArr.fill 4 7) [] c.sent.tail job true hsent
    (fun _ => List.not_mem_nil) (Nat.zero_le 1) (1 / 1024) hd (by norm_num) [] [] [] 3
    (fun _ _ => hmeets) 20 _ hrefused
  refine ⟨s, c, 20, _, hrun, hc, ⟨job, ?_, hrefused⟩, hcode⟩
  rw [hsent]
  rfl

/-! ### Accounts -/

section
variable {config : ServerConfig} {env : PoolEnv}

/-- Clients wait for the answer to their request, and the daemon does not know an empty
address. -/
structure Orderly (s : Server) (e : Timed) : Prop where
  authorize : ∀ id c json name password, s.reading = some id → s.clients id = some c →
    e.event = .line (.authorize json name password) → c.requests = []
  submit : ∀ id c json name jobId extraNonce2 nTime nonce, s.reading = some id →
    s.clients id = some c → e.event = .line (.submit json name jobId extraNonce2 nTime nonce) →
    c.requests = []
  reply : ∀ id k c request, e.event = .authorizeReply id k true → s.clients id = some c →
    c.requests[k]? = some request → request.addrPrimary ≠ []

/-- `Orderly`, as a test. -/
def orderlyCheck (s : Server) (e : Timed) : Bool :=
  match e.event with
  | .line (.authorize ..) | .line (.submit ..) =>
      (s.reading.bind s.clients).all fun c => c.requests.isEmpty
  | .authorizeReply id k true =>
      (s.clients id).all fun c => (c.requests[k]?).all fun request => !request.addrPrimary.isEmpty
  | _ => true

theorem orderly_of_check (s : Server) (e : Timed) (h : orderlyCheck s e = true) : Orderly s e := by
  unfold orderlyCheck at h
  refine ⟨?_, ?_, ?_⟩
  · intro id c json name password hreading hc hevent
    rw [hevent, hreading] at h
    simpa [hc] using h
  · intro id c json name jobId extraNonce2 nTime nonce hreading hc hevent
    rw [hevent, hreading] at h
    simpa [hc] using h
  · intro id k c request hevent hc hrequest
    rw [hevent] at h
    simpa [hc, hrequest] using h

/-- The account of a client that waits. -/
structure Account (c : Client) : Prop where
  one : c.requests.length ≤ 1
  asked : ∀ request ∈ c.requests, c.addrPrimary = some request.addrPrimary ∧
    c.addrAuxiliary = request.addrAuxiliary
  named : c.authorized = true → c.requests = [] →
    (c.addrPrimary.getD [], c.addrAuxiliary) ∈ c.granted ∧ c.addrPrimary.getD [] ≠ []

theorem Account.same {c c' : Client} (hc : Account c) (h : SameAccount c c') : Account c' where
  one := by rw [h.requests]; exact hc.one
  asked := by rw [h.requests, h.addrPrimary, h.addrAuxiliary]; exact hc.asked
  named := by
    rw [h.authorized, h.requests, h.addrPrimary, h.addrAuxiliary, h.granted]
    exact hc.named

theorem SameRecord.account {c c' : Client} (h : SameRecord c c') : SameAccount c c' :=
  ⟨h.authorized, h.addrPrimary, h.addrAuxiliary, h.requests, h.granted⟩

theorem handleAuthorize_account (c : Client) (id : Json) (name password : Str) :
    (c.handleAuthorize id name password).addrPrimary = some (validateName name).1 ∧
    (c.handleAuthorize id name password).addrAuxiliary = (validateName name).2 ∧
    (c.handleAuthorize id name password).requests
      = c.requests ++ [⟨id, (validateName name).1, (validateName name).2, false⟩] := by
  unfold Client.handleAuthorize Client.enqueueDifficulty
  dsimp only
  repeat' split
  all_goals exact ⟨rfl, rfl, rfl⟩

theorem Account.handleAuthorize {c : Client} (hnone : c.requests = []) (id : Json)
    (name password : Str) : Account (c.handleAuthorize id name password) := by
  obtain ⟨hprimary, hauxiliary, hrequests⟩ := handleAuthorize_account c id name password
  rw [hnone, List.nil_append] at hrequests
  refine ⟨?_, ?_, ?_⟩
  · rw [hrequests]
    exact le_rfl
  · intro request hrequest
    rw [hrequests, List.mem_singleton] at hrequest
    rw [hrequest]
    exact ⟨hprimary, hauxiliary⟩
  · intro _ hempty
    rw [hrequests] at hempty
    cases hempty

theorem Account.authorizeWorker {c : Client} (hc : Account c) (k : Nat) (valid : Bool)
    (hhonest : valid = true → ∀ request, c.requests[k]? = some request → request.addrPrimary ≠ []) :
    Account (c.authorizeWorker config k valid) := by
  unfold Client.authorizeWorker
  cases hrequest : c.requests[k]? with
  | none => exact hc
  | some request =>
      obtain ⟨hk, hget⟩ := List.getElem?_eq_some_iff.mp hrequest
      have honly : c.requests = [request] := by
        have hlength : c.requests.length = 1 := Nat.le_antisymm hc.one (Nat.lt_of_le_of_lt (Nat.zero_le k) hk)
        obtain ⟨only, honly⟩ := List.length_eq_one_iff.mp hlength
        have hzero : k = 0 := by omega
        subst hzero
        simp only [honly, List.getElem_cons_zero] at hget
        rw [honly, hget]
      have hzero : k = 0 := by
        have := hc.one
        omega
      obtain ⟨hprimary, hauxiliary⟩ := hc.asked request (by rw [honly]; exact List.mem_singleton_self _)
      have hdone (authorized : Bool) (hvalid : authorized = true → valid = true) :
          Account (Client.authorizeResult { c with requests := c.requests.eraseIdx k } request
            authorized) := by
        have hempty : c.requests.eraseIdx k = [] := by
          rw [honly, hzero]
          rfl
        refine ⟨?_, ?_, ?_⟩
        · change (c.requests.eraseIdx k).length ≤ 1
          rw [hempty]
          exact Nat.zero_le 1
        · intro other hother
          change other ∈ c.requests.eraseIdx k at hother
          rw [hempty] at hother
          cases hother
        · intro hauthorized _
          have hyes : authorized = true := hauthorized
          subst hyes
          refine ⟨?_, ?_⟩
          · change (c.addrPrimary.getD [], c.addrAuxiliary)
              ∈ (request.addrPrimary, request.addrAuxiliary) :: c.granted
            rw [hprimary, hauxiliary]
            exact List.mem_cons_self
          · change c.addrPrimary.getD [] ≠ []
            rw [hprimary]
            exact hhonest (hvalid rfl) request hrequest
      dsimp only
      split
      · exact hdone false (fun h => nomatch h)
      · next hvalid =>
        have hyes : valid = true := by simpa using hvalid
        split
        · exact hdone true fun _ => hyes
        split
        · exact hdone true fun _ => hyes
        split
        · exact hdone false (fun h => nomatch h)
        split
        · exact hdone false (fun h => nomatch h)
        · -- the auxiliary daemon is asked for the same addresses
          have hset : c.requests.set k { request with primaryValid := true }
              = [{ request with primaryValid := true }] := by
            rw [honly, hzero]
            rfl
          refine ⟨?_, ?_, ?_⟩
          · change (c.requests.set k _).length ≤ 1
            rw [hset]
            exact le_rfl
          · intro other hother
            change other ∈ c.requests.set k _ at hother
            rw [hset, List.mem_singleton] at hother
            rw [hother]
            exact ⟨hprimary, hauxiliary⟩
          · intro _ hempty
            change c.requests.set k _ = [] at hempty
            rw [hset] at hempty
            cases hempty

theorem Account.nameWorker {c : Client} (hc : Account c) (hnone : c.requests = []) (name : Str)
    (now : Nat) : Account (c.nameWorker name now) := by
  have hrequests : (c.nameWorker name now).requests = [] := by
    unfold Client.nameWorker
    dsimp only
    split <;> exact hnone
  refine ⟨?_, ?_, ?_⟩
  · rw [hrequests]
    exact Nat.zero_le 1
  · rw [hrequests]
    exact fun _ h => nomatch h
  · intro hauthorized _
    unfold Client.nameWorker at hauthorized ⊢
    dsimp only at hauthorized ⊢
    split
    · next hempty =>
      rw [if_pos hempty] at hauthorized
      have hnamed := (hc.named hauthorized hnone).2
      exact absurd (by simpa using hempty) hnamed
    · next hname =>
      rw [if_neg hname] at hauthorized
      exact hc.named hauthorized hnone

structure AccountInv (s : Server) : Prop where
  account : ∀ id c, s.clients id = some c → Account c
  handed : ∀ h ∈ s.handed, (h.client.addrPrimary.getD [], h.client.addrAuxiliary) ∈ h.client.granted

theorem Fresh.account {c : Client} (h : Fresh c) : Account c := by
  obtain ⟨remoteAddress, localPort, activity, rfl | rfl⟩ := h
  all_goals exact ⟨Nat.zero_le 1, fun _ h => (nomatch h), fun h => (nomatch h)⟩

theorem requests_nameWorker (c : Client) (name : Str) (now : Nat) :
    (c.nameWorker name now).requests = c.requests := by
  unfold Client.nameWorker
  dsimp only
  split <;> rfl

theorem account_outside {s : Server} {e : Timed} (ho : Orderly s e) {currentJob : Option Job}
    {id : Nat} {c c' : Client} (hc : s.clients id = some c) (haccount : Account c)
    (h : Outside config currentJob id e.event c c') : Account c' := by
  generalize hevent : e.event = event at h
  cases h with
  | same => exact haccount
  | lost => exact haccount.same (SameRecord.destroy c).account
  | queue difficulty => exact haccount.same (SameRecord.enqueueDifficulty c difficulty).account
  | notify h cleanJobs now =>
      exact haccount.same (SameRecord.broadcastMiningJob c _ cleanJobs now).account
  | reply hreply =>
      refine haccount.authorizeWorker _ _ ?_
      rintro rfl request hrequest
      exact ho.reply id _ c request (hevent.trans hreply) hc hrequest

theorem accountInv_step (s : Server) (e : Timed) (s' : Server) (hs : AccountInv s)
    (ho : Orderly s e) (h : step config env s e = some s') : AccountInv s' := by
  obtain ⟨id, c, message, hreading, hevent, hc, heffect⟩ | ⟨hevent, -⟩ | ⟨-, rfl⟩ := step_cases h
  · obtain ⟨c', hclients, -, hrecord, -⟩ := heffect.client
    have haccount : Account c' := by
      rcases hrecord with hsame | ⟨json, name, password, rfl, rfl⟩ |
        ⟨json, name, jobId, extraNonce2, nTime, nonce, rfl, hsame⟩
      · exact (hs.account id c hc).same hsame.account
      · exact .handleAuthorize (ho.authorize id c json name password hreading hc hevent) json name
          password
      · have hnone := ho.submit id c json name jobId extraNonce2 nTime nonce hreading hc hevent
        exact ((hs.account id c hc).nameWorker hnone name e.now).same hsame
    refine ⟨?_, ?_⟩
    · intro other d hd
      rw [hclients] at hd
      by_cases hother : other = id
      · subst hother
        rw [Function.update_self] at hd
        cases hd
        exact haccount
      · rw [Function.update_of_ne hother] at hd
        exact hs.account other d hd
    · intro share hshare
      rcases heffect.handed with hsame | ⟨new, hnew, ⟨json, name, hmessage⟩, hfor⟩
      · rw [hsame] at hshare
        exact hs.handed share hshare
      · rw [hnew] at hshare
        rcases List.mem_cons.mp hshare with rfl | hshare
        · subst hmessage
          have hnone := ho.submit id c json name _ _ _ _ hreading hc hevent
          obtain ⟨name', hclient⟩ := hfor.client
          have hnamed := (hs.account id c hc).nameWorker hnone name' e.now
          rw [← hclient] at hnamed
          refine (hnamed.named hfor.authorized ?_).1
          rw [hclient, requests_nameWorker]
          exact hnone
        · exact hs.handed share hshare
  · refine ⟨?_, ?_⟩
    · intro id c hc
      cases hbefore : s.clients id with
      | none => exact (step_new h hbefore hc).account
      | some d =>
          obtain ⟨c', hc', houtside⟩ := handleEvent_client hevent (c := d) hbefore
          rw [hc] at hc'
          cases hc'
          exact account_outside ho hbefore (hs.account id d hbefore) houtside
    · rw [(handleEvent_frame hevent).1]
      exact hs.handed
  · exact ⟨hs.account, hs.handed⟩

end

/-- **Shares are credited to names the daemons know.**  In every run whose clients wait for the
answer to their request before they ask again or submit, every share that comes to the manager
is under a pair of addresses that its client was authorized for. -/
theorem credited_granted (config : ServerConfig) (env : PoolEnv) (es : List Timed) (s : Server)
    (hrun : Run.exec (step config env) (Server.initial .initial) es = some s)
    (horderly : Run.Along (step config env) Orderly (Server.initial .initial) es)
    (h : Handed) (hh : h ∈ s.handed) :
    (h.client.addrPrimary.getD [], h.client.addrAuxiliary) ∈ h.client.granted := by
  have hstart : AccountInv (Server.initial .initial) :=
    ⟨fun _ _ h => (nomatch h), fun _ h => absurd h List.not_mem_nil⟩
  exact ((Run.always_of_along accountInv_step hstart horderly).exec hrun).handed h hh

theorem credited_granted_sample :
    ∃ s h, Run.exec (step sampleServer sampleEnv) (Server.initial .initial) sampleRun = some s ∧
      h ∈ s.handed ∧ (h.client.addrPrimary.getD [], h.client.addrAuxiliary) ∈ h.client.granted := by
  have hlength : (Run.exec (step sampleServer sampleEnv) (Server.initial .initial) sampleRun).map
      (fun s => s.handed.length) = some 1 := by decide +kernel
  obtain ⟨s, hrun, hlength⟩ := Option.map_eq_some_iff.mp hlength
  obtain ⟨h, hhanded⟩ := List.length_eq_one_iff.mp hlength
  have hmem : h ∈ s.handed := by rw [hhanded]; exact List.mem_singleton_self h
  have horderly : Run.Along (step sampleServer sampleEnv) Orderly (Server.initial .initial) sampleRun :=
    Run.along_of_checks orderly_of_check (by decide +kernel)
  exact ⟨s, h, hrun, hmem, credited_granted sampleServer sampleEnv sampleRun s hrun horderly h hmem⟩

/-- Who does not wait can put another name on a share: a request for a second name, and a share
before the answer. -/
example : (Run.exec (step sampleServer sampleEnv) (Server.initial .initial)
      (sampleRun ++ [⟨5, .line (.authorize .null "other".toList [])⟩,
        ⟨5, .line (.submit .null "other".toList "none".toList [] [] [])⟩])).map
      (fun s => s.handed.map fun h => (h.client.addrPrimary.getD [], h.client.granted))
    = some [("other".toList, [("miner".toList, none)]),
        ("miner".toList, [("miner".toList, none)])] := by
  decide +kernel

end PoolServer

end DogeConnect
