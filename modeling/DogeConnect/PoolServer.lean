/-
The pools' stratum server: `network.js`, and what `pool.js` makes of its clients.

One process serves all clients, so one data event is handled to its end before anything
else happens; but data events, replies of the daemons, templates and timers come in any
order.

    lineEffect           what a line of a client does
    handleEvent_cases    what anything else does
    broadcastOf_cases    what is handed out is what the jobs have become
    step_client          what becomes of a client

When the difficulty of a client is to change is left to `Vardiff`; here it can at any
time, and to any number.  Which listeners of the manager return is not left open as in
`ManagerShare`: they are the loop over the clients.
-/
import DogeConnect.PoolClient

namespace DogeConnect

namespace PoolServer

/-! ## The server -/

/-- A call of `handleShare`: for whom and when, and what it was given and made of it. -/
structure Handed where
  sender : Nat
  time : Nat
  pool : PoolState
  client : Client
  extraNonce1 : ByteArr 4
  jobId : Str
  extraNonce2 : Str
  nTime : Str
  nonce : Str
  result : Option ShareResult

/-- The keys of an object, oldest first. -/
structure Keys where
  list : List Nat
  nodup : list.Nodup

namespace Keys

def empty : Keys := ⟨[], List.nodup_nil⟩

/-- An assignment to a key that is there keeps its place. -/
def insert (keys : Keys) (id : Nat) : Keys :=
  if h : id ∈ keys.list then keys
  else ⟨keys.list ++ [id], keys.nodup.append (List.nodup_singleton id) (by simpa using h)⟩

/-- `delete`. -/
def erase (keys : Keys) (id : Nat) : Keys := ⟨keys.list.erase id, keys.nodup.erase id⟩

theorem mem_insert {keys : Keys} {id other : Nat} :
    other ∈ (keys.insert id).list ↔ other ∈ keys.list ∨ other = id := by
  unfold insert
  split
  · next h => exact ⟨.inl, fun hor => hor.elim (fun h => h) fun heq => heq ▸ h⟩
  · simp

theorem mem_erase {keys : Keys} {id other : Nat} :
    other ∈ (keys.erase id).list ↔ other ≠ id ∧ other ∈ keys.list :=
  keys.nodup.mem_erase_iff

end Keys

/-- Clients keep their objects after they are gone; `keys` are those of `_this.clients`.
`reading` is the client whose data event is being handled; `handed` and `bans` are the
calls of `handleShare` and the bans so far, newest first. -/
structure Server where
  pool : PoolState
  clients : Nat → Option Client
  keys : Keys
  bannedIPs : Str → Option Nat
  reading : Option Nat
  handed : List Handed
  bans : List (Str × Nat)
  clock : Nat

def Server.initial (pool : PoolState) : Server where
  pool := pool
  clients := fun _ => none
  keys := .empty
  bannedIPs := fun _ => none
  reading := none
  handed := []
  bans := []
  clock := 0

inductive ServerEvent where
  | connection (id : Nat) (remoteAddress : Str) (localPort : Nat)
  /-- A data event, its lines, and its end. -/
  | data (id : Nat)
  | line (message : ClientMessage)
  | dataEnd
  /-- The socket is destroyed: the server is flooded, or the client goes. -/
  | lost (id : Nat)
  | close (id : Nat)
  /-- An answer to the `validateaddress` of a client's request. -/
  | authorizeReply (id k : Nat) (valid : Bool)
  /-- `client.difficulty.new`. -/
  | difficultyNew (id : Nat) (difficulty : ℚ)
  /-- A reply that the manager gets. -/
  | template (event : ManagerEvent)
  /-- `network.started`. -/
  | started
  /-- The interval that forgets old bans. -/
  | purge

namespace Server

def set (s : Server) (id : Nat) (c : Client) : Server :=
  { s with clients := Function.update s.clients id (some c) }

section
variable (config : ServerConfig) (env : PoolEnv)

/-- `considerBan` with the listener of `client.ban.trigger`. -/
def judge (s : Server) (id : Nat) (c : Client) (shareValid : Bool) (now : Nat) : Server × Bool :=
  let judged := c.considerBan config shareValid
  let s := s.set id judged.1
  if judged.2 then
    ({ s with
      bannedIPs := Function.update s.bannedIPs c.remoteAddress (some now)
      bans := (c.remoteAddress, now) :: s.bans }, true)
  else (s, false)

/-- What is written to a client, if it is known. -/
def say (s : Server) (id : Nat) (message : OutMessage) : Server :=
  match s.clients id with
  | none => s
  | some c => s.set id (c.send message)

/-- `handleSubmit` from `client.submit` on. -/
def submit (s : Server) (id : Nat) (c : Client) (extraNonce1 : ByteArr 4) (message : Json)
    (jobId extraNonce2 nTime nonce : Str) (now : Nat) : Server :=
  let handled := s.pool.handleEvent config.pool env
    (.submit (c.forShare extraNonce1) jobId extraNonce2 nTime nonce now)
  let s := { s with
    pool := handled.1
    handed := ⟨id, now, s.pool, c, extraNonce1, jobId, extraNonce2, nTime, nonce, handled.2⟩ :: s.handed }
  match handled.2 with
  | some (.accepted _) =>
      let judged := s.judge config id c true now
      if judged.2 then judged.1 else judged.1.say id (.response message (.boolean true) none)
  | some (.rejected code text) =>
      let judged := s.judge config id c false now
      if judged.2 then judged.1 else judged.1.say id (.response message .null (some (code, text)))
  -- the exception is caught in `validateData`
  | some .thrown | none => s.set id c.destroy

def handleSubmit (s : Server) (id : Nat) (c : Client) (message : Json)
    (name jobId extraNonce2 nTime nonce : Str) (now : Nat) : Server :=
  let c := c.nameWorker name now
  if !c.authorized then
    (s.judge config id (c.send (.response message .null
      (some (24, "unauthorized worker".toList)))) false now).1
  else match c.extraNonce1 with
    | none =>
        (s.judge config id (c.send (.response message .null
          (some (25, "not subscribed".toList)))) false now).1
    | some extraNonce1 =>
        s.submit config env id c extraNonce1 message jobId extraNonce2 nTime nonce now

/-- `validateMessages`. -/
def validateMessages (s : Server) (id : Nat) (c : Client) (now : Nat) : ClientMessage → Server
  | .subscribe message extraNonce1 =>
      s.set id (c.handleSubscribe config message extraNonce1 s.pool.manager.currentJob now)
  | .authorize message name password => s.set id (c.handleAuthorize message name password)
  | .configure message =>
      s.set id (c.send (.response message
        (.object [("version-rolling".toList, .boolean false)]) none))
  | .submit message name jobId extraNonce2 nTime nonce =>
      s.handleSubmit config env id c message name jobId extraNonce2 nTime nonce now
  | .unsupported message result =>
      s.set id (c.send (.response message result (some (20, "Not supported.".toList))))
  | .multiVersion | .unknown => s
  | .malformed => s.set id c.destroy

/-- The loop of `broadcastMiningJobs`, and whether it ends: an exception leaves it. -/
def broadcastTo (job : Job) (cleanJobs : Bool) (now : Nat) :
    List Nat → (Nat → Option Client) → (Nat → Option Client) × Bool
  | [], clients => (clients, true)
  | id :: ids, clients =>
      match clients id with
      | none => broadcastTo job cleanJobs now ids clients
      | some c =>
          if job.hasParameters then
            let broadcast := c.broadcastMiningJob config job cleanJobs now
            let clients := Function.update clients id (some broadcast.1)
            if broadcast.2 then broadcastTo job cleanJobs now ids clients else (clients, false)
          else (clients, false)

/-- `broadcastMiningJobs`, and whether it returns. -/
def broadcastMiningJobs (s : Server) (job : Job) (cleanJobs : Bool) (now : Nat) : Server × Bool :=
  let broadcast := broadcastTo config job cleanJobs now s.keys.list s.clients
  ({ s with clients := broadcast.1 }, broadcast.2)

/-- `handleClient` and `checkBan`. -/
def handleClient (s : Server) (id : Nat) (remoteAddress : Str) (localPort now : Nat) : Server :=
  let client : Client := { remoteAddress, localPort, activity := now }
  let s := { s with keys := s.keys.insert id }
  match s.bannedIPs remoteAddress with
  | none => s.set id client
  | some bannedTime =>
      -- what is left of the ban
      if (config.banLength : Int) - (now - bannedTime) > 0 then s.set id client.destroy
      else { s.set id client with bannedIPs := Function.update s.bannedIPs remoteAddress none }

/-- The job that is handed out when the manager has a reply, and whether the earlier ones
are void: `manager.block.new` or `manager.block.updated`. -/
def broadcastOf (pool : PoolState) : ManagerEvent → Option (Job × Bool)
  | .primaryTemplate newBlock newBroadcast reply now =>
      match pool.handlePrimaryTemplate config.pool newBlock newBroadcast now (fun _ => true) reply with
      | (pool, some (.success true)) => pool.manager.currentJob.map fun job => (job, true)
      | _ => none
  | .timeout reply now =>
      match reply, pool.handlePrimaryTemplate config.pool false true now (fun _ => true) reply with
      | _, (pool, some (.success true)) => pool.manager.currentJob.map fun job => (job, true)
      | .success response, (pool, some (.success false)) =>
          (pool.manager.nextJob config.pool (pool.withAuxData config.pool response) now).map
            fun job => (job, false)
      | _, _ => none
  | .auxTemplate _ | .submit .. => none

/-- The listeners of the manager return if the loop over the clients ends. -/
def handleReply (s : Server) (event : ManagerEvent) (now : Nat) : Server :=
  match broadcastOf config s.pool event with
  | none => { s with pool := (s.pool.handleEvent config.pool env event).1 }
  | some (job, cleanJobs) =>
      let broadcast := s.broadcastMiningJobs config job cleanJobs now
      { broadcast.1 with
        pool := (s.pool.handleEvent config.pool { env with emits := fun _ => broadcast.2 } event).1 }

/-- The interval of `setupNetwork`. -/
def purge (s : Server) (now : Nat) : Server :=
  { s with bannedIPs := fun ip => (s.bannedIPs ip).filter fun banTime =>
      decide ((now : Int) - banTime ≤ config.banLength) }

/-- One event outside of data events. -/
def handleEvent (s : Server) (now : Nat) : ServerEvent → Option Server
  | .connection id remoteAddress localPort =>
      if (s.clients id).isSome then none
      else some (s.handleClient config id remoteAddress localPort now)
  | .data id =>
      (s.clients id).bind fun c => if c.destroyed then none else some { s with reading := some id }
  | .lost id => (s.clients id).map fun c => s.set id c.destroy
  | .close id =>
      (s.clients id).map fun c => { s.set id c.destroy with keys := s.keys.erase id }
  | .authorizeReply id k valid =>
      (s.clients id).map fun c => s.set id (c.authorizeWorker config k valid)
  | .difficultyNew id difficulty =>
      (s.clients id).map fun c => s.set id (c.enqueueDifficulty difficulty)
  | .template (.submit ..) => none
  | .template event => some (s.handleReply config env event now)
  | .started =>
      s.pool.manager.currentJob.map fun job => (s.broadcastMiningJobs config job true now).1
  | .purge => some (s.purge config now)
  | .line _ | .dataEnd => none

end

end Server

/-- An event and the time it happens at.  During a data event there is nothing but its
lines and what the difficulty makes of them. -/
structure Timed where
  now : Nat
  event : ServerEvent

def step (config : ServerConfig) (env : PoolEnv) (s : Server) (e : Timed) : Option Server :=
  let s' := { s with clock := e.now }
  match s.reading, e.event with
  | none, event => s'.handleEvent config env e.now event
  | some id, .line message =>
      (s'.clients id).map fun c => s'.validateMessages config env id c e.now message
  | some _, .difficultyNew id difficulty => s'.handleEvent config env e.now (.difficultyNew id difficulty)
  | some _, .dataEnd => some { s' with reading := none }
  | some _, _ => none

/-! ## What a step can do -/

/-- What happens to a client outside of its own lines, when `currentJob` is the job
afterwards. -/
inductive Outside (config : ServerConfig) (currentJob : Option Job) (id : Nat)
    (event : ServerEvent) (c : Client) : Client → Prop where
  | same : Outside config currentJob id event c c
  | lost : Outside config currentJob id event c c.destroy
  | reply {k : Nat} {valid : Bool} (h : event = .authorizeReply id k valid) :
      Outside config currentJob id event c (c.authorizeWorker config k valid)
  | queue (difficulty : ℚ) : Outside config currentJob id event c (c.enqueueDifficulty difficulty)
  | notify {job : Job} (h : currentJob = some job) (cleanJobs : Bool) (now : Nat) :
      Outside config currentJob id event c (c.broadcastMiningJob config job cleanJobs now).1

/-- The fields of an account. -/
structure SameAccount (c c' : Client) : Prop where
  authorized : c'.authorized = c.authorized
  addrPrimary : c'.addrPrimary = c.addrPrimary
  addrAuxiliary : c'.addrAuxiliary = c.addrAuxiliary
  requests : c'.requests = c.requests
  granted : c'.granted = c.granted

/-- How a share is handed to the manager. -/
structure HandedFor (config : ServerConfig) (env : PoolEnv) (s : Server) (id : Nat) (c : Client)
    (now : Nat) (h : Handed) : Prop where
  sender : h.sender = id
  time : h.time = now
  pool : h.pool = s.pool
  client : ∃ name, h.client = c.nameWorker name now
  authorized : h.client.authorized = true
  extraNonce1 : h.client.extraNonce1 = some h.extraNonce1
  result : h.result = (s.pool.handleEvent config.pool env (.submit (h.client.forShare h.extraNonce1)
    h.jobId h.extraNonce2 h.nTime h.nonce now)).2

/-- What a line of a client does to the server.  `submits` says how far the line came
in `handleSubmit`. -/
structure LineEffect (config : ServerConfig) (env : PoolEnv) (s s' : Server) (id : Nat) (c : Client)
    (now : Nat) (message : ClientMessage) : Prop where
  client : ∃ c', s'.clients = Function.update s.clients id (some c') ∧
    Moves config s.pool.manager.currentJob c c' ∧
    (SameRecord c c' ∨
      (∃ json name password, message = .authorize json name password ∧
        c' = c.handleAuthorize json name password) ∨
      ∃ json name jobId extraNonce2 nTime nonce,
        message = .submit json name jobId extraNonce2 nTime nonce ∧
        SameAccount (c.nameWorker name now) c') ∧
    (c'.banned = true → c.banned = true ∨ (c.remoteAddress, now) ∈ s'.bans)
  currentJob : s'.pool.manager.currentJob = s.pool.manager.currentJob
  validJobs : s'.pool.manager.validJobs = s.pool.manager.validJobs
  keys : s'.keys = s.keys
  reading : s'.reading = s.reading
  clock : s'.clock = s.clock
  bans : (s'.bans = s.bans ∧ s'.bannedIPs = s.bannedIPs) ∨
    (s'.bans = (c.remoteAddress, now) :: s.bans ∧
      s'.bannedIPs = Function.update s.bannedIPs c.remoteAddress (some now))
  handed : s'.handed = s.handed ∨ ∃ h, s'.handed = h :: s.handed ∧
    (∃ json name, message = .submit json name h.jobId h.extraNonce2 h.nTime h.nonce) ∧
    HandedFor config env s id c now h

section
variable {config : ServerConfig} {env : PoolEnv} {s : Server} {id now : Nat} {c : Client}
  {message : ClientMessage}

theorem lineEffect_set {c' : Client} (hmoves : Moves config s.pool.manager.currentJob c c')
    (hrecord : SameRecord c c' ∨ ∃ json name password, message = .authorize json name password ∧
      c' = c.handleAuthorize json name password) :
    LineEffect config env s (s.set id c') id c now message where
  client := by
    refine ⟨c', rfl, hmoves, hrecord.imp_right .inl, fun h => .inl ?_⟩
    obtain hsame | ⟨json, name, password, -, rfl⟩ := hrecord
    · rwa [hsame.banned] at h
    · rwa [(Quiet.handleAuthorize c json name password).banned] at h
  currentJob := rfl
  validJobs := rfl
  keys := rfl
  reading := rfl
  clock := rfl
  bans := .inl ⟨rfl, rfl⟩
  handed := .inl rfl

theorem lineEffect_same (hc : s.clients id = some c) :
    LineEffect config env s s id c now message where
  client := ⟨c, by rw [← hc, Function.update_eq_self], .refl, .inl (.refl c), .inl⟩
  currentJob := rfl
  validJobs := rfl
  keys := rfl
  reading := rfl
  clock := rfl
  bans := .inl ⟨rfl, rfl⟩
  handed := .inl rfl

/-- What `judge` leaves as it was. -/
theorem judge_frame (config : ServerConfig) (s : Server) (id : Nat) (c : Client) (shareValid : Bool) (now : Nat) :
    (s.judge config id c shareValid now).1.pool = s.pool ∧
    (s.judge config id c shareValid now).1.keys = s.keys ∧
    (s.judge config id c shareValid now).1.reading = s.reading ∧
    (s.judge config id c shareValid now).1.clock = s.clock ∧
    (s.judge config id c shareValid now).1.handed = s.handed := by
  unfold Server.judge
  dsimp only
  split <;> exact ⟨rfl, rfl, rfl, rfl, rfl⟩

theorem judge_clients (config : ServerConfig) (s : Server) (id : Nat) (c : Client) (shareValid : Bool) (now : Nat) :
    (s.judge config id c shareValid now).1.clients
      = Function.update s.clients id (some (c.considerBan config shareValid).1) := by
  unfold Server.judge
  dsimp only
  split <;> rfl

theorem judge_bans (config : ServerConfig) (s : Server) (id : Nat) (c : Client) (shareValid : Bool) (now : Nat) :
    ((s.judge config id c shareValid now).1.bans = s.bans ∧
      (s.judge config id c shareValid now).1.bannedIPs = s.bannedIPs) ∨
    ((s.judge config id c shareValid now).1.bans = (c.remoteAddress, now) :: s.bans ∧
      (s.judge config id c shareValid now).1.bannedIPs
        = Function.update s.bannedIPs c.remoteAddress (some now)) := by
  unfold Server.judge
  dsimp only
  split
  · exact .inr ⟨rfl, rfl⟩
  · exact .inl ⟨rfl, rfl⟩

theorem judge_banned (config : ServerConfig) (s : Server) (id : Nat) (c : Client) (shareValid : Bool) (now : Nat)
    (h : (c.considerBan config shareValid).1.banned = true) :
    c.banned = true ∨ (c.remoteAddress, now) ∈ (s.judge config id c shareValid now).1.bans := by
  rw [(judged_considerBan config c shareValid).banned, Bool.or_eq_true] at h
  refine h.imp_right fun hban => ?_
  unfold Server.judge
  dsimp only
  rw [if_pos hban]
  exact List.mem_cons_self

/-- `say` to the client that was judged. -/
theorem say_frame (s : Server) (id : Nat) (message : OutMessage) :
    (s.say id message).pool = s.pool ∧ (s.say id message).keys = s.keys ∧
    (s.say id message).reading = s.reading ∧
    (s.say id message).clock = s.clock ∧ (s.say id message).handed = s.handed ∧
    (s.say id message).bans = s.bans ∧ (s.say id message).bannedIPs = s.bannedIPs := by
  unfold Server.say
  cases s.clients id <;> exact ⟨rfl, rfl, rfl, rfl, rfl, rfl, rfl⟩

theorem say_clients {c : Client} (hc : s.clients id = some c) (message : OutMessage) :
    (s.say id message).clients = Function.update s.clients id (some (c.send message)) := by
  rw [Server.say, hc]
  rfl

/-- A verdict on a share, and the reply to who is not banned for it. -/
theorem judge_reply (s : Server) (id : Nat) (c : Client) (shareValid : Bool) (now : Nat)
    (json result : Json) (error : Option (Nat × Str)) {s' : Server}
    (h : s' = if (s.judge config id c shareValid now).2 then (s.judge config id c shareValid now).1
      else (s.judge config id c shareValid now).1.say id (.response json result error)) :
    ∃ c', s'.clients = Function.update s.clients id (some c') ∧
      (c' = (c.considerBan config shareValid).1 ∨
        c' = (c.considerBan config shareValid).1.send (.response json result error)) ∧
      s'.pool = s.pool ∧ s'.keys = s.keys ∧ s'.reading = s.reading ∧ s'.clock = s.clock ∧
      s'.handed = s.handed ∧
      ((s'.bans = s.bans ∧ s'.bannedIPs = s.bannedIPs) ∨
        (s'.bans = (c.remoteAddress, now) :: s.bans ∧
          s'.bannedIPs = Function.update s.bannedIPs c.remoteAddress (some now))) ∧
      (c'.banned = true → c.banned = true ∨ (c.remoteAddress, now) ∈ s'.bans) := by
  obtain ⟨hpool, hkeys, hreading, hclock, hhanded⟩ := judge_frame config s id c shareValid now
  have hclients := judge_clients config s id c shareValid now
  have hbans := judge_bans config s id c shareValid now
  have hbanned := judge_banned config s id c shareValid now
  split at h
  · subst h
    exact ⟨_, hclients, .inl rfl, hpool, hkeys, hreading, hclock, hhanded, hbans, hbanned⟩
  · subst h
    obtain ⟨hpool', hkeys', hreading', hclock', hhanded', hbans', hips'⟩ := say_frame
      (s.judge config id c shareValid now).1 id (.response json result error)
    have hknown : (s.judge config id c shareValid now).1.clients id
        = some (c.considerBan config shareValid).1 := by
      rw [hclients, Function.update_self]
    have hsaid := say_clients hknown (.response json result error)
    rw [hclients, Function.update_idem] at hsaid
    rw [hbans', hips']
    exact ⟨_, hsaid, .inr rfl, hpool'.trans hpool, hkeys'.trans hkeys, hreading'.trans hreading,
      hclock'.trans hclock, hhanded'.trans hhanded, hbans, hbanned⟩

theorem sameAccount_judge (config : ServerConfig) (c : Client) (shareValid : Bool) :
    SameAccount c (c.considerBan config shareValid).1 := by
  have h := judged_considerBan config c shareValid
  exact ⟨h.authorized, h.addrPrimary, h.addrAuxiliary, h.requests, h.granted⟩

theorem moves_nameWorker (currentJob : Option Job) (c : Client) (name : Str) (now : Nat) :
    Moves config currentJob c (c.nameWorker name now) :=
  .quiet (.nameWorker c name now)

theorem remoteAddress_nameWorker (c : Client) (name : Str) (now : Nat) :
    (c.nameWorker name now).remoteAddress = c.remoteAddress :=
  (Quiet.nameWorker c name now).remoteAddress

theorem lineEffect_judge (s₀ : Server) {s' : Server} {json result : Json} {error : Option (Nat × Str)}
    {name jobId extraNonce2 nTime nonce : Str} {shareValid : Bool}
    (hmessage : message = .submit json name jobId extraNonce2 nTime nonce)
    (hclients : s₀.clients = s.clients) (hkeys : s₀.keys = s.keys)
    (hreading : s₀.reading = s.reading)
    (hclock : s₀.clock = s.clock) (hbans : s₀.bans = s.bans) (hips : s₀.bannedIPs = s.bannedIPs)
    (hjob : s₀.pool.manager.currentJob = s.pool.manager.currentJob)
    (hvalid : s₀.pool.manager.validJobs = s.pool.manager.validJobs)
    (hhanded : s₀.handed = s.handed ∨ ∃ h, s₀.handed = h :: s.handed ∧
      (∃ json name, message = .submit json name h.jobId h.extraNonce2 h.nTime h.nonce) ∧
      HandedFor config env s id c now h)
    (h : s' = if (s₀.judge config id (c.nameWorker name now) shareValid now).2
      then (s₀.judge config id (c.nameWorker name now) shareValid now).1
      else (s₀.judge config id (c.nameWorker name now) shareValid now).1.say id
        (.response json result error)) :
    LineEffect config env s s' id c now message := by
  obtain ⟨c', hclients', hc', hpool', hkeys', hreading', hclock', hhanded', hbans', hbanned⟩ :=
    judge_reply s₀ id (c.nameWorker name now) shareValid now json result error h
  have hjudge : Moves config s.pool.manager.currentJob c
      ((c.nameWorker name now).considerBan config shareValid).1 :=
    (moves_nameWorker _ c name now).tail (.judge _ shareValid)
  have haccount := sameAccount_judge config (c.nameWorker name now) shareValid
  refine {
    client := ⟨c', by rw [hclients', hclients], ?_, .inr (.inr ⟨json, name, jobId, extraNonce2, nTime,
      nonce, hmessage, ?_⟩), ?_⟩
    currentJob := by rw [hpool', hjob]
    validJobs := by rw [hpool', hvalid]
    keys := hkeys'.trans hkeys
    reading := hreading'.trans hreading
    clock := hclock'.trans hclock
    bans := ?_
    handed := by rw [hhanded']; exact hhanded }
  · rcases hc' with rfl | rfl
    · exact hjudge
    · exact hjudge.tail (.respond _ json result error)
  · rcases hc' with rfl | rfl
    · exact haccount
    · exact ⟨haccount.authorized, haccount.addrPrimary, haccount.addrAuxiliary, haccount.requests,
        haccount.granted⟩
  · rw [remoteAddress_nameWorker, (Quiet.nameWorker c name now).banned] at hbanned
    exact hbanned
  · rw [remoteAddress_nameWorker, hbans, hips] at hbans'
    exact hbans'

theorem handleEvent_submit_jobs (config : ServerConfig) (env : PoolEnv) (pool : PoolState) (client : DogeConnect.Client)
    (jobId extraNonce2 nTime nonce : Str) (now : Nat) :
    (pool.handleEvent config.pool env
      (.submit client jobId extraNonce2 nTime nonce now)).1.manager.currentJob
        = pool.manager.currentJob ∧
    (pool.handleEvent config.pool env
      (.submit client jobId extraNonce2 nTime nonce now)).1.manager.validJobs
        = pool.manager.validJobs := by
  obtain ⟨submissions, heq, -⟩ := handleShare_manager env pool.manager client jobId
    (submissionOf client extraNonce2 nTime nonce) now
  rw [PoolState.handleEvent]
  dsimp only
  rw [heq]
  exact ⟨rfl, rfl⟩

theorem lineEffect_submit {json : Json} {name jobId extraNonce2 nTime nonce : Str}
    {extraNonce1 : ByteArr 4}
    (hmessage : message = .submit json name jobId extraNonce2 nTime nonce)
    (hauthorized : (c.nameWorker name now).authorized = true)
    (hextra : (c.nameWorker name now).extraNonce1 = some extraNonce1) :
    LineEffect config env s (s.submit config env id (c.nameWorker name now) extraNonce1 json jobId
      extraNonce2 nTime nonce now) id c now message := by
  obtain ⟨hjob, hvalid⟩ := handleEvent_submit_jobs config env s.pool
    ((c.nameWorker name now).forShare extraNonce1) jobId extraNonce2 nTime nonce now
  have hhanded : HandedFor config env s id c now ⟨id, now, s.pool, c.nameWorker name now,
      extraNonce1, jobId, extraNonce2, nTime, nonce, (s.pool.handleEvent config.pool env
        (.submit ((c.nameWorker name now).forShare extraNonce1) jobId extraNonce2 nTime nonce now)).2⟩ :=
    ⟨rfl, rfl, rfl, ⟨name, rfl⟩, hauthorized, hextra, rfl⟩
  unfold Server.submit
  dsimp only
  generalize (s.pool.handleEvent config.pool env
    (.submit ((c.nameWorker name now).forShare extraNonce1) jobId extraNonce2 nTime nonce now)).2
      = result at hhanded ⊢
  generalize (s.pool.handleEvent config.pool env
    (.submit ((c.nameWorker name now).forShare extraNonce1) jobId extraNonce2 nTime nonce now)).1
      = pool at hjob hvalid ⊢
  have hdestroyed : ∀ pool : PoolState,
      pool.manager.currentJob = s.pool.manager.currentJob →
      pool.manager.validJobs = s.pool.manager.validJobs →
      ∀ h, HandedFor config env s id c now h →
      (∃ json name, message = .submit json name h.jobId h.extraNonce2 h.nTime h.nonce) →
      LineEffect config env s ({ s with pool := pool, handed := h :: s.handed }.set id
        (c.nameWorker name now).destroy) id c now message := by
    intro pool hjob hvalid h hhanded hshare
    exact {
      client := ⟨_, rfl, (moves_nameWorker _ c name now).tail (.quiet (.destroy _)),
        .inr (.inr ⟨json, name, jobId, extraNonce2, nTime, nonce, hmessage, rfl, rfl, rfl, rfl, rfl⟩),
        fun h => .inl (by rwa [← (Quiet.nameWorker c name now).banned])⟩
      currentJob := hjob
      validJobs := hvalid
      keys := rfl
      reading := rfl
      clock := rfl
      bans := .inl ⟨rfl, rfl⟩
      handed := .inr ⟨h, rfl, hshare, hhanded⟩ }
  have hshare : ∃ json name, message = .submit json name jobId extraNonce2 nTime nonce :=
    ⟨json, name, hmessage⟩
  cases result with
  | none => exact hdestroyed _ hjob hvalid _ hhanded hshare
  | some result =>
      cases result with
      | thrown => exact hdestroyed _ hjob hvalid _ hhanded hshare
      | accepted shareData =>
          exact lineEffect_judge { s with pool := pool, handed := _ :: s.handed } hmessage rfl rfl rfl rfl
            rfl rfl hjob hvalid (.inr ⟨_, rfl, hshare, hhanded⟩) rfl
      | rejected code text =>
          exact lineEffect_judge { s with pool := pool, handed := _ :: s.handed } hmessage rfl rfl rfl rfl
            rfl rfl hjob hvalid (.inr ⟨_, rfl, hshare, hhanded⟩) rfl

theorem lineEffect_refused {json : Json} {name jobId extraNonce2 nTime nonce : Str}
    (hmessage : message = .submit json name jobId extraNonce2 nTime nonce)
    (error : Option (Nat × Str)) :
    LineEffect config env s (s.judge config id
      ((c.nameWorker name now).send (.response json .null error)) false now).1 id c now message := by
  obtain ⟨hpool, hkeys, hreading, hclock, hhanded⟩ := judge_frame config s id
    ((c.nameWorker name now).send (.response json .null error)) false now
  have haccount := sameAccount_judge config
    ((c.nameWorker name now).send (.response json .null error)) false
  refine {
    client := ⟨_, judge_clients config s id _ false now, ?_, .inr (.inr ⟨json, name, jobId, extraNonce2,
      nTime, nonce, hmessage, ?_⟩), ?_⟩
    currentJob := by rw [hpool]
    validJobs := by rw [hpool]
    keys := hkeys
    reading := hreading
    clock := hclock
    bans := ?_
    handed := .inl hhanded }
  · exact ((moves_nameWorker _ c name now).tail (.respond _ json .null error)).tail (.judge _ false)
  · exact ⟨haccount.authorized, haccount.addrPrimary, haccount.addrAuxiliary, haccount.requests,
      haccount.granted⟩
  · intro h
    have hbanned := judge_banned config s id ((c.nameWorker name now).send (.response json .null error))
      false now h
    rw [← remoteAddress_nameWorker c name now, ← (Quiet.nameWorker c name now).banned]
    exact hbanned
  · have hbans := judge_bans config s id
      ((c.nameWorker name now).send (.response json .null error)) false now
    have haddress : ((c.nameWorker name now).send (.response json .null error)).remoteAddress
        = c.remoteAddress := remoteAddress_nameWorker c name now
    rw [haddress] at hbans
    exact hbans

theorem lineEffect (config : ServerConfig) (env : PoolEnv) {s : Server} {id : Nat} {c : Client}
    (hc : s.clients id = some c) (now : Nat) (message : ClientMessage) :
    LineEffect config env s (s.validateMessages config env id c now message) id c now message := by
  cases message with
  | subscribe json extraNonce1 =>
      exact lineEffect_set (.single (.subscribe c json extraNonce1 now))
        (.inl (.handleSubscribe c json extraNonce1 _ now))
  | authorize json name password =>
      exact lineEffect_set (.quiet (.handleAuthorize c json name password))
        (.inr ⟨json, name, password, rfl, rfl⟩)
  | configure json => exact lineEffect_set (.single (.respond c json _ none)) (.inl (.send c _))
  | multiVersion => exact lineEffect_same hc
  | unsupported json result =>
      exact lineEffect_set (.single (.respond c json result _)) (.inl (.send c _))
  | unknown => exact lineEffect_same hc
  | malformed => exact lineEffect_set (.quiet (.destroy c)) (.inl (.destroy c))
  | submit json name jobId extraNonce2 nTime nonce =>
      unfold Server.validateMessages Server.handleSubmit
      dsimp only
      cases hauthorized : (c.nameWorker name now).authorized with
      | false => exact lineEffect_refused rfl _
      | true =>
          cases hextra : (c.nameWorker name now).extraNonce1 with
          | none => exact lineEffect_refused rfl _
          | some extraNonce1 => exact lineEffect_submit rfl hauthorized hextra

end

/-! ### Outside of data events -/

section
variable {config : ServerConfig}

/-- What a reply of the daemons does to the jobs when a job is handed out: it is the current
one in any case, and a valid one if everybody was told. -/
structure Replaced (pool pool' : PoolState) (job : Job) (cleanJobs told : Bool) : Prop where
  current : pool'.manager.currentJob = some job
  valid : told = true → pool'.manager.validJobs job.jobId = some job
  kept : told = true → cleanJobs = false →
    pool'.manager.validJobs = Function.update pool.manager.validJobs job.jobId (some job)

/-- What it does when none is: nothing, or the constructor threw. -/
structure Kept (config : ServerConfig) (pool pool' : PoolState) (event : ManagerEvent) : Prop where
  current : pool'.manager.currentJob = pool.manager.currentJob
  valid : pool'.manager.validJobs = pool.manager.validJobs ∨ ∃ response newBroadcast now,
    (event = .timeout (.success response) now ∨
      ∃ newBlock, event = .primaryTemplate newBlock newBroadcast (.success response) now) ∧
    (pool.withAuxData config.pool response).Constructs config.pool now = false

theorem replaced_handleUpdates (pool : PoolState) (manager : Manager) {block : BlockTemplate}
    {now : Nat} {job : Job} (hnew : manager.nextJob config.pool block now = some job)
    (cleanJobs told : Bool) (h : cleanJobs = false → manager.validJobs = pool.manager.validJobs) :
    Replaced pool { pool with
      manager := (manager.handleUpdates config.pool block now fun _ => told).1 } job cleanJobs
      told := by
  unfold Manager.handleUpdates
  rw [hnew]
  cases told with
  | false => exact ⟨rfl, nofun, nofun⟩
  | true =>
      refine ⟨rfl, fun _ => Function.update_self .., fun _ hclean => ?_⟩
      rw [← h hclean]
      rfl

theorem broadcastOf_cases (config : ServerConfig) (env : PoolEnv) (pool : PoolState)
    (event : ManagerEvent) :
    (Server.broadcastOf config pool event = none ∧
      Kept config pool (pool.handleEvent config.pool env event).1 event) ∨
    ∃ job cleanJobs, Server.broadcastOf config pool event = some (job, cleanJobs) ∧
      ∀ told, Replaced pool (pool.handleEvent config.pool { env with emits := fun _ => told } event).1
        job cleanJobs told := by
  cases event with
  | auxTemplate reply =>
      cases reply with
      | error => exact .inl ⟨rfl, rfl, .inl rfl⟩
      | success response => exact .inl ⟨rfl, rfl, .inl rfl⟩
  | submit client jobId extraNonce2 nTime nonce now =>
      obtain ⟨hjob, hvalid⟩ := handleEvent_submit_jobs config env pool client
        jobId extraNonce2 nTime nonce now
      exact .inl ⟨rfl, hjob, .inl hvalid⟩
  | primaryTemplate newBlock newBroadcast reply now =>
      cases reply with
      | error => exact .inl ⟨rfl, rfl, .inl rfl⟩
      | success response =>
          simp only [Server.broadcastOf, PoolState.handleEvent]
          cases pool.taken config.pool newBlock newBroadcast now response with
          | no _ _ handled =>
              simp only [handled]
              exact .inl ⟨trivial, rfl, .inl rfl⟩
          | throws _ constructs handled =>
              simp only [handled]
              exact .inl ⟨trivial, rfl, .inr ⟨response, newBroadcast, now, .inr ⟨newBlock, rfl⟩,
                constructs⟩⟩
          | yes _ job new handled =>
              have hreplaced := fun told => @replaced_handleUpdates config pool
                { pool.manager with validJobs := pool.manager.keptJobs newBroadcast } _ _ _ new true told
                fun h => absurd h.symm Bool.false_ne_true
              simp only [handled, if_true]
              refine .inr ⟨job, true, ?_, hreplaced⟩
              rw [(hreplaced true).current]
              rfl
  | timeout reply now =>
      cases reply with
      | error => exact .inl ⟨rfl, rfl, .inl rfl⟩
      | success response =>
          simp only [Server.broadcastOf, PoolState.handleEvent, PoolState.handleTimeout]
          cases pool.taken config.pool false true now response with
          | no _ _ handled =>
              -- the same block again: an update
              simp only [handled]
              cases hnew : pool.manager.nextJob config.pool (pool.withAuxData config.pool response) now with
              | none =>
                  refine .inl ⟨rfl, ?_, .inl ?_⟩
                  · simp only [Manager.handleUpdates, hnew]
                  · simp only [Manager.handleUpdates, hnew]
              | some job =>
                  exact .inr ⟨job, false, rfl, fun told =>
                    replaced_handleUpdates pool pool.manager hnew false told fun _ => rfl⟩
          | throws _ constructs handled =>
              simp only [handled]
              exact .inl ⟨trivial, rfl, .inr ⟨response, true, now, .inl rfl, constructs⟩⟩
          | yes _ job new handled =>
              have hreplaced := fun told => @replaced_handleUpdates config pool
                { pool.manager with validJobs := pool.manager.keptJobs true } _ _ _ new true told
                fun h => absurd h.symm Bool.false_ne_true
              simp only [handled, if_true]
              refine .inr ⟨job, true, ?_, fun told => ?_⟩
              · rw [(hreplaced true).current]
                rfl
              · cases told with
                | true => exact hreplaced true
                | false => exact hreplaced false

/-! ### The loop over the clients -/

theorem broadcastTo_other (config : ServerConfig) (job : Job) (cleanJobs : Bool) (now : Nat) {id : Nat}
    {value : Option Client} : ∀ (ids : List Nat) (clients : Nat → Option Client), id ∉ ids →
    clients id = value → (Server.broadcastTo config job cleanJobs now ids clients).1 id = value
  | [], _, _, h => h
  | other :: ids, clients, hid, h => by
      obtain ⟨hne, hid⟩ := List.ne_and_not_mem_of_not_mem_cons hid
      rw [Server.broadcastTo]
      cases clients other with
      | none => exact broadcastTo_other config job cleanJobs now ids clients hid h
      | some d =>
          have hkept : Function.update clients other
              (some (d.broadcastMiningJob config job cleanJobs now).1) id = value := by
            rw [Function.update_of_ne hne, h]
          dsimp only
          split
          · split
            · exact broadcastTo_other config job cleanJobs now ids _ hid hkept
            · exact hkept
          · exact h

theorem broadcastTo_none (config : ServerConfig) (job : Job) (cleanJobs : Bool) (now : Nat) {id : Nat} :
    ∀ (ids : List Nat) (clients : Nat → Option Client), clients id = none →
    (Server.broadcastTo config job cleanJobs now ids clients).1 id = none
  | [], _, h => h
  | other :: ids, clients, h => by
      rw [Server.broadcastTo]
      cases hd : clients other with
      | none => exact broadcastTo_none config job cleanJobs now ids clients h
      | some d =>
          have hne : id ≠ other := by
            rintro rfl
            rw [h] at hd
            cases hd
          have hkept : Function.update clients other
              (some (d.broadcastMiningJob config job cleanJobs now).1) id = none := by
            rw [Function.update_of_ne hne, h]
          dsimp only
          split
          · split
            · exact broadcastTo_none config job cleanJobs now ids _ hkept
            · exact hkept
          · exact h

/-- Every client that is listed gets the job once, or the loop was left before it; nothing
happens to the others. -/
theorem broadcastTo_client (config : ServerConfig) (job : Job) (cleanJobs : Bool) (now : Nat) :
    ∀ (ids : List Nat) (clients : Nat → Option Client), ids.Nodup → ∀ id c, clients id = some c →
      let after := Server.broadcastTo config job cleanJobs now ids clients
      after.1 id = some c ∧ (id ∈ ids → after.2 = false) ∨
      id ∈ ids ∧ after.1 id = some (c.broadcastMiningJob config job cleanJobs now).1
  | [], clients, _, id, c, hc => .inl ⟨hc, fun h => absurd h List.not_mem_nil⟩
  | other :: ids, clients, hnodup, id, c, hc => by
      obtain ⟨hother, hrest⟩ := List.nodup_cons.mp hnodup
      have hlater : ∀ clients' : Nat → Option Client, clients' id = some c → id ≠ other →
          (Server.broadcastTo config job cleanJobs now ids clients').1 id = some c ∧
            (id ∈ other :: ids → (Server.broadcastTo config job cleanJobs now ids clients').2 = false) ∨
          id ∈ other :: ids ∧ (Server.broadcastTo config job cleanJobs now ids clients').1 id
            = some (c.broadcastMiningJob config job cleanJobs now).1 := by
        intro clients' hc' hne
        rcases broadcastTo_client config job cleanJobs now ids clients' hrest id c hc' with
          ⟨hsame, hleft⟩ | ⟨hmem, hsent⟩
        · exact .inl ⟨hsame, fun h => hleft ((List.mem_cons.mp h).resolve_left hne)⟩
        · exact .inr ⟨List.mem_cons_of_mem other hmem, hsent⟩
      rw [Server.broadcastTo]
      cases hd : clients other with
      | none =>
          refine hlater clients hc ?_
          rintro rfl
          rw [hc] at hd
          cases hd
      | some d =>
          dsimp only
          split
          · by_cases hne : id = other
            · subst hne
              rw [hc] at hd
              cases hd
              refine .inr ⟨List.mem_cons_self, ?_⟩
              split
              · exact broadcastTo_other config job cleanJobs now ids _ hother
                  (Function.update_self ..)
              · exact Function.update_self ..
            · have hkept : Function.update clients other
                  (some (d.broadcastMiningJob config job cleanJobs now).1) id = some c := by
                rw [Function.update_of_ne hne, hc]
              split
              · exact hlater _ hkept hne
              · exact .inl ⟨hkept, fun _ => rfl⟩
          · exact .inl ⟨hc, fun _ => rfl⟩

theorem broadcastTo_returns (config : ServerConfig) (job : Job) (cleanJobs : Bool) (now : Nat) :
    ∀ (ids : List Nat) (clients : Nat → Option Client), ids.Nodup →
    (Server.broadcastTo config job cleanJobs now ids clients).2
      = (ids.filterMap clients).all fun c => c.passes config job now
  | [], _, _ => rfl
  | id :: ids, clients, hnodup => by
      obtain ⟨hid, hrest⟩ := List.nodup_cons.mp hnodup
      rw [Server.broadcastTo]
      cases hc : clients id with
      | none =>
          rw [List.filterMap_cons_none hc]
          exact broadcastTo_returns config job cleanJobs now ids clients hrest
      | some c =>
          -- the others are as they were
          have hsame : ids.filterMap
              (Function.update clients id (some (c.broadcastMiningJob config job cleanJobs now).1))
                = ids.filterMap clients := by
            refine List.filterMap_congr fun other hother => ?_
            rw [Function.update_of_ne (by rintro rfl; exact hid hother)]
          rw [List.filterMap_cons_some hc, List.all_cons, Client.passes,
            ← broadcastMiningJob_returns config c job cleanJobs now]
          dsimp only
          cases job.hasParameters with
          | false => rfl
          | true =>
              cases hreturns : (c.broadcastMiningJob config job cleanJobs now).2 with
              | false => rfl
              | true =>
                  simp only [if_true, Bool.true_and]
                  rw [broadcastTo_returns config job cleanJobs now ids _ hrest, hsame]

/-- The listeners of `manager.block.new` and `manager.block.updated` return: the loop over the
clients that are there ends. -/
def ServerConfig.emits (config : ServerConfig) (clients : List Client) (now : Nat) (job : Job) :
    Bool :=
  clients.all fun c => c.passes config job now

theorem broadcastMiningJobs_returns (config : ServerConfig) (s : Server) (job : Job)
    (cleanJobs : Bool) (now : Nat) :
    (s.broadcastMiningJobs config job cleanJobs now).2
      = config.emits (s.keys.list.filterMap s.clients) now job :=
  broadcastTo_returns config job cleanJobs now s.keys.list s.clients s.keys.nodup

/-- A template is built and handed out without an exception. -/
structure HandedOut (config : ServerConfig) (pool : PoolState) (clients : List Client) (now : Nat)
    (response : BlockTemplate) : Prop where
  constructs : (pool.withAuxData config.pool response).Constructs config.pool (now / 1000) = true
  version : clients ≠ [] → -(2 ^ 31) ≤ response.rpcData.version ∧ response.rpcData.version < 2 ^ 31
  curtime : clients ≠ [] → 0 ≤ response.rpcData.curtime ∧ response.rpcData.curtime < 2 ^ 32
  standing : ∀ c ∈ clients, ¬ c.Stumbles config now

theorem handedOut_iff {pool : PoolState} {clients : List Client} {now : Nat}
    {response : BlockTemplate} {job : Job}
    (hnew : pool.manager.nextJob config.pool (pool.withAuxData config.pool response) (now / 1000)
      = some job) :
    HandedOut config pool clients now response ↔ config.emits clients now job = true := by
  have hconstructs : (pool.withAuxData config.pool response).Constructs config.pool (now / 1000)
      = true := by
    rw [← Manager.nextJob_isSome pool.manager, hnew]
    rfl
  have hkeeps := Job.new_some hnew
  have hdata : job.rpcData = response.rpcData := by
    rw [hkeeps.rpcData, PoolState.withAuxData]
    split <;> rfl
  have hparameters := Job.hasParameters_iff hkeeps.previous
  rw [hdata] at hparameters
  simp only [ServerConfig.emits, List.all_eq_true, Client.passes_iff]
  constructor
  · intro h c hc
    have hsome : clients ≠ [] := List.ne_nil_of_mem hc
    exact ⟨hparameters.mpr ⟨h.version hsome, h.curtime hsome⟩, h.standing c hc⟩
  · intro h
    have hfits (hsome : clients ≠ []) := hparameters.mp (h _ (List.head_mem hsome)).1
    exact ⟨hconstructs, fun hsome => (hfits hsome).1, fun hsome => (hfits hsome).2,
      fun c hc => (h c hc).2⟩

/-- The test of `handleTemplate`. -/
def Wanted (pool : PoolState) (newBlock : Bool) (response : BlockTemplate) : Prop :=
  Manager.isNewBlock pool.manager.currentJob response = true ∨ newBlock = true

/-- What the callback of `getblocktemplate` is told of a reply: that it is not taken, that it
is, or nothing, since something was thrown. -/
theorem handlePrimaryTemplate_result (config : ServerConfig) (pool : PoolState)
    (newBlock newBroadcast : Bool) (clients : List Client) (now : Nat) (response : BlockTemplate) :
    (¬ Wanted pool newBlock response ∧ (pool.handlePrimaryTemplate config.pool newBlock newBroadcast
      (now / 1000) (config.emits clients now) (.success response)).2 = some (.success false)) ∨
    (Wanted pool newBlock response ∧ HandedOut config pool clients now response ∧
      (pool.handlePrimaryTemplate config.pool newBlock newBroadcast (now / 1000)
        (config.emits clients now) (.success response)).2 = some (.success true)) ∨
    (Wanted pool newBlock response ∧ ¬ HandedOut config pool clients now response ∧
      (pool.handlePrimaryTemplate config.pool newBlock newBroadcast (now / 1000)
        (config.emits clients now) (.success response)).2 = none) := by
  cases PoolState.taken config.pool pool newBlock newBroadcast (now / 1000) response with
  | no old unwanted handled =>
      rw [handled]
      exact .inl ⟨by simp [Wanted, old, unwanted], rfl⟩
  | throws hwanted hthrows handled =>
      rw [handled]
      refine .inr (.inr ⟨hwanted, fun h => ?_, rfl⟩)
      have hconstructs := h.constructs
      rw [hthrows] at hconstructs
      cases hconstructs
  | yes hwanted job hnew handled =>
      rw [handled]
      by_cases hout : HandedOut config pool clients now response
      · exact .inr (.inl ⟨hwanted, hout, if_pos ((handedOut_iff hnew).mp hout)⟩)
      · exact .inr (.inr ⟨hwanted, hout, if_neg fun h => hout ((handedOut_iff hnew).mpr h)⟩)

theorem handleEvent_cases {env : PoolEnv} {s s' : Server} {now : Nat} {event : ServerEvent}
    (h : s.handleEvent config env now event = some s') :
    (∃ id remoteAddress localPort, event = .connection id remoteAddress localPort ∧
      s.clients id = none ∧ s' = s.handleClient config id remoteAddress localPort now) ∨
    (∃ id c, event = .data id ∧ s.clients id = some c ∧ c.destroyed = false ∧
      s' = { s with reading := some id }) ∨
    (∃ id c c' keys, s.clients id = some c ∧ s' = { s.set id c' with keys := keys } ∧
      Outside config s.pool.manager.currentJob id event c c' ∧
      (keys = s.keys ∨ keys = s.keys.erase id ∧ c'.destroyed = true)) ∨
    (∃ job cleanJobs pool,
      s' = { (s.broadcastMiningJobs config job cleanJobs now).1 with pool := pool } ∧
      pool.manager.currentJob = some job ∧ ((event = .started ∧ pool = s.pool) ∨
        ∃ reply, event = .template reply ∧
          Server.broadcastOf config s.pool reply = some (job, cleanJobs) ∧
          Replaced s.pool pool job cleanJobs (s.broadcastMiningJobs config job cleanJobs now).2)) ∨
    (∃ reply pool, event = .template reply ∧ s' = { s with pool := pool } ∧
      Kept config s.pool pool reply) ∨
    (event = .purge ∧ s' = s.purge config now) := by
  cases event with
  | line message => cases h
  | dataEnd => cases h
  | purge => exact .inr (.inr (.inr (.inr (.inr ⟨rfl, (Option.some.inj h).symm⟩))))
  | data id =>
      obtain ⟨c, hc, hs⟩ := Option.bind_eq_some_iff.mp h
      split at hs
      · cases hs
      · next halive =>
        exact .inr (.inl ⟨id, c, rfl, hc, Bool.eq_false_iff.mpr halive, (Option.some.inj hs).symm⟩)
  | connection id remoteAddress localPort =>
      rw [Server.handleEvent] at h
      split at h
      · cases h
      · next hnew =>
        exact .inl ⟨id, remoteAddress, localPort, rfl, by simpa using hnew, (Option.some.inj h).symm⟩
  | lost id =>
      obtain ⟨c, hc, rfl⟩ := Option.map_eq_some_iff.mp h
      exact .inr (.inr (.inl ⟨id, c, _, _, hc, rfl, .lost, .inl rfl⟩))
  | close id =>
      obtain ⟨c, hc, rfl⟩ := Option.map_eq_some_iff.mp h
      exact .inr (.inr (.inl ⟨id, c, _, _, hc, rfl, .lost, .inr ⟨rfl, rfl⟩⟩))
  | authorizeReply id k valid =>
      obtain ⟨c, hc, rfl⟩ := Option.map_eq_some_iff.mp h
      exact .inr (.inr (.inl ⟨id, c, _, _, hc, rfl, .reply rfl, .inl rfl⟩))
  | difficultyNew id difficulty =>
      obtain ⟨c, hc, rfl⟩ := Option.map_eq_some_iff.mp h
      exact .inr (.inr (.inl ⟨id, c, _, _, hc, rfl, .queue difficulty, .inl rfl⟩))
  | started =>
      obtain ⟨job, hjob, rfl⟩ := Option.map_eq_some_iff.mp h
      exact .inr (.inr (.inr (.inl ⟨job, true, s.pool, rfl, hjob, .inl ⟨rfl, rfl⟩⟩)))
  | template reply =>
      have hreply : s' = s.handleReply config env reply now := by
        cases reply with
        | submit client jobId extraNonce2 nTime nonce now => cases h
        | auxTemplate reply => exact (Option.some.inj h).symm
        | primaryTemplate newBlock newBroadcast reply now => exact (Option.some.inj h).symm
        | timeout reply now => exact (Option.some.inj h).symm
      subst hreply
      unfold Server.handleReply
      obtain ⟨hnone, hkept⟩ | ⟨job, cleanJobs, hsome, hreplaced⟩ :=
        broadcastOf_cases config env s.pool reply
      · rw [hnone]
        exact .inr (.inr (.inr (.inr (.inl ⟨reply, _, rfl, rfl, hkept⟩))))
      · rw [hsome]
        exact .inr (.inr (.inr (.inl ⟨job, cleanJobs, _, rfl, (hreplaced _).current,
          .inr ⟨reply, rfl, hsome, hreplaced _⟩⟩)))

/-- A new client: let in, or turned away for a ban that is not over. -/
theorem handleClient_cases (config : ServerConfig) (s : Server) (id : Nat) (remoteAddress : Str) (localPort now : Nat) :
    ∃ c, (c = { remoteAddress, localPort, activity := now } ∨
        c = Client.destroy { remoteAddress, localPort, activity := now }) ∧
      ((s.handleClient config id remoteAddress localPort now
          = { s.set id c with keys := s.keys.insert id } ∧
        ∀ bannedTime, s.bannedIPs remoteAddress = some bannedTime → c.destroyed = true) ∨
      (∃ bannedTime, s.bannedIPs remoteAddress = some bannedTime ∧
        (config.banLength : Int) ≤ now - bannedTime ∧
        s.handleClient config id remoteAddress localPort now = { s.set id c with
          keys := s.keys.insert id
          bannedIPs := Function.update s.bannedIPs remoteAddress none })) := by
  unfold Server.handleClient
  dsimp only
  cases hban : s.bannedIPs remoteAddress with
  | none => exact ⟨_, .inl rfl, .inl ⟨rfl, fun _ h => nomatch h⟩⟩
  | some bannedTime =>
      dsimp only
      split
      · exact ⟨_, .inr rfl, .inl ⟨rfl, fun _ _ => rfl⟩⟩
      · next hleft =>
        exact ⟨_, .inl rfl, .inr ⟨bannedTime, rfl, by omega, rfl⟩⟩

theorem handleEvent_client {env : PoolEnv} {s s' : Server} {now : Nat} {event : ServerEvent}
    (h : s.handleEvent config env now event = some s') {id : Nat} {c : Client}
    (hc : s.clients id = some c) :
    ∃ c', s'.clients id = some c' ∧ Outside config s'.pool.manager.currentJob id event c c' := by
  have hother : ∀ {other : Nat} (d : Client), id ≠ other →
      Function.update s.clients other (some d) id = some c := by
    intro other d hne
    rw [Function.update_of_ne hne, hc]
  obtain ⟨other, remoteAddress, localPort, -, hnone, rfl⟩ | ⟨other, d, -, -, -, rfl⟩ |
    ⟨other, d, d', keys, hd, rfl, houtside, -⟩ | ⟨job, cleanJobs, pool, rfl, hjob, -⟩ |
    ⟨reply, pool, -, rfl, -⟩ | ⟨-, rfl⟩ := handleEvent_cases h
  · have hne : id ≠ other := by
      rintro rfl
      rw [hc] at hnone
      cases hnone
    obtain ⟨d, -, ⟨heq, -⟩ | ⟨bannedTime, -, -, heq⟩⟩ :=
      handleClient_cases config s other remoteAddress localPort now
    · rw [heq]
      exact ⟨c, hother d hne, .same⟩
    · rw [heq]
      exact ⟨c, hother d hne, .same⟩
  · exact ⟨c, hc, .same⟩
  · by_cases hne : id = other
    · subst hne
      rw [hc] at hd
      cases hd
      exact ⟨d', Function.update_self .., houtside⟩
    · exact ⟨c, hother d' hne, .same⟩
  · rcases broadcastTo_client config job cleanJobs now s.keys.list s.clients s.keys.nodup id c hc with
      ⟨hsame, -⟩ | ⟨-, hsent⟩
    · exact ⟨c, hsame, .same⟩
    · exact ⟨_, hsent, .notify hjob cleanJobs now⟩
  · exact ⟨c, hc, .same⟩
  · exact ⟨c, hc, .same⟩

end

/-! ### Steps -/

section
variable {config : ServerConfig} {env : PoolEnv} {s s' : Server} {e : Timed}

theorem Outside.moves {currentJob : Option Job} {id : Nat} {event : ServerEvent} {c c' : Client}
    (h : Outside config currentJob id event c c') : Moves config currentJob c c' := by
  cases h with
  | same => exact .refl
  | lost => exact .quiet (.destroy c)
  | reply h => exact moves_authorizeWorker c _ _
  | queue difficulty => exact .quiet (.enqueueDifficulty c difficulty)
  | notify h cleanJobs now => exact .single (.notify c h cleanJobs now)

theorem handleEvent_frame {now : Nat} {event : ServerEvent}
    (h : s.handleEvent config env now event = some s') :
    s'.handed = s.handed ∧ s'.bans = s.bans ∧ s'.clock = s.clock := by
  obtain ⟨id, remoteAddress, localPort, -, -, rfl⟩ | ⟨id, c, -, -, -, rfl⟩ |
    ⟨id, c, c', keys, -, rfl, -, -⟩ | ⟨job, cleanJobs, pool, rfl, -, -⟩ | ⟨reply, pool, -, rfl, -⟩ |
    ⟨-, rfl⟩ := handleEvent_cases h
  · obtain ⟨c, -, ⟨heq, -⟩ | ⟨bannedTime, -, -, heq⟩⟩ :=
      handleClient_cases config s id remoteAddress localPort now
    · rw [heq]
      exact ⟨rfl, rfl, rfl⟩
    · rw [heq]
      exact ⟨rfl, rfl, rfl⟩
  · exact ⟨rfl, rfl, rfl⟩
  · exact ⟨rfl, rfl, rfl⟩
  · exact ⟨rfl, rfl, rfl⟩
  · exact ⟨rfl, rfl, rfl⟩
  · exact ⟨rfl, rfl, rfl⟩

/-- A step is a line of a data event, something outside of lines, or the end of the event. -/
theorem step_cases (h : step config env s e = some s') :
    (∃ id c message, s.reading = some id ∧ e.event = .line message ∧ s.clients id = some c ∧
      LineEffect config env { s with clock := e.now } s' id c e.now message) ∨
    ({ s with clock := e.now }.handleEvent config env e.now e.event = some s' ∧
      (s.reading = none ∨ ∃ id difficulty, e.event = .difficultyNew id difficulty)) ∨
    (e.event = .dataEnd ∧ s' = { s with clock := e.now, reading := none }) := by
  unfold step at h
  dsimp only at h
  split at h
  · next hreading => exact .inr (.inl ⟨h, .inl hreading⟩)
  · next id message hreading hevent =>
    obtain ⟨c, hc, rfl⟩ := Option.map_eq_some_iff.mp h
    exact .inl ⟨id, c, message, hreading, hevent, hc,
      lineEffect config env (s := { s with clock := e.now }) hc e.now message⟩
  · next id difficulty hreading hevent =>
    rw [hevent]
    exact .inr (.inl ⟨h, .inr ⟨id, difficulty, rfl⟩⟩)
  · next hreading hevent =>
    cases h
    exact .inr (.inr ⟨hevent, rfl⟩)
  · cases h

/-- A client in a step: what happens to it is told with the job there is afterwards. -/
theorem step_client (h : step config env s e = some s') {id : Nat} {c : Client}
    (hc : s.clients id = some c) :
    ∃ c', s'.clients id = some c' ∧ Moves config s'.pool.manager.currentJob c c' := by
  obtain ⟨other, d, message, -, -, hd, heffect⟩ | ⟨hevent, -⟩ | ⟨-, rfl⟩ := step_cases h
  · obtain ⟨d', hclients, hmoves, -⟩ := heffect.client
    rw [heffect.currentJob, hclients]
    by_cases hid : id = other
    · subst hid
      rw [hc] at hd
      cases hd
      exact ⟨d', Function.update_self .., hmoves⟩
    · refine ⟨c, ?_, .refl⟩
      rw [Function.update_of_ne hid]
      exact hc
  · obtain ⟨c', hc', houtside⟩ := handleEvent_client hevent (c := c) hc
    exact ⟨c', hc', houtside.moves⟩
  · exact ⟨c, hc, .refl⟩

/-- A client of a new connection, let in or not. -/
def Fresh (c : Client) : Prop :=
  ∃ remoteAddress localPort activity,
    c = { remoteAddress, localPort, activity } ∨
    c = Client.destroy { remoteAddress, localPort, activity }

theorem step_new (h : step config env s e = some s') {id : Nat} {c : Client}
    (hnone : s.clients id = none) (hc : s'.clients id = some c) : Fresh c := by
  obtain ⟨other, d, message, -, -, hd, heffect⟩ | ⟨hevent, -⟩ | ⟨-, rfl⟩ := step_cases h
  · obtain ⟨d', hclients, -, -⟩ := heffect.client
    have hid : id ≠ other := by
      rintro rfl
      rw [hd] at hnone
      cases hnone
    rw [hclients, Function.update_of_ne hid] at hc
    rw [hc] at hnone
    cases hnone
  · obtain ⟨other, remoteAddress, localPort, -, -, rfl⟩ | ⟨other, d, -, -, -, rfl⟩ |
      ⟨other, d, d', keys, hd, rfl, -, -⟩ | ⟨job, cleanJobs, pool, rfl, -, -⟩ |
      ⟨reply, pool, -, rfl, -⟩ | ⟨-, rfl⟩ := handleEvent_cases hevent
    · obtain ⟨d, hfresh, ⟨heq, -⟩ | ⟨bannedTime, -, -, heq⟩⟩ :=
        handleClient_cases config { s with clock := e.now } other remoteAddress localPort
          e.now
      all_goals
        rw [heq] at hc
        change Function.update s.clients other (some d) id = some c at hc
        by_cases hid : id = other
        · subst hid
          rw [Function.update_self] at hc
          cases hc
          exact ⟨remoteAddress, localPort, e.now, hfresh⟩
        · rw [Function.update_of_ne hid, hnone] at hc
          cases hc
    · exact absurd (hnone.symm.trans hc) nofun
    · have hid : id ≠ other := by
        rintro rfl
        rw [hnone] at hd
        cases hd
      change Function.update s.clients other (some d') id = some c at hc
      rw [Function.update_of_ne hid, hnone] at hc
      cases hc
    · have hsame := broadcastTo_none config job cleanJobs e.now s.keys.list s.clients hnone
      exact absurd (hsame.symm.trans hc) nofun
    · exact absurd (hnone.symm.trans hc) nofun
    · exact absurd (hnone.symm.trans hc) nofun
  · exact absurd (hnone.symm.trans hc) nofun

end

/-! ### A small pool -/

/-- A pool whose coinbase pays nobody. -/
def smallPool (auxiliaryEnabled : Bool) : ServerConfig where
  pool := ⟨auxiliaryEnabled, [], fun _ => some []⟩
  round := id
  checkThreshold := 500
  invalidPercent := 50
  banLength := 600000
  connectionTimeout := 600000
  initialDifficulty := fun _ => none

/-- Somebody who has just connected. -/
def newClient : Client where
  remoteAddress := "10.0.0.1".toList
  localPort := 3333
  activity := 0

end PoolServer

end DogeConnect
