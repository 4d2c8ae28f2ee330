/-
The pools' side of a stratum connection: `stratum/main/client.js`.

What a client is told goes out over its socket, and what it is held to is kept in the
object: the extra nonce, the difficulties, the shares that count for a ban.  Both are
in the record here, so that they can be compared:

    Client.Told          what the object keeps is what the client was told last
    Client.Watched       the shares are counted in batches, and a bad one bans
    Client.sinceClean    the jobs a client may still work on

The other end is the dispatcher of `Handshake`.  The object keeps living after its socket is
destroyed, but the socket has no port then, and a listener that looks the port up throws.
Difficulties are rationals, and `ServerConfig.round` says which double a quotient is.
-/
import DogeConnect.ManagerShare
import DogeConnect.Lib.Batches

namespace DogeConnect

namespace PoolServer

/-! ## Messages -/

/-- What is written to the socket.  A job stands for the parameters that
`handleParameters` makes of it. -/
inductive OutMessage where
  | setDifficulty (difficulty : ℚ)
  | notify (job : Job) (cleanJobs : Bool)
  | subscription (id : Json) (extraNonce1 : ByteArr 4)
  | response (id result : Json) (error : Option (Nat × Str))

/-- A line of the client, parsed.  The extra nonce is what `randomBytes` gives when the
message is handled. -/
inductive ClientMessage where
  | subscribe (id : Json) (extraNonce1 : ByteArr 4)
  | authorize (id : Json) (name password : Str)
  | configure (id : Json)
  | multiVersion
  | submit (id : Json) (name jobId extraNonce2 nTime nonce : Str)
  | unsupported (id result : Json)
  | unknown
  -- a line that is not JSON, or on whose value a handler throws
  | malformed

/-- A call of `authorizeWorker` that has not called back. -/
structure AuthRequest where
  id : Json
  addrPrimary : Str
  addrAuxiliary : Option Str
  /-- The primary daemon has answered, and the auxiliary one is asked. -/
  primaryValid : Bool

/-- `round` gives the double that is closest to a number. -/
structure ServerConfig where
  pool : PoolConfig
  round : ℚ → ℚ
  checkThreshold : Nat
  invalidPercent : ℚ
  /-- In milliseconds, as the next one. -/
  banLength : Nat
  connectionTimeout : Nat
  /-- `difficulty.initial` of the port, if it is defined. -/
  initialDifficulty : Nat → Option ℚ

/-- `(invalid / totalShares) * 100`. -/
def ServerConfig.percent (config : ServerConfig) (invalid totalShares : Nat) : ℚ :=
  config.round (config.round ((invalid : ℚ) / totalShares) * 100)

/-! ## The client -/

/-- Beside the object's fields: `granted` are the addresses it was authorized for, newest
first, `sent` is the traffic of its socket, newest first, `verdicts` what `considerBan` was
called with, oldest first, and `banned` says that `client.ban.trigger` was emitted. -/
structure Client where
  remoteAddress : Str
  localPort : Nat
  activity : Nat
  authorized : Bool := false
  addrPrimary : Option Str := none
  addrAuxiliary : Option Str := none
  extraNonce1 : Option (ByteArr 4) := none
  difficulty : ℚ := 0
  previousDifficulty : Option ℚ := none
  pendingDifficulty : Option ℚ := none
  staticDifficulty : Bool := false
  valid : Nat := 0
  invalid : Nat := 0
  requests : List AuthRequest := []
  granted : List (Str × Option Str) := []
  destroyed : Bool := false
  sent : List OutMessage := []
  verdicts : List Bool := []
  banned : Bool := false

/-- `name.toString().replace(/[^a-zA-Z0-9.,_-]+/g, '')`. -/
def cleanName (name : Str) : Str :=
  name.filter fun ch => ch.isAlphanum || ch == '.' || ch == ',' || ch == '_' || ch == '-'

/-- `validateName`. -/
def validateName (name : Str) : Str × Option Str :=
  match (cleanName name).splitOn ',' with
  | first :: second :: _ => (first, some second)
  | [first] => (first, none)
  | [] => ([], none)

/-- The digits as a decimal number. -/
def decimalVal (digits : Str) : Nat :=
  digits.foldl (fun n ch => 10 * n + (ch.toNat - 48)) 0

/-- The value of `(\d*\.)?\d+`. -/
def decimalFraction (s : Str) : Option ℚ :=
  let whole := s.takeWhile Char.isDigit
  match s.dropWhile Char.isDigit with
  | [] => if whole.isEmpty then none else some (decimalVal whole)
  | '.' :: frac =>
      if frac.isEmpty || !frac.all Char.isDigit then none
      else some (decimalVal (whole ++ frac) / 10 ^ frac.length)
  | _ => none

/-- One of the values of a password; there are no signs left in it. -/
def difficultyFlag : Str → Option ℚ
  | 'd' :: '=' :: number => decimalFraction number
  | _ => none

/-- The flag `difficulty` of `validatePassword`: the last value that has one. -/
def validatePassword (password : Str) : Option ℚ :=
  let password := password.filter fun ch => ch.isAlphanum || ch == '.' || ch == ',' || ch == '='
  (password.splitOn ',').foldl (fun flag value => (difficultyFlag value).or flag) none

namespace Client

def send (c : Client) (message : OutMessage) : Client := { c with sent := message :: c.sent }

/-- `socket.destroy`. -/
def destroy (c : Client) : Client := { c with destroyed := true }

def enqueueDifficulty (c : Client) (difficulty : ℚ) : Client :=
  if c.staticDifficulty then c else { c with pendingDifficulty := some difficulty }

/-- `considerBan`, and whether the client was banned. -/
def considerBan (config : ServerConfig) (c : Client) (shareValid : Bool) : Client × Bool :=
  let valid := if shareValid then c.valid + 1 else c.valid
  let invalid := if shareValid then c.invalid else c.invalid + 1
  let c := { c with valid := valid, invalid := invalid, verdicts := c.verdicts ++ [shareValid] }
  let totalShares := valid + invalid
  if totalShares ≥ config.checkThreshold then
    if config.percent invalid totalShares < config.invalidPercent then
      ({ c with valid := 0, invalid := 0 }, false)
    else ({ c with destroyed := true, banned := true }, true)
  else (c, false)

/-- `broadcastDifficulty`. -/
def broadcastDifficulty (c : Client) (difficulty : ℚ) : Client :=
  if difficulty = c.difficulty then c
  else { c with
    previousDifficulty := some c.difficulty
    difficulty := difficulty }.send (.setDifficulty difficulty)

/-- The queued difficulty goes out before a job, and whether this returns: the listener of
`client.difficulty.updated` looks up the port of the socket. -/
def updateDifficulty (c : Client) : Client × Bool :=
  match c.pendingDifficulty with
  | none => (c, true)
  | some difficulty =>
      let updated := c.broadcastDifficulty difficulty
      if c.destroyed && decide (difficulty ≠ c.difficulty) then (updated, false)
      else ({ updated with pendingDifficulty := none }, true)

/-- `broadcastMiningJob`, and whether it returns. -/
def broadcastMiningJob (config : ServerConfig) (c : Client) (job : Job) (cleanJobs : Bool)
    (now : Nat) : Client × Bool :=
  if c.activity + config.connectionTimeout < now then (c.destroy, true)
  else
    let updated := c.updateDifficulty
    if updated.2 then (updated.1.send (.notify job cleanJobs), true) else updated

/-- The loop of `broadcastMiningJobs` gets past a client: neither `handleParameters` nor
sending the job throws. -/
def passes (config : ServerConfig) (c : Client) (job : Job) (now : Nat) : Bool :=
  job.hasParameters && (c.broadcastMiningJob config job true now).2

/-- A client with its extra nonce and the difficulty of its port; `socket.localPort` of a
destroyed socket is undefined. -/
def subscribed (config : ServerConfig) (c : Client) (id : Json) (extraNonce1 : ByteArr 4) : Client :=
  let localPort := if c.destroyed then none else some c.localPort
  ({ c with extraNonce1 := some extraNonce1 }.send (.subscription id extraNonce1)).broadcastDifficulty
    ((localPort.bind config.initialDifficulty).getD 8)

/-- `handleSubscribe`, and the listener of `client.subscription` in `setupClients`.  What it
throws, also for want of a job, is caught in `validateData`. -/
def handleSubscribe (config : ServerConfig) (c : Client) (id : Json) (extraNonce1 : ByteArr 4)
    (currentJob : Option Job) (now : Nat) : Client :=
  let c := c.subscribed config id extraNonce1
  match currentJob with
  | none => c.destroy
  | some job =>
      if job.hasParameters then
        let broadcast := c.broadcastMiningJob config job true now
        if broadcast.2 then broadcast.1 else broadcast.1.destroy
      else c.destroy

/-- `handleAuthorize`, up to the call of `authorizeFn`. -/
def handleAuthorize (c : Client) (id : Json) (name password : Str) : Client :=
  let addrs := validateName name
  let c := { c with addrPrimary := some addrs.1, addrAuxiliary := addrs.2 }
  let c := match validatePassword password with
    | none => c
    | some difficulty =>
        if difficulty = 0 then c
        else { c.enqueueDifficulty difficulty with staticDifficulty := true }
  { c with requests := c.requests ++ [⟨id, addrs.1, addrs.2, false⟩] }

/-- The callback of `handleAuthorize`. -/
def authorizeResult (c : Client) (request : AuthRequest) (authorized : Bool) : Client :=
  { c with
    authorized := authorized
    granted := if authorized then (request.addrPrimary, request.addrAuxiliary) :: c.granted
      else c.granted }.send (.response request.id (.boolean authorized) none)

/-- What `authorizeWorker` does with the answer to its request number `k`. -/
def authorizeWorker (config : ServerConfig) (c : Client) (k : Nat) (valid : Bool) : Client :=
  match c.requests[k]? with
  | none => c
  | some request =>
      let done := { c with requests := c.requests.eraseIdx k }
      if !valid then done.authorizeResult request false
      else if request.primaryValid then done.authorizeResult request true
      else if !config.pool.auxiliaryEnabled then done.authorizeResult request true
      else match request.addrAuxiliary with
        | none => done.authorizeResult request false
        | some address =>
            if address.isEmpty then done.authorizeResult request false
            else { c with requests := c.requests.set k { request with primaryValid := true } }

/-- The start of `handleSubmit`: the address is set if it was not. -/
def nameWorker (c : Client) (name : Str) (now : Nat) : Client :=
  let c := { c with activity := now }
  if (c.addrPrimary.getD []).isEmpty then
    let workerData := validateName name
    { c with addrPrimary := some workerData.1, addrAuxiliary := workerData.2 }
  else c

/-- The client as `handleShare` reads it. -/
def forShare (c : Client) (extraNonce1 : ByteArr 4) : DogeConnect.Client where
  extraNonce1 := extraNonce1
  addrPrimary := c.addrPrimary.getD []
  difficulty := c.difficulty
  previousDifficulty := c.previousDifficulty

end Client

/-! ## What a client was told -/

/-- The difficulties on the wire, newest first. -/
def announced (sent : List OutMessage) : List ℚ :=
  sent.filterMap fun
    | .setDifficulty difficulty => some difficulty
    | _ => none

/-- The extra nonce of the last subscription. -/
def lastExtraNonce (sent : List OutMessage) : Option (ByteArr 4) :=
  sent.findSome? fun
    | .subscription _ extraNonce1 => some extraNonce1
    | _ => none

/-- The job that was sent last. -/
def lastJob (sent : List OutMessage) : Option Job :=
  sent.findSome? fun
    | .notify job _ => some job
    | _ => none

/-- The jobs a client may work on: those since the last one that made the earlier ones
void. -/
def sinceClean : List OutMessage → List Job
  | [] => []
  | .notify job true :: _ => [job]
  | .notify job false :: sent => job :: sinceClean sent
  | _ :: sent => sinceClean sent

/-- The difficulty before the last one. -/
def beforeLast : List ℚ → Option ℚ
  | [] => none
  | _ :: earlier => some (earlier.headD 0)

/-- The object is on the state of its wire. -/
structure Client.Told (c : Client) : Prop where
  extraNonce1 : c.extraNonce1 = lastExtraNonce c.sent
  difficulty : c.difficulty = (announced c.sent).headD 0
  previousDifficulty : c.previousDifficulty = beforeLast (announced c.sent)

/-! ## What can become of a client -/

/-- The fields that say what a client was told, and those that count its shares. -/
structure Quiet (c c' : Client) : Prop where
  remoteAddress : c'.remoteAddress = c.remoteAddress
  extraNonce1 : c'.extraNonce1 = c.extraNonce1
  difficulty : c'.difficulty = c.difficulty
  previousDifficulty : c'.previousDifficulty = c.previousDifficulty
  sent : c'.sent = c.sent
  valid : c'.valid = c.valid
  invalid : c'.invalid = c.invalid
  verdicts : c'.verdicts = c.verdicts
  banned : c'.banned = c.banned
  destroyed : c'.destroyed = false → c.destroyed = false

/-- What a step can make of a client, while `currentJob` is the job of the pool. -/
inductive Move (config : ServerConfig) (currentJob : Option Job) : Client → Client → Prop where
  | quiet {c c' : Client} (h : Quiet c c') : Move config currentJob c c'
  | respond (c : Client) (id result : Json) (error : Option (Nat × Str)) :
      Move config currentJob c (c.send (.response id result error))
  | notify (c : Client) {job : Job} (h : currentJob = some job) (cleanJobs : Bool) (now : Nat) :
      Move config currentJob c (c.broadcastMiningJob config job cleanJobs now).1
  | subscribe (c : Client) (id : Json) (extraNonce1 : ByteArr 4) (now : Nat) :
      Move config currentJob c (c.handleSubscribe config id extraNonce1 currentJob now)
  | judge (c : Client) (shareValid : Bool) :
      Move config currentJob c (c.considerBan config shareValid).1

/-- What `considerBan` does beside counting. -/
structure Judged (c c' : Client) (shareValid ban : Bool) : Prop where
  verdicts : c'.verdicts = c.verdicts ++ [shareValid]
  banned : c'.banned = (c.banned || ban)
  destroyed : c'.destroyed = (c.destroyed || ban)
  remoteAddress : c'.remoteAddress = c.remoteAddress
  sent : c'.sent = c.sent
  extraNonce1 : c'.extraNonce1 = c.extraNonce1
  difficulty : c'.difficulty = c.difficulty
  previousDifficulty : c'.previousDifficulty = c.previousDifficulty
  authorized : c'.authorized = c.authorized
  addrPrimary : c'.addrPrimary = c.addrPrimary
  addrAuxiliary : c'.addrAuxiliary = c.addrAuxiliary
  requests : c'.requests = c.requests
  granted : c'.granted = c.granted

theorem judged_considerBan (config : ServerConfig) (c : Client) (shareValid : Bool) :
    Judged c (c.considerBan config shareValid).1 shareValid (c.considerBan config shareValid).2 := by
  unfold Client.considerBan
  dsimp only
  generalize (if shareValid = true then c.valid + 1 else c.valid) = valid
  generalize (if shareValid = true then c.invalid else c.invalid + 1) = invalid
  repeat' split
  all_goals constructor <;> simp

/-- Several of them. -/
abbrev Moves (config : ServerConfig) (currentJob : Option Job) : Client → Client → Prop :=
  Relation.ReflTransGen (Move config currentJob)

section
variable {config : ServerConfig} {currentJob : Option Job}

theorem Moves.keeps {P : Client → Prop} {c c' : Client} (h : Moves config currentJob c c')
    (hmove : ∀ {c c' : Client}, P c → Move config currentJob c c' → P c') (hc : P c) : P c' := by
  induction h with
  | refl => exact hc
  | tail _ hlast ih => exact hmove ih hlast

theorem Moves.quiet {c c' : Client} (h : Quiet c c') : Moves config currentJob c c' :=
  .single (.quiet h)

/-! ### The functions -/

theorem Quiet.destroy (c : Client) : Quiet c c.destroy := by
  constructor <;> simp [Client.destroy]

theorem Quiet.enqueueDifficulty (c : Client) (difficulty : ℚ) :
    Quiet c (c.enqueueDifficulty difficulty) := by
  unfold Client.enqueueDifficulty
  split <;> constructor <;> simp

theorem Quiet.handleAuthorize (c : Client) (id : Json) (name password : Str) :
    Quiet c (c.handleAuthorize id name password) := by
  unfold Client.handleAuthorize Client.enqueueDifficulty
  dsimp only
  repeat' split
  all_goals constructor <;> simp

theorem Quiet.nameWorker (c : Client) (name : Str) (now : Nat) :
    Quiet c (c.nameWorker name now) := by
  unfold Client.nameWorker
  dsimp only
  split <;> constructor <;> simp

theorem moves_authorizeResult (c c' : Client) (request : AuthRequest) (authorized : Bool)
    (h : Quiet c c') : Moves config currentJob c (c'.authorizeResult request authorized) := by
  have hquiet : Quiet c { c' with
      authorized := authorized
      granted := if authorized then (request.addrPrimary, request.addrAuxiliary) :: c'.granted
        else c'.granted } := { h with }
  exact (Moves.quiet hquiet).tail (.respond _ request.id (.boolean authorized) none)

theorem moves_authorizeWorker (c : Client) (k : Nat) (valid : Bool) :
    Moves config currentJob c (c.authorizeWorker config k valid) := by
  unfold Client.authorizeWorker
  cases c.requests[k]? with
  | none => exact .refl
  | some request =>
      have hdone : Quiet c { c with requests := c.requests.eraseIdx k } := by
        constructor <;> simp
      have hset : Quiet c
          { c with requests := c.requests.set k { request with primaryValid := true } } := by
        constructor <;> simp
      dsimp only
      repeat' split
      all_goals first
        | exact moves_authorizeResult _ _ _ _ hdone
        | exact .quiet hset

end

/-! ### Difficulties -/

section
variable {config : ServerConfig}

namespace Client

theorem Told.quiet {c c' : Client} (hc : c.Told) (h : Quiet c c') : c'.Told where
  extraNonce1 := by rw [h.extraNonce1, h.sent, hc.extraNonce1]
  difficulty := by rw [h.difficulty, h.sent, hc.difficulty]
  previousDifficulty := by rw [h.previousDifficulty, h.sent, hc.previousDifficulty]

theorem Told.respond {c : Client} (hc : c.Told) (id result : Json) (error : Option (Nat × Str)) :
    (c.send (.response id result error)).Told :=
  ⟨hc.extraNonce1, hc.difficulty, hc.previousDifficulty⟩

theorem Told.notify {c : Client} (hc : c.Told) (job : Job) (cleanJobs : Bool) :
    (c.send (.notify job cleanJobs)).Told :=
  ⟨hc.extraNonce1, hc.difficulty, hc.previousDifficulty⟩

theorem Told.broadcastDifficulty {c : Client} (hc : c.Told) (difficulty : ℚ) :
    (c.broadcastDifficulty difficulty).Told := by
  unfold Client.broadcastDifficulty
  split
  · exact hc
  · exact {
      extraNonce1 := hc.extraNonce1
      difficulty := rfl
      previousDifficulty := congrArg some hc.difficulty }

theorem Told.updateDifficulty {c : Client} (hc : c.Told) : c.updateDifficulty.1.Told := by
  unfold Client.updateDifficulty
  cases c.pendingDifficulty with
  | none => exact hc
  | some difficulty =>
      have htold := hc.broadcastDifficulty difficulty
      dsimp only
      split
      · exact htold
      · exact ⟨htold.extraNonce1, htold.difficulty, htold.previousDifficulty⟩

theorem Told.broadcastMiningJob {c : Client} (hc : c.Told) (job : Job) (cleanJobs : Bool)
    (now : Nat) : (c.broadcastMiningJob config job cleanJobs now).1.Told := by
  unfold Client.broadcastMiningJob
  dsimp only
  split
  · exact hc.quiet (.destroy c)
  · split
    · exact hc.updateDifficulty.notify job cleanJobs
    · exact hc.updateDifficulty

theorem handleSubscribe_cases (config : ServerConfig) (c : Client) (id : Json)
    (extraNonce1 : ByteArr 4) (currentJob : Option Job) (now : Nat) :
    c.handleSubscribe config id extraNonce1 currentJob now
        = (c.subscribed config id extraNonce1).destroy ∨
    ∃ job, currentJob = some job ∧
      (c.handleSubscribe config id extraNonce1 currentJob now
          = ((c.subscribed config id extraNonce1).broadcastMiningJob config job true now).1 ∨
        c.handleSubscribe config id extraNonce1 currentJob now
          = ((c.subscribed config id extraNonce1).broadcastMiningJob config job true now).1.destroy) := by
  unfold Client.handleSubscribe
  cases currentJob with
  | none => exact .inl rfl
  | some job =>
      dsimp only
      split
      · refine .inr ⟨job, rfl, ?_⟩
        split
        · exact .inl rfl
        · exact .inr rfl
      · exact .inl rfl

theorem Told.subscribed {c : Client} (hc : c.Told) (id : Json) (extraNonce1 : ByteArr 4) :
    (c.subscribed config id extraNonce1).Told := by
  have hsubscribed : ({ c with extraNonce1 := some extraNonce1 }.send
      (.subscription id extraNonce1)).Told := ⟨rfl, hc.difficulty, hc.previousDifficulty⟩
  exact hsubscribed.broadcastDifficulty _

theorem Told.handleSubscribe {c : Client} (hc : c.Told) (id : Json) (extraNonce1 : ByteArr 4)
    (currentJob : Option Job) (now : Nat) :
    (c.handleSubscribe config id extraNonce1 currentJob now).Told := by
  have htold : (c.subscribed config id extraNonce1).Told := hc.subscribed id extraNonce1
  obtain heq | ⟨job, -, heq | heq⟩ := handleSubscribe_cases config c id extraNonce1 currentJob now
  · rw [heq]
    exact htold.quiet (.destroy _)
  · rw [heq]
    exact htold.broadcastMiningJob job true now
  · rw [heq]
    exact (htold.broadcastMiningJob job true now).quiet (.destroy _)

end Client

/-! ### Shares -/

/-- The fields that have nothing to do with what a client is told. -/
structure SameRecord (c c' : Client) : Prop where
  valid : c'.valid = c.valid
  invalid : c'.invalid = c.invalid
  verdicts : c'.verdicts = c.verdicts
  banned : c'.banned = c.banned
  remoteAddress : c'.remoteAddress = c.remoteAddress
  authorized : c'.authorized = c.authorized
  addrPrimary : c'.addrPrimary = c.addrPrimary
  addrAuxiliary : c'.addrAuxiliary = c.addrAuxiliary
  requests : c'.requests = c.requests
  granted : c'.granted = c.granted

theorem SameRecord.refl (c : Client) : SameRecord c c := by
  constructor <;> rfl

theorem SameRecord.trans {a b c : Client} (h : SameRecord a b) (h' : SameRecord b c) :
    SameRecord a c where
  valid := h'.valid.trans h.valid
  invalid := h'.invalid.trans h.invalid
  verdicts := h'.verdicts.trans h.verdicts
  banned := h'.banned.trans h.banned
  remoteAddress := h'.remoteAddress.trans h.remoteAddress
  authorized := h'.authorized.trans h.authorized
  addrPrimary := h'.addrPrimary.trans h.addrPrimary
  addrAuxiliary := h'.addrAuxiliary.trans h.addrAuxiliary
  requests := h'.requests.trans h.requests
  granted := h'.granted.trans h.granted

theorem SameRecord.send (c : Client) (message : OutMessage) : SameRecord c (c.send message) := by
  constructor <;> rfl

theorem SameRecord.destroy (c : Client) : SameRecord c c.destroy := by
  constructor <;> rfl

theorem SameRecord.enqueueDifficulty (c : Client) (difficulty : ℚ) :
    SameRecord c (c.enqueueDifficulty difficulty) := by
  unfold Client.enqueueDifficulty
  split
  · exact .refl c
  · constructor <;> rfl

theorem SameRecord.broadcastDifficulty (c : Client) (difficulty : ℚ) :
    SameRecord c (c.broadcastDifficulty difficulty) := by
  unfold Client.broadcastDifficulty
  split
  · exact .refl c
  · constructor <;> rfl

theorem SameRecord.updateDifficulty (c : Client) : SameRecord c c.updateDifficulty.1 := by
  unfold Client.updateDifficulty
  cases c.pendingDifficulty with
  | none => exact .refl c
  | some difficulty =>
      have hsame := SameRecord.broadcastDifficulty c difficulty
      dsimp only
      split
      · exact hsame
      · refine hsame.trans ?_
        constructor <;> rfl

theorem SameRecord.broadcastMiningJob (c : Client) (job : Job) (cleanJobs : Bool) (now : Nat) :
    SameRecord c (c.broadcastMiningJob config job cleanJobs now).1 := by
  unfold Client.broadcastMiningJob
  dsimp only
  split
  · exact .destroy c
  · split
    · exact (SameRecord.updateDifficulty c).trans (.send _ _)
    · exact .updateDifficulty c

theorem SameRecord.subscribed (c : Client) (id : Json) (extraNonce1 : ByteArr 4) :
    SameRecord c (c.subscribed config id extraNonce1) := by
  have hstart : SameRecord c ({ c with extraNonce1 := some extraNonce1 }.send
      (.subscription id extraNonce1)) := by
    constructor <;> rfl
  exact hstart.trans (.broadcastDifficulty _ _)

theorem SameRecord.handleSubscribe (c : Client) (id : Json) (extraNonce1 : ByteArr 4)
    (currentJob : Option Job) (now : Nat) :
    SameRecord c (c.handleSubscribe config id extraNonce1 currentJob now) := by
  have hsame : SameRecord c (c.subscribed config id extraNonce1) := .subscribed c id extraNonce1
  obtain heq | ⟨job, -, heq | heq⟩ :=
    Client.handleSubscribe_cases config c id extraNonce1 currentJob now
  · rw [heq]
    exact hsame.trans (.destroy _)
  · rw [heq]
    exact hsame.trans (.broadcastMiningJob _ job true now)
  · rw [heq]
    exact (hsame.trans (.broadcastMiningJob _ job true now)).trans (.destroy _)

/-- The shares of one batch: a threshold of 0 is one of 1. -/
def ServerConfig.batchSize (config : ServerConfig) : Nat := max 1 config.checkThreshold

/-- A batch that bans. -/
def ServerConfig.TooMany (config : ServerConfig) (batch : List Bool) : Prop :=
  config.invalidPercent ≤ config.percent (batch.count false) batch.length

/-- What the counters are, and whether there was a ban, by the batches of shares. -/
def Client.Watched (config : ServerConfig) (c : Client) : Prop :=
  (c.banned = false ∧ ∃ full rest, Batches.Cut config.batchSize c.verdicts full rest ∧
    (∀ b ∈ full, ¬ config.TooMany b) ∧ c.valid = rest.count true ∧ c.invalid = rest.count false) ∨
  (c.banned = true ∧ ∃ (full : List (List Bool)) (bad more : List Bool),
    c.verdicts = full.flatten ++ bad ++ more ∧
    (∀ b ∈ full, b.length = config.batchSize) ∧ bad.length = config.batchSize ∧
    config.TooMany bad)

theorem Client.Watched.same {c c' : Client} (hc : c.Watched config) (hvalid : c'.valid = c.valid)
    (hinvalid : c'.invalid = c.invalid) (hverdicts : c'.verdicts = c.verdicts)
    (hbanned : c'.banned = c.banned) : c'.Watched config := by
  unfold Client.Watched
  rw [hvalid, hinvalid, hverdicts, hbanned]
  exact hc

theorem Client.Watched.record {c c' : Client} (hc : c.Watched config) (h : SameRecord c c') :
    c'.Watched config :=
  hc.same h.valid h.invalid h.verdicts h.banned

theorem count_true_add_false (verdicts : List Bool) :
    verdicts.count true + verdicts.count false = verdicts.length := by
  induction verdicts with
  | nil => rfl
  | cons verdict verdicts ih => cases verdict <;> simp <;> omega

theorem Client.Watched.considerBan {c : Client} (hc : c.Watched config) (shareValid : Bool) :
    (c.considerBan config shareValid).1.Watched config := by
  obtain ⟨hbanned, full, rest, hcut, hfine, hvalid, hinvalid⟩ |
    ⟨hbanned, full, bad, more, hverdicts, hfull, hbad, hmany⟩ := hc
  · -- the counts with this share are those of the batch with it
    have hvalid' : (if shareValid then c.valid + 1 else c.valid)
        = (rest ++ [shareValid]).count true := by
      rw [hvalid]
      cases shareValid <;> simp
    have hinvalid' : (if shareValid then c.invalid else c.invalid + 1)
        = (rest ++ [shareValid]).count false := by
      rw [hinvalid]
      cases shareValid <;> simp
    have htotal := count_true_add_false (rest ++ [shareValid])
    have hlength : (rest ++ [shareValid]).length = rest.length + 1 := by simp
    have hshort := hcut.short
    unfold Client.considerBan
    simp only [hvalid', hinvalid', htotal]
    by_cases hfull : rest.length + 1 = config.batchSize
    · have hreached : (rest ++ [shareValid]).length ≥ config.checkThreshold := by
        rw [hlength, hfull, ServerConfig.batchSize]
        exact le_max_right _ _
      rw [if_pos hreached]
      have hclose := hcut.close hfull (x := shareValid)
      split
      · next hlow =>
        refine .inl ⟨hbanned, _, [], hclose, ?_, rfl, rfl⟩
        intro b hb
        rcases List.mem_append.mp hb with hb | hb
        · exact hfine b hb
        · rw [List.mem_singleton.mp hb]
          exact not_le.mpr hlow
      · next hhigh =>
        refine .inr ⟨rfl, full, rest ++ [shareValid], [], ?_, hcut.size, ?_, not_lt.mp hhigh⟩
        · rw [hcut.eq, List.append_nil, List.append_assoc]
        · rw [hlength, hfull]
    · have hnot : ¬ (rest ++ [shareValid]).length ≥ config.checkThreshold := by
        rw [hlength]
        have := ServerConfig.batchSize.eq_1 config
        omega
      rw [if_neg hnot]
      exact .inl ⟨hbanned, full, _, hcut.push (by omega), hfine, rfl, rfl⟩
  · -- who is banned stays it, whatever else is in the same data
    have hjudged := judged_considerBan config c shareValid
    refine .inr ⟨?_, full, bad, more ++ [shareValid], ?_, hfull, hbad, hmany⟩
    · rw [hjudged.banned, hbanned, Bool.true_or]
    · rw [hjudged.verdicts, hverdicts, List.append_assoc]

theorem Client.Watched.bad_batch {c : Client} (hc : c.Watched config) :
    c.banned = true ↔ ∃ k, (k + 1) * config.batchSize ≤ c.verdicts.length ∧
      config.TooMany (Batches.batch config.batchSize k c.verdicts) := by
  obtain ⟨hbanned, full, rest, hcut, hfine, -, -⟩ |
    ⟨hbanned, full, bad, more, hverdicts, hfull, hbad, hmany⟩ := hc
  · have hall := (hcut.forall_iff fun b => ¬ config.TooMany b).mp hfine
    constructor
    · intro h
      rw [hbanned] at h
      cases h
    · rintro ⟨k, hk, hmany⟩
      exact absurd hmany (hall k hk)
  · refine ⟨fun _ => ⟨full.length, ?_, ?_⟩, fun _ => hbanned⟩
    · rw [hverdicts, List.length_append, List.length_append, Batches.length_flatten hfull, hbad,
        Nat.succ_mul]
      exact Nat.le_add_right _ _
    · rw [hverdicts, Batches.batch_flatten hfull hbad more]
      exact hmany

end

/-! ### Jobs -/

/-- Who subscribed has a job, and a job that was sent last is the pool's. -/
structure Client.Served (manager : Manager) (c : Client) : Prop where
  current : ∀ job, lastJob c.sent = some job → manager.currentJob = some job
  subscribed : c.extraNonce1.isSome = true → ∃ job, lastJob c.sent = some job

/-- What a client may work on, the manager takes shares for. -/
def Client.StillValid (manager : Manager) (c : Client) : Prop :=
  ∀ job ∈ sinceClean c.sent, manager.validJobs job.jobId = some job

section
variable {config : ServerConfig} {manager : Manager}

theorem sent_broadcastDifficulty (c : Client) (difficulty : ℚ) :
    (c.broadcastDifficulty difficulty).sent = c.sent ∨
      (c.broadcastDifficulty difficulty).sent = .setDifficulty difficulty :: c.sent := by
  unfold Client.broadcastDifficulty
  split
  · exact .inl rfl
  · exact .inr rfl

theorem sent_updateDifficulty (c : Client) :
    c.updateDifficulty.1.sent = c.sent ∨
      ∃ difficulty, c.updateDifficulty.1.sent = .setDifficulty difficulty :: c.sent := by
  unfold Client.updateDifficulty
  cases c.pendingDifficulty with
  | none => exact .inl rfl
  | some difficulty =>
      dsimp only
      rcases sent_broadcastDifficulty c difficulty with h | h
      · split <;> exact .inl h
      · split <;> exact .inr ⟨difficulty, h⟩

theorem sinceClean_updateDifficulty (c : Client) :
    sinceClean c.updateDifficulty.1.sent = sinceClean c.sent := by
  rcases sent_updateDifficulty c with h | ⟨difficulty, h⟩
  · rw [h]
  · rw [h]
    rfl

theorem destroyed_broadcastDifficulty (c : Client) (difficulty : ℚ) :
    (c.broadcastDifficulty difficulty).destroyed = c.destroyed := by
  unfold Client.broadcastDifficulty
  split <;> rfl

theorem destroyed_subscribed (c : Client) (id : Json) (extraNonce1 : ByteArr 4) :
    (c.subscribed config id extraNonce1).destroyed = c.destroyed := by
  unfold Client.subscribed
  dsimp only
  rw [destroyed_broadcastDifficulty]
  rfl

theorem updateDifficulty_destroyed (c : Client) :
    c.updateDifficulty.1.destroyed = c.destroyed ∧
      (c.updateDifficulty.2 = false → c.destroyed = true) := by
  unfold Client.updateDifficulty
  cases c.pendingDifficulty with
  | none => exact ⟨rfl, nofun⟩
  | some difficulty =>
      dsimp only
      split
      · next hgone =>
          rw [Bool.and_eq_true] at hgone
          exact ⟨destroyed_broadcastDifficulty c difficulty, fun _ => hgone.1⟩
      · exact ⟨destroyed_broadcastDifficulty c difficulty, nofun⟩

/-- A client that is gone, and still has a difficulty queued for a job. -/
def Client.Stumbles (config : ServerConfig) (c : Client) (now : Nat) : Prop :=
  c.destroyed = true ∧ now ≤ c.activity + config.connectionTimeout ∧
    ∃ difficulty, c.pendingDifficulty = some difficulty ∧ difficulty ≠ c.difficulty

theorem broadcastMiningJob_throws_iff (config : ServerConfig) (c : Client) (job : Job)
    (cleanJobs : Bool) (now : Nat) :
    (c.broadcastMiningJob config job cleanJobs now).2 = false ↔ c.Stumbles config now := by
  have hupdate : c.updateDifficulty.2 = false ↔ c.destroyed = true ∧
      ∃ difficulty, c.pendingDifficulty = some difficulty ∧ difficulty ≠ c.difficulty := by
    unfold Client.updateDifficulty
    cases c.pendingDifficulty with
    | none => simp
    | some difficulty =>
        dsimp only
        split
        · next h => simpa using h
        · next h => simpa using h
  unfold Client.broadcastMiningJob Client.Stumbles
  dsimp only
  split
  · next hlate => exact ⟨nofun, fun h => absurd h.2.1 (by omega)⟩
  · next hsoon =>
      have hle : now ≤ c.activity + config.connectionTimeout := by omega
      split
      · next hreturns =>
          refine ⟨nofun, fun h => ?_⟩
          rw [hupdate.mpr ⟨h.1, h.2.2⟩] at hreturns
          cases hreturns
      · exact hupdate.trans ⟨fun h => ⟨h.1, hle, h.2⟩, fun h => ⟨h.1, h.2.2⟩⟩

theorem broadcastMiningJob_returns (config : ServerConfig) (c : Client) (job : Job)
    (cleanJobs : Bool) (now : Nat) :
    (c.broadcastMiningJob config job cleanJobs now).2 = (c.broadcastMiningJob config job true now).2 := by
  rw [Bool.eq_iff_iff, ← not_iff_not, Bool.not_eq_true, Bool.not_eq_true,
    broadcastMiningJob_throws_iff, broadcastMiningJob_throws_iff]

theorem Client.passes_iff {config : ServerConfig} {c : Client} {job : Job} {now : Nat} :
    c.passes config job now = true ↔ job.hasParameters = true ∧ ¬ c.Stumbles config now := by
  rw [Client.passes, Bool.and_eq_true, ← broadcastMiningJob_throws_iff config c job true now,
    Bool.not_eq_false]

theorem broadcastMiningJob_cases (config : ServerConfig) (c : Client) (job : Job)
    (cleanJobs : Bool) (now : Nat) :
    (c.broadcastMiningJob config job cleanJobs now).1.destroyed = true ∨
    ((c.broadcastMiningJob config job cleanJobs now).1.sent
        = .notify job cleanJobs :: c.updateDifficulty.1.sent ∧
      (c.broadcastMiningJob config job cleanJobs now).1.destroyed = c.destroyed) := by
  obtain ⟨hsame, hgone⟩ := updateDifficulty_destroyed c
  unfold Client.broadcastMiningJob
  dsimp only
  split
  · exact .inl rfl
  · split
    · exact .inr ⟨rfl, hsame⟩
    · next hthrown => exact .inl (hsame.trans (hgone (Bool.eq_false_iff.mpr hthrown)))

theorem Client.Served.notify {c : Client} {job : Job} {cleanJobs : Bool} {now : Nat}
    (hcurrent : manager.currentJob = some job)
    (halive : (c.broadcastMiningJob config job cleanJobs now).1.destroyed = false) :
    (c.broadcastMiningJob config job cleanJobs now).1.Served manager := by
  rcases broadcastMiningJob_cases config c job cleanJobs now with h | ⟨hsent, -⟩
  · rw [h] at halive
    cases halive
  · constructor
    · intro last hlast
      rw [hsent] at hlast
      cases hlast
      exact hcurrent
    · intro _
      rw [hsent]
      exact ⟨job, rfl⟩

theorem Client.StillValid.notify {c : Client} {job : Job} {cleanJobs : Bool} {now : Nat}
    (hvalid : manager.validJobs job.jobId = some job)
    (hold : cleanJobs = false → c.destroyed = false → c.StillValid manager)
    (halive : (c.broadcastMiningJob config job cleanJobs now).1.destroyed = false) :
    (c.broadcastMiningJob config job cleanJobs now).1.StillValid manager := by
  rcases broadcastMiningJob_cases config c job cleanJobs now with h | ⟨hsent, hsame⟩
  · rw [h] at halive
    cases halive
  · intro old hmem
    rw [hsent] at hmem
    cases cleanJobs with
    | true =>
        rw [sinceClean, List.mem_singleton] at hmem
        rw [hmem]
        exact hvalid
    | false =>
        rw [sinceClean, sinceClean_updateDifficulty] at hmem
        rcases List.mem_cons.mp hmem with rfl | hmem
        · exact hvalid
        · exact hold rfl (hsame.symm.trans halive) old hmem

theorem Client.Served.sameWire {c c' : Client} (hc : c.Served manager)
    (hextra : c'.extraNonce1 = c.extraNonce1) (hsent : c'.sent = c.sent) : c'.Served manager where
  current := by rw [hsent]; exact hc.current
  subscribed := by rw [hsent, hextra]; exact hc.subscribed

theorem Client.StillValid.sameWire {c c' : Client} (hc : c.StillValid manager)
    (hsent : c'.sent = c.sent) : c'.StillValid manager := by
  rw [Client.StillValid, hsent]
  exact hc

theorem destroyed_considerBan {c : Client} {shareValid : Bool}
    (h : (c.considerBan config shareValid).1.destroyed = false) : c.destroyed = false := by
  rw [(judged_considerBan config c shareValid).destroyed, Bool.or_eq_false_iff] at h
  exact h.1

theorem handleSubscribe_alive {c : Client} {id : Json} {extraNonce1 : ByteArr 4}
    {currentJob : Option Job} {now : Nat}
    (halive : (c.handleSubscribe config id extraNonce1 currentJob now).destroyed = false) :
    ∃ job, currentJob = some job ∧ c.handleSubscribe config id extraNonce1 currentJob now
      = ((c.subscribed config id extraNonce1).broadcastMiningJob config job true now).1 := by
  obtain heq | ⟨job, hjob, heq | heq⟩ :=
    Client.handleSubscribe_cases config c id extraNonce1 currentJob now
  · rw [heq] at halive
    cases halive
  · exact ⟨job, hjob, heq⟩
  · rw [heq] at halive
    cases halive

theorem Client.Served.move {c c' : Client} (hc : c.destroyed = false → c.Served manager)
    (h : Move config manager.currentJob c c') : c'.destroyed = false → c'.Served manager := by
  intro halive
  cases h with
  | quiet h => exact (hc (h.destroyed halive)).sameWire h.extraNonce1 h.sent
  | respond id result error => exact ⟨(hc halive).current, (hc halive).subscribed⟩
  | notify hjob cleanJobs now => exact .notify hjob halive
  | subscribe id extraNonce1 now =>
      obtain ⟨job, hjob, heq⟩ := handleSubscribe_alive halive
      rw [heq] at halive ⊢
      exact .notify hjob halive
  | judge shareValid =>
      have hjudged := judged_considerBan config c shareValid
      exact (hc (destroyed_considerBan halive)).sameWire hjudged.extraNonce1 hjudged.sent

theorem Client.StillValid.move
    (hcurrent : ∀ job, manager.currentJob = some job → manager.validJobs job.jobId = some job)
    {c c' : Client} (hc : c.destroyed = false → c.StillValid manager)
    (h : Move config manager.currentJob c c') : c'.destroyed = false → c'.StillValid manager := by
  intro halive
  cases h with
  | quiet h => exact (hc (h.destroyed halive)).sameWire h.sent
  | respond id result error => exact hc halive
  | notify hjob cleanJobs now => exact .notify (hcurrent _ hjob) (fun _ => hc) halive
  | subscribe id extraNonce1 now =>
      obtain ⟨job, hjob, heq⟩ := handleSubscribe_alive halive
      rw [heq] at halive ⊢
      exact .notify (hcurrent _ hjob) (fun h => nomatch h) halive
  | judge shareValid =>
      exact (hc (destroyed_considerBan halive)).sameWire (judged_considerBan config c shareValid).sent

theorem Client.Told.move {currentJob : Option Job} {c c' : Client} (hc : c.Told)
    (h : Move config currentJob c c') : c'.Told := by
  cases h with
  | quiet h => exact hc.quiet h
  | respond id result error => exact hc.respond id result error
  | notify hjob cleanJobs now => exact hc.broadcastMiningJob _ cleanJobs now
  | subscribe id extraNonce1 now => exact hc.handleSubscribe id extraNonce1 _ now
  | judge shareValid =>
      have hjudged := judged_considerBan config c shareValid
      exact {
        extraNonce1 := by rw [hjudged.extraNonce1, hjudged.sent, hc.extraNonce1]
        difficulty := by rw [hjudged.difficulty, hjudged.sent, hc.difficulty]
        previousDifficulty := by
          rw [hjudged.previousDifficulty, hjudged.sent, hc.previousDifficulty] }

theorem Client.Watched.move {currentJob : Option Job} {c c' : Client} (hc : c.Watched config)
    (h : Move config currentJob c c') : c'.Watched config := by
  cases h with
  | quiet h => exact hc.same h.valid h.invalid h.verdicts h.banned
  | respond id result error => exact hc.record (.send c _)
  | notify hjob cleanJobs now => exact hc.record (.broadcastMiningJob c _ cleanJobs now)
  | subscribe id extraNonce1 now => exact hc.record (.handleSubscribe c id extraNonce1 _ now)
  | judge shareValid => exact hc.considerBan shareValid

/-! ### The wire and the socket -/

theorem remoteAddress_move {currentJob : Option Job} {c c' : Client}
    (h : Move config currentJob c c') : c'.remoteAddress = c.remoteAddress := by
  cases h with
  | quiet h => exact h.remoteAddress
  | respond id result error => rfl
  | notify hjob cleanJobs now => exact (SameRecord.broadcastMiningJob c _ cleanJobs now).remoteAddress
  | subscribe id extraNonce1 now => exact (SameRecord.handleSubscribe c id extraNonce1 _ now).remoteAddress
  | judge shareValid => exact (judged_considerBan config c shareValid).remoteAddress

theorem destroyed_move {currentJob : Option Job} {c c' : Client} (h : Move config currentJob c c')
    (halive : c'.destroyed = false) : c.destroyed = false := by
  cases h with
  | quiet h => exact h.destroyed halive
  | respond id result error => exact halive
  | notify hjob cleanJobs now =>
      rcases broadcastMiningJob_cases config c _ cleanJobs now with h | ⟨-, h⟩
      · rw [h] at halive
        cases halive
      · exact h.symm.trans halive
  | subscribe id extraNonce1 now =>
      obtain ⟨job, -, heq⟩ := handleSubscribe_alive halive
      rw [heq] at halive
      rcases broadcastMiningJob_cases config (c.subscribed config id extraNonce1) job true now with
        h | ⟨-, h⟩
      · rw [h] at halive
        cases halive
      · exact (h.trans (destroyed_subscribed c id extraNonce1)).symm.trans halive
  | judge shareValid => exact destroyed_considerBan halive

theorem suffix_broadcastDifficulty (c : Client) (difficulty : ℚ) :
    c.sent <:+ (c.broadcastDifficulty difficulty).sent := by
  rcases sent_broadcastDifficulty c difficulty with h | h
  · rw [h]
  · rw [h]
    exact List.suffix_cons _ _

theorem suffix_broadcastMiningJob (c : Client) (job : Job) (cleanJobs : Bool) (now : Nat) :
    c.sent <:+ (c.broadcastMiningJob config job cleanJobs now).1.sent := by
  have hupdate : c.sent <:+ c.updateDifficulty.1.sent := by
    rcases sent_updateDifficulty c with h | ⟨difficulty, h⟩
    · rw [h]
    · rw [h]
      exact List.suffix_cons _ _
  unfold Client.broadcastMiningJob
  dsimp only
  split
  · exact List.suffix_refl _
  · split
    · exact hupdate.trans (List.suffix_cons _ _)
    · exact hupdate

theorem suffix_handleSubscribe (c : Client) (id : Json) (extraNonce1 : ByteArr 4)
    (currentJob : Option Job) (now : Nat) :
    c.sent <:+ (c.handleSubscribe config id extraNonce1 currentJob now).sent := by
  have hstart : c.sent <:+ (c.subscribed config id extraNonce1).sent :=
    (List.suffix_cons (.subscription id extraNonce1) c.sent).trans
      (suffix_broadcastDifficulty ({ c with extraNonce1 := some extraNonce1 }.send
        (.subscription id extraNonce1)) _)
  obtain heq | ⟨job, -, heq | heq⟩ :=
    Client.handleSubscribe_cases config c id extraNonce1 currentJob now
  · rw [heq]
    exact hstart
  · rw [heq]
    exact hstart.trans (suffix_broadcastMiningJob _ job true now)
  · rw [heq]
    exact hstart.trans (suffix_broadcastMiningJob _ job true now)

theorem suffix_move {currentJob : Option Job} {c c' : Client} (h : Move config currentJob c c') :
    c.sent <:+ c'.sent := by
  cases h with
  | quiet h => rw [h.sent]
  | respond id result error => exact List.suffix_cons _ _
  | notify hjob cleanJobs now => exact suffix_broadcastMiningJob c _ cleanJobs now
  | subscribe id extraNonce1 now => exact suffix_handleSubscribe c id extraNonce1 currentJob now
  | judge shareValid => rw [(judged_considerBan config c shareValid).sent]

end

end PoolServer

end DogeConnect
