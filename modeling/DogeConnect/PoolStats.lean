/-
Statistics of the merged-mining pool.

Forks handle the submissions.  What `manager.share` emits goes through
`handlePrimary` and `handleAuxiliary` of `pool.js`, which ask a daemon where a
block was found, and comes out as `pool.share`; its listener sends an event to the
master, which counts it (`server/main/stratum.js`).

    handleStatsEvent     one event on all counters
    submitBlock_checks   callbacks that run twice, and ask for the block once
    managerShare         one submission, up to two emissions
    step                 forks, daemons and the master

The live feed and the logs are left out.
-/
import DogeConnect.HashUtil
import Mathlib.Data.List.AList
import Mathlib.Data.Rat.Init

namespace DogeConnect

namespace PoolStats

/-! ## Events -/

inductive Chain where
  | primary
  | auxiliary
  deriving DecidableEq

inductive BlockType where
  | share
  | primary
  | auxiliary
  deriving DecidableEq

/-- The symbols of the two coins. -/
structure Coins where
  primarySymbol : Str
  auxSymbol : Str

/-- `extraNonce2` as the miner sent it.  `handleShare` tests its `length` and
decodes it, and lets an array pass, or an object with a `length`, as it does a
string. -/
inductive ExtraNonce2 where
  | text (s : Str)
  | list (length : Nat)
  deriving DecidableEq

/-- What `pool.share` is emitted with, as far as its listener counts it; only the
emission of a share that passed carries the nonce. -/
structure PoolShare where
  addrPrimary : Str
  addrAuxiliary : Option Str
  blockType : BlockType
  extraNonce2 : Option ExtraNonce2
  height : Option Nat
  hash : Option Str
  deriving DecidableEq

/-- An event of a valid share. -/
structure ShareEvent where
  chain : Chain
  coin : Str
  address : Str
  addrAuxiliary : Option Str
  isPrimaryBlock : Bool
  isAuxiliaryBlock : Bool
  accepted : Bool
  height : Option Nat
  hash : Option Str
  deriving DecidableEq

structure NetworkData where
  height : Nat
  difficulty : ℚ
  hashrate : ℚ
  deriving DecidableEq

/-- What a fork sends to the master. -/
inductive StatsEvent where
  | network (chain : Chain) (data : NetworkData)
  | invalidShare (address : Str)
  | validShare (event : ShareEvent)
  deriving DecidableEq

/-- The address a share is counted under: `(addrPrimary || 'unknown').split('.')[0]`. -/
def addressOf (addrPrimary : Str) : Str :=
  (if addrPrimary.isEmpty then "unknown".toList else addrPrimary).takeWhile (· ≠ '.')

/-- `extraNonce2.substring(0, 8)` throws: there is something as long that is no
string. -/
def PoolShare.noSubstring (shareData : PoolShare) : Bool :=
  match shareData.extraNonce2 with
  | some (.list length) => decide (length ≥ 8)
  | _ => false

/-- The listener of `pool.share`; `none` if it throws, which it does before it
sends anything. -/
def shareEvent (coins : Coins) (shareData : PoolShare) (shareValid accepted : Bool) :
    Option StatsEvent :=
  let address := addressOf shareData.addrPrimary
  let isAuxEvent := shareData.blockType = .auxiliary
  if shareData.noSubstring then none
  else if shareValid then
    some <| .validShare {
      chain := if isAuxEvent then .auxiliary else .primary
      coin := if isAuxEvent then coins.auxSymbol else coins.primarySymbol
      address := address
      addrAuxiliary := shareData.addrAuxiliary.filter fun addr => !addr.isEmpty
      isPrimaryBlock := decide (shareData.blockType = .primary)
      isAuxiliaryBlock := decide (shareData.blockType = .auxiliary)
      accepted := accepted
      height := shareData.height
      hash := shareData.hash }
  else some (.invalidShare address)

/-! ## The statistics -/

/-- An entry of `workers`; older files have none of the last counter. -/
structure Worker where
  valid : Nat
  invalid : Nat
  blocks : Nat
  blocksAuxiliary : Option Nat
  deriving DecidableEq

abbrev Workers := AList fun _ : Str => Worker

/-- An entry of `recentBlocks`; older files have no tags. -/
structure RecentBlock where
  chain : Option Chain
  coin : Option Str
  height : Option Nat
  hash : Option Str
  worker : Str
  payout : Option Str
  time : Nat
  confirmed : Bool
  deriving DecidableEq

/-- The figures.  `network` stands for `currentHeight`, `networkDifficulty` and
`networkHashrate`, which are set together. -/
structure Figures where
  sharesValid : Nat
  sharesInvalid : Nat
  blocksFound : Nat
  blocksConfirmed : Nat
  blocksFoundAuxiliary : Option Nat
  blocksConfirmedAuxiliary : Option Nat
  lastShareTime : Option Nat
  lastBlockTime : Option Nat
  lastBlockHeight : Option Nat
  lastBlockAuxiliaryTime : Option Nat
  lastBlockAuxiliaryHeight : Option Nat
  network : Option NetworkData
  networkAuxiliary : Option NetworkData

/-- The stats file, parsed. -/
structure StatsFile extends Figures where
  recentBlocks : Option (List RecentBlock)
  workers : Option Workers

/-- `_this.stats`. -/
structure Stats extends Figures where
  startTime : Nat
  recentBlocks : List RecentBlock
  workers : Workers

def Figures.fresh : Figures where
  sharesValid := 0
  sharesInvalid := 0
  blocksFound := 0
  blocksConfirmed := 0
  blocksFoundAuxiliary := some 0
  blocksConfirmedAuxiliary := some 0
  lastShareTime := none
  lastBlockTime := none
  lastBlockHeight := none
  lastBlockAuxiliaryTime := none
  lastBlockAuxiliaryHeight := none
  network := none
  networkAuxiliary := none

/-- `loadStats`; `none` is a file that is not there or cannot be parsed. -/
def loadStats (now : Nat) : Option StatsFile → Stats
  | none => { Figures.fresh with startTime := now, recentBlocks := [], workers := ∅ }
  | some file => { file.toFigures with
      startTime := now
      recentBlocks := file.recentBlocks.getD []
      workers := file.workers.getD ∅ }

/-- What `saveStats` writes. -/
def saveStats (stats : Stats) : StatsFile :=
  { stats.toFigures with
    recentBlocks := some stats.recentBlocks
    workers := some stats.workers }

/-! ## The master -/

/-- The names every object has from `Object.prototype`. -/
def inheritedNames : List Str :=
  ["constructor", "__defineGetter__", "__defineSetter__", "hasOwnProperty", "__lookupGetter__",
    "__lookupSetter__", "isPrototypeOf", "propertyIsEnumerable", "toString", "valueOf",
    "__proto__", "toLocaleString"].map String.toList

/-- The process with the statistics.  `proto` is `Object.prototype.blocksAuxiliary`,
which counting under the name `__proto__` sets. -/
structure Master where
  stats : Stats
  proto : Option Nat
  file : Option StatsFile

/-- The counters of an entry. -/
inductive Counter where
  | valid
  | invalid
  | blocks
  | blocksAuxiliary
  deriving DecidableEq

/-- A counter of an entry, read as 0 where it is missing. -/
def Worker.count (w : Worker) : Counter → Nat
  | .valid => w.valid
  | .invalid => w.invalid
  | .blocks => w.blocks
  | .blocksAuxiliary => w.blocksAuxiliary.getD 0

/-- `entry.counter++`, where a counter the entry lacks is inherited. -/
def Worker.increment (proto : Option Nat) (w : Worker) : Counter → Worker
  | .valid => { w with valid := w.valid + 1 }
  | .invalid => { w with invalid := w.invalid + 1 }
  | .blocks => { w with blocks := w.blocks + 1 }
  | .blocksAuxiliary => { w with blocksAuxiliary := some ((w.blocksAuxiliary.or proto).getD 0 + 1) }

namespace Master

def setWorkers (m : Master) (workers : Workers) : Master :=
  { m with stats := { m.stats with workers := workers } }

/-- `_this.stats.workers[addr]` is truthy though it is no entry. -/
def inherits (m : Master) (addr : Str) : Bool :=
  inheritedNames.contains addr ||
    decide (addr = "blocksAuxiliary".toList) && decide (m.proto.getD 0 ≠ 0)

/-- `ensureWorker`. -/
def ensureWorker (m : Master) (addr : Str) : Master :=
  match m.stats.workers.lookup addr with
  | some w =>
      if (w.blocksAuxiliary.or m.proto).isNone then
        m.setWorkers (m.stats.workers.insert addr { w with blocksAuxiliary := some 0 })
      else m
  | none =>
      if addr = "__proto__".toList then { m with proto := some (m.proto.getD 0) }
      else if m.inherits addr then m
      else m.setWorkers (m.stats.workers.insert addr ⟨0, 0, 0, some 0⟩)

/-- `ensureWorker(addr).counter++`.  What is inherited is not counted in `workers`. -/
def increment (m : Master) (addr : Str) (counter : Counter) : Master :=
  let m := m.ensureWorker addr
  match m.stats.workers.lookup addr with
  | some w => m.setWorkers (m.stats.workers.insert addr (w.increment m.proto counter))
  | none =>
      if addr = "__proto__".toList ∧ counter = .blocksAuxiliary then
        { m with proto := m.proto.map (· + 1) }
      else m

/-- `recentBlocks.unshift(block)`, cut at ten. -/
def unshift (m : Master) (block : RecentBlock) : Master :=
  let recentBlocks := block :: m.stats.recentBlocks
  { m with stats := { m.stats with
      recentBlocks := if recentBlocks.length > 10 then recentBlocks.take 10 else recentBlocks } }

def save (m : Master) : Master := { m with file := some (saveStats m.stats) }

/-- The share counters: for the auxiliary event only the entry is made. -/
def countShare (m : Master) (event : ShareEvent) : Master :=
  match event.chain with
  | .primary =>
      { m with stats := { m.stats with sharesValid := m.stats.sharesValid + 1 } }.increment
        event.address .valid
  | .auxiliary => m.ensureWorker event.address

def primaryBlock (now : Nat) (event : ShareEvent) : RecentBlock where
  chain := some .primary
  coin := some event.coin
  height := event.height
  hash := event.hash
  worker := event.address
  payout := some event.address
  time := now
  confirmed := event.accepted

def auxiliaryBlock (now : Nat) (event : ShareEvent) : RecentBlock where
  chain := some .auxiliary
  coin := some event.coin
  height := event.height
  hash := event.hash
  worker := event.address
  payout := event.addrAuxiliary
  time := now
  confirmed := event.accepted

/-- The branch on `isPrimaryBlock`. -/
def countPrimaryBlock (m : Master) (now : Nat) (event : ShareEvent) : Master :=
  if event.isPrimaryBlock then
    let m := { m with stats := { m.stats with
      blocksFound := m.stats.blocksFound + 1
      blocksConfirmed :=
        if event.accepted then m.stats.blocksConfirmed + 1 else m.stats.blocksConfirmed
      lastBlockTime := some now
      lastBlockHeight := event.height } }
    ((m.increment event.address .blocks).unshift (primaryBlock now event)).save
  else m

/-- The branch on `isAuxiliaryBlock`. -/
def countAuxiliaryBlock (m : Master) (now : Nat) (event : ShareEvent) : Master :=
  if event.isAuxiliaryBlock then
    let m := { m with stats := { m.stats with
      blocksFoundAuxiliary := some (m.stats.blocksFoundAuxiliary.getD 0 + 1)
      blocksConfirmedAuxiliary :=
        if event.accepted then some (m.stats.blocksConfirmedAuxiliary.getD 0 + 1)
        else m.stats.blocksConfirmedAuxiliary
      lastBlockAuxiliaryTime := some now
      lastBlockAuxiliaryHeight := event.height } }
    ((m.increment event.address .blocksAuxiliary).unshift (auxiliaryBlock now event)).save
  else m

/-- `handleStatsEvent`. -/
def handleStatsEvent (m : Master) (now : Nat) : StatsEvent → Master
  | .network .primary data => { m with stats := { m.stats with network := some data } }
  | .network .auxiliary data => { m with stats := { m.stats with networkAuxiliary := some data } }
  | .invalidShare address =>
      { m with stats := { m.stats with
        lastShareTime := some now
        sharesInvalid := m.stats.sharesInvalid + 1 } }.increment address .invalid
  | .validShare event =>
      let m := { m with stats := { m.stats with lastShareTime := some now } }
      ((m.countShare event).countPrimaryBlock now event).countAuxiliaryBlock now event

end Master

/-! ## The pool -/

/-- A result of `submitblock` or of `getauxblock`, from one daemon. -/
structure SubmitResult where
  error : Bool
  rejected : Bool
  deriving DecidableEq

inductive SubmitError where
  | rejected
  | orphan
  deriving DecidableEq

/-- A block as `getblock` answers it. -/
structure BlockReply where
  hash : Str
  confirmations : Int
  deriving DecidableEq

/-- The errors `submitPrimary` and `submitAuxiliary` call back with, one call after
the other; `none` is a call without an error, which is always the last. -/
def submitBlock (results : List SubmitResult) : List (Option SubmitError) :=
  let rejected := results.filter fun result => result.rejected
  let accepted := results.filter fun result => !result.error && !result.rejected
  (if rejected.length ≥ 1 then [some .rejected]
    else if accepted.length < 1 then [some .orphan] else []) ++ [none]

/-- An error is called back before the call that asks for the block. -/
theorem submitBlock_checks {α : Type} (results : List SubmitResult) (check : α) :
    (submitBlock results).filterMap (fun error => if error.isNone then some check else none)
      = [check] := by
  unfold submitBlock
  simp only
  split
  · rfl
  · split
    · rfl
    · rfl

/-- `checkAccepted`, on the replies of all daemons. -/
def checkAccepted (hash : Option Str) (results : List (Option BlockReply)) : Bool :=
  results.any fun response => response.any fun block =>
    decide (some block.hash = hash) && decide (block.confirmations ≥ 0)

/-- What a daemon has been asked about a block. -/
inductive Stage where
  | submitted
  | checked (hash : Option Str)
  deriving DecidableEq

/-- A call to a daemon whose callback has not run. -/
structure BlockCall where
  fork : Nat
  shareData : PoolShare
  stage : Stage
  deriving DecidableEq

/-- What `manager.share` is emitted with for a share that passed, and what
`checkAuxiliary` makes of it. -/
structure AcceptedShare where
  addrPrimary : Str
  addrAuxiliary : Option Str
  extraNonce2 : ExtraNonce2
  hash : Str
  height : Nat
  blockValid : Bool
  auxHeight : Nat
  auxBlockValid : Bool

def AcceptedShare.shareData (share : AcceptedShare) : PoolShare where
  addrPrimary := share.addrPrimary
  addrAuxiliary := share.addrAuxiliary
  blockType := if share.blockValid then .primary else .share
  extraNonce2 := some share.extraNonce2
  height := some share.height
  hash := some share.hash

def AcceptedShare.auxShareData (share : AcceptedShare) : PoolShare where
  addrPrimary := share.addrPrimary
  addrAuxiliary := share.addrAuxiliary
  blockType := .auxiliary
  extraNonce2 := none
  height := some share.auxHeight
  hash := some share.hash

/-- The data of `shareError`. -/
def rejectedShare (addrPrimary : Str) (addrAuxiliary : Option Str) : PoolShare where
  addrPrimary := addrPrimary
  addrAuxiliary := addrAuxiliary
  blockType := .share
  extraNonce2 := none
  height := none
  hash := none

/-- What becomes of a submission in `handleShare`.  Where it throws nothing is
emitted; the client catches the exception and is cut off. -/
inductive Handled where
  | thrown
  | rejected (addrPrimary : Str) (addrAuxiliary : Option Str)
  | accepted (share : AcceptedShare)

/-- All forks and the master.  Calls and messages are tagged with their fork.
`submissions` counts the calls of `handleShare`, `arrived` is every block event the
master has handled. -/
structure StatsPool where
  calls : List BlockCall
  sent : List (Nat × StatsEvent)
  master : Master
  submissions : Nat
  arrived : List RecentBlock

/-- A reply is for the `i`-th open call.  A daemon that is asked has at least one
instance; `auxHash` is the hash of the auxiliary block in force at the reply. -/
inductive Action where
  | share (fork : Nat) (handled : Handled)
  | network (fork : Nat) (chain : Chain) (data : NetworkData)
  | submitReply (i : Nat) (result : SubmitResult) (results : List SubmitResult)
      (auxHash : Option Str)
  | blockReply (i : Nat) (results : List (Option BlockReply))
  | receive (fork : Nat) (now : Nat)
  | save

/-- The first message of a fork, and the messages without it. -/
def takeFirst (fork : Nat) : List (Nat × StatsEvent) →
    Option (StatsEvent × List (Nat × StatsEvent))
  | [] => none
  | (sender, event) :: rest =>
      if sender = fork then some (event, rest)
      else (takeFirst fork rest).map fun found => (found.1, (sender, event) :: found.2)

theorem takeFirst_some {fork : Nat} {event : StatsEvent} :
    ∀ {sent rest : List (Nat × StatsEvent)}, takeFirst fork sent = some (event, rest) →
      ∃ front back, sent = front ++ (fork, event) :: back ∧ rest = front ++ back
  | [], rest, h => nomatch h
  | (sender, first) :: sent, rest, h => by
      unfold takeFirst at h
      split at h
      · rename_i hsender
        cases h
        exact ⟨[], sent, by rw [hsender]; rfl, rfl⟩
      · obtain ⟨⟨found, others⟩, hfound, hpair⟩ := Option.map_eq_some_iff.mp h
        cases hpair
        obtain ⟨front, back, hsent, hothers⟩ := takeFirst_some hfound
        exact ⟨(sender, first) :: front, back, by rw [hsent]; rfl, by rw [hothers]; rfl⟩

/-- The entries of `recentBlocks` an event is to make. -/
def blocksOf (now : Nat) : StatsEvent → List RecentBlock
  | .validShare event =>
      (if event.isPrimaryBlock then [Master.primaryBlock now event] else []) ++
        (if event.isAuxiliaryBlock then [Master.auxiliaryBlock now event] else [])
  | _ => []

namespace StatsPool

/-- The pool after the master has started. -/
def start (now : Nat) (file : Option StatsFile) : StatsPool where
  calls := []
  sent := []
  master := ⟨loadStats now file, none, file⟩
  submissions := 0
  arrived := []

def emit (s : StatsPool) (fork : Nat) (event : StatsEvent) : StatsPool :=
  { s with sent := s.sent ++ [(fork, event)] }

def submit (s : StatsPool) (fork : Nat) (shareData : PoolShare) : StatsPool :=
  { s with calls := s.calls ++ [⟨fork, shareData, .submitted⟩] }

section
variable (coins : Coins)

/-- `handlePrimary`, up to the daemon's reply; `none` if the listener of
`pool.share` throws. -/
def handlePrimary (s : StatsPool) (fork : Nat) (shareData : PoolShare)
    (shareValid blockValid : Bool) : Option StatsPool :=
  if blockValid then some (s.submit fork shareData)
  else (shareEvent coins shareData shareValid false).map (s.emit fork)

/-- The listener of `manager.share`.  What `pool.share` throws at once ends it, on
its way to the client that cuts the connection. -/
def managerShare (s : StatsPool) (fork : Nat) : Handled → StatsPool
  | .thrown => s
  | .rejected addrPrimary addrAuxiliary =>
      (s.handlePrimary coins fork (rejectedShare addrPrimary addrAuxiliary) false false).getD s
  | .accepted share =>
      match s.handlePrimary coins fork share.shareData true share.blockValid with
      | some s => if share.auxBlockValid then s.submit fork share.auxShareData else s
      | none => s

def step (s : StatsPool) : Action → Option StatsPool
  | .share fork handled =>
      some ({ s with submissions := s.submissions + 1 }.managerShare coins fork handled)
  | .network fork chain data => some (s.emit fork (.network chain data))
  | .submitReply i result results auxHash =>
      match s.calls[i]? with
      | some ⟨fork, shareData, .submitted⟩ =>
          let hash := if shareData.blockType = .auxiliary then auxHash else shareData.hash
          -- an error is logged, every other call asks for the block
          let checks := (submitBlock (result :: results)).filterMap fun error =>
            if error.isNone then some ⟨fork, shareData, .checked hash⟩ else none
          some { s with calls := s.calls.eraseIdx i ++ checks }
      | _ => none
  | .blockReply i results =>
      match s.calls[i]? with
      | some ⟨fork, shareData, .checked hash⟩ =>
          let s := { s with calls := s.calls.eraseIdx i }
          -- what the listener throws here is caught around the daemon's callback
          some ((shareEvent coins shareData true (checkAccepted hash results)).elim s (s.emit fork))
      | _ => none
  | .receive fork now =>
      (takeFirst fork s.sent).map fun found => { s with
        sent := found.2
        master := s.master.handleStatsEvent now found.1
        arrived := s.arrived ++ blocksOf now found.1 }
  | .save => some { s with master := s.master.save }

end

/-- All callbacks have returned and all messages have arrived. -/
def Quiet (s : StatsPool) : Prop := s.calls = [] ∧ s.sent = []

end StatsPool

end PoolStats

end DogeConnect
