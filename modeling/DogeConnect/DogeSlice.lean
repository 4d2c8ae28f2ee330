/-
`dogeSlice` of the stats worker, over what the pool servers serve under `/stats`.

The worker reads the statistics of DOGE out of a JSON object that does not say in
one place which chain is which.  It takes the auxiliary chain where that is DOGE and
the primary chain everywhere else, also where that is LTC; and it takes an entry
without tags, which a solo DOGE instance has written, for one of the primary chain:

    dogeSlice_primary, dogeSlice_auxiliary   what it makes of the two cases
    written_handleStatsEvent                 what the servers put into `recentBlocks`
    dogeSlice_doge_iff                       when the slice is about DOGE
    dogeSlice_not_always                     LTC published as DOGE, and DOGE dropped

An absent member is `null` here, which no test of the worker tells from `undefined`.
-/
import DogeConnect.Json
import DogeConnect.PoolStats

namespace DogeConnect

namespace DogeSlice

open PoolStats

/-! ## Values of JavaScript -/

def truthy : Json → Bool
  | .null => false
  | .boolean b => b
  | .unsigned n => decide (n ≠ 0)
  | .integer i => decide (i ≠ 0)
  | .float q => decide (q ≠ 0)
  | .string s => !s.isEmpty
  | .array _ => true
  | .object _ => true

/-- `v || w`. -/
def orElse (v w : Json) : Json := if truthy v then v else w

/-- `v && w`. -/
def andThen (v w : Json) : Json := if truthy v then w else v

/-- `v ?? w`. -/
def coalesce (v w : Json) : Json := if v.isNull then w else v

/-- `v.key`, where `v` is not null. -/
def prop (v : Json) (key : Str) : Json :=
  match v with
  | .object fields => (Json.find? fields key).getD .null
  | _ => .null

/-! ## The servers -/

inductive Server where
  | dogecoin
  | litecoin
  deriving DecidableEq, Repr

structure AuxiliaryConfig where
  enabled : Bool
  /-- `coin.symbol`. -/
  symbol : Option Str
  deriving DecidableEq, Repr

structure ServerConfig where
  /-- `primary.coin.symbol`. -/
  primarySymbol : Option Str
  auxiliary : Option AuxiliaryConfig
  deriving DecidableEq, Repr

namespace ServerConfig

def priCoin (config : ServerConfig) : Str :=
  (config.primarySymbol.filter fun symbol => !symbol.isEmpty).getD "PRI".toList

/-- `auxCoin`; `auxEnabled` is whether there is one. -/
def auxCoin (config : ServerConfig) : Option Str :=
  (config.auxiliary.filter AuxiliaryConfig.enabled).map fun auxiliary =>
    (auxiliary.symbol.filter fun symbol => !symbol.isEmpty).getD "AUX".toList

end ServerConfig

def chainName : Chain → Str
  | .primary => "primary".toList
  | .auxiliary => "auxiliary".toList

def number : Option Nat → Json
  | none => .null
  | some n => .unsigned n

def text : Option Str → Json
  | none => .null
  | some s => .string s

/-- `v || null` of a number. -/
def orNull (v : Option ℚ) : Json := ((v.filter (· ≠ 0)).map Json.float).getD .null

section
variable (isoTime : Nat → Str)

/-- An entry of `recentBlocks`; those without tags have no payout either. -/
def recentJson (b : RecentBlock) : Json :=
  .object <|
    (b.chain.map fun chain => ("chain".toList, Json.string (chainName chain))).toList ++
    (b.coin.map fun coin => ("coin".toList, Json.string coin)).toList ++
    [("height".toList, number b.height), ("hash".toList, text b.hash),
      ("worker".toList, .string b.worker)] ++
    (b.chain.map fun _ => ("payout".toList, text b.payout)).toList ++
    [("time".toList, .string (isoTime b.time)), ("confirmed".toList, .boolean b.confirmed)]

/-- A last block, where its time is truthy. -/
def lastBlockJson (coin : Str) (time height : Option Nat) : Json :=
  match time.filter (· ≠ 0) with
  | none => .null
  | some time => .object [("coin".toList, .string coin), ("time".toList, .string (isoTime time)),
      ("height".toList, number height)]

def chainsJson (config : ServerConfig) : Json :=
  .object <| ("primary".toList, .string config.priCoin) ::
    (config.auxCoin.map fun auxCoin => ("auxiliary".toList, Json.string auxCoin)).toList

def networkJson (coin : Str) (network : Option NetworkData) : Json :=
  .object [("coin".toList, .string coin),
    ("difficulty".toList, orNull (network.map NetworkData.difficulty)),
    ("hashrate".toList, orNull (network.map NetworkData.hashrate))]

def heightJson (network : Option NetworkData) : Json :=
  number ((network.map NetworkData.height).filter (· ≠ 0))

def sharesJson (stats : Stats) (perMinute : ℚ) : Json :=
  .object [("valid".toList, .unsigned stats.sharesValid),
    ("invalid".toList, .unsigned stats.sharesInvalid), ("perMinute".toList, .float perMinute)]

def workersJson (workers : Workers) : Json :=
  .object <| workers.entries.map fun entry => (entry.1, .object <|
    [("valid".toList, .unsigned entry.2.valid), ("invalid".toList, .unsigned entry.2.invalid),
      ("blocks".toList, .unsigned entry.2.blocks)] ++
    (entry.2.blocksAuxiliary.map fun n => ("blocksAuxiliary".toList, Json.unsigned n)).toList)

/-- `lastShareTime`, where it is truthy. -/
def lastShareJson (stats : Stats) : Json :=
  text ((stats.lastShareTime.filter (· ≠ 0)).map isoTime)

def auxiliaryOf (config : ServerConfig) (v : Str → Json) : Json :=
  (config.auxCoin.map v).getD .null

/-- The object `setupStatsServer` of the merged pool serves. -/
def litecoinData (config : ServerConfig) (stats : Stats) (uptime : Nat) (perMinute : ℚ) : Json :=
  let priCoin := config.priCoin
  .object [
    ("uptime".toList, .unsigned uptime),
    ("chains".toList, chainsJson config),
    ("currentHeight".toList, heightJson stats.network),
    ("currentHeightAuxiliary".toList,
      auxiliaryOf config fun _ => heightJson stats.networkAuxiliary),
    ("network".toList, .object [
      ("primary".toList, networkJson priCoin stats.network),
      ("auxiliary".toList, auxiliaryOf config fun auxCoin =>
        networkJson auxCoin stats.networkAuxiliary)]),
    ("shares".toList, sharesJson stats perMinute),
    ("blocks".toList, .object [
      ("primary".toList, .object [("coin".toList, .string priCoin),
        ("found".toList, .unsigned stats.blocksFound),
        ("confirmed".toList, .unsigned stats.blocksConfirmed)]),
      ("auxiliary".toList, auxiliaryOf config fun auxCoin => .object [
        ("coin".toList, .string auxCoin),
        ("found".toList, .unsigned (stats.blocksFoundAuxiliary.getD 0)),
        ("confirmed".toList, .unsigned (stats.blocksConfirmedAuxiliary.getD 0))]),
      ("found".toList, .unsigned stats.blocksFound),
      ("confirmed".toList, .unsigned stats.blocksConfirmed)]),
    ("lastShare".toList, lastShareJson isoTime stats),
    ("lastBlock".toList, lastBlockJson isoTime priCoin stats.lastBlockTime stats.lastBlockHeight),
    ("lastBlockAuxiliary".toList, auxiliaryOf config fun auxCoin =>
      lastBlockJson isoTime auxCoin stats.lastBlockAuxiliaryTime stats.lastBlockAuxiliaryHeight),
    ("recentBlocks".toList, .array (stats.recentBlocks.map (recentJson isoTime))),
    ("workers".toList, workersJson stats.workers)]

/-- The object `setupStatsServer` of the solo pool serves. -/
def dogecoinData (config : ServerConfig) (stats : Stats) (uptime : Nat) (perMinute : ℚ) : Json :=
  let priCoin := config.priCoin
  .object [
    ("uptime".toList, .unsigned uptime),
    ("chains".toList, chainsJson config),
    ("currentHeight".toList, heightJson stats.network),
    ("currentHeightAuxiliary".toList,
      auxiliaryOf config fun _ => heightJson stats.networkAuxiliary),
    ("network".toList, .object [
      ("primary".toList, networkJson priCoin stats.network),
      ("auxiliary".toList, auxiliaryOf config fun auxCoin =>
        networkJson auxCoin stats.networkAuxiliary)]),
    ("shares".toList, sharesJson stats perMinute),
    ("blocks".toList, .object [
      ("found".toList, .unsigned stats.blocksFound),
      ("confirmed".toList, .unsigned stats.blocksConfirmed)]),
    ("lastShare".toList, lastShareJson isoTime stats),
    ("lastBlock".toList, lastBlockJson isoTime priCoin stats.lastBlockTime stats.lastBlockHeight),
    ("recentBlocks".toList, .array (stats.recentBlocks.map (recentJson isoTime))),
    ("workers".toList, workersJson stats.workers)]

def statsData : Server → ServerConfig → Stats → Nat → ℚ → Json
  | .dogecoin => dogecoinData isoTime
  | .litecoin => litecoinData isoTime

end

/-! ## The worker -/

structure Slice where
  found : Json
  confirmed : Json
  lastBlock : Json
  recent : List Json

/-- The filter on `recentBlocks`. -/
def keepsBlock (isAuxDoge : Bool) (b : Json) : Bool :=
  if truthy b then
    if truthy (prop b "coin".toList) then (prop b "coin".toList).eqString "DOGE".toList
    else if isAuxDoge then (prop b "chain".toList).eqString "auxiliary".toList
    else !truthy (prop b "chain".toList) || (prop b "chain".toList).eqString "primary".toList
  else false

/-- `none` where it throws: members of `null` are read without a guard. -/
def dogeSlice (pool : Json) : Option Slice :=
  let chains := andThen pool (prop pool "chains".toList)
  let isAuxDoge := truthy chains && (prop chains "auxiliary".toList).eqString "DOGE".toList
  let blocks := orElse (andThen pool (prop pool "blocks".toList)) (.object [])
  let recent := match andThen pool (prop pool "recentBlocks".toList) with
    | .array recent => recent
    | _ => []
  let dogeRecent := recent.filter (keepsBlock isAuxDoge)
  if isAuxDoge then
    let auxiliary := prop blocks "auxiliary".toList
    some {
      found := orElse (andThen auxiliary (prop auxiliary "found".toList)) (.unsigned 0)
      confirmed := orElse (andThen auxiliary (prop auxiliary "confirmed".toList)) (.unsigned 0)
      lastBlock := orElse (prop pool "lastBlockAuxiliary".toList) .null
      recent := dogeRecent }
  else if pool.isNull then none
  else
    let primary := prop blocks "primary".toList
    some {
      found := coalesce (andThen primary (prop primary "found".toList))
        (coalesce (prop blocks "found".toList)
          (coalesce (prop pool "blocksFound".toList) (.unsigned 0)))
      confirmed := coalesce (andThen primary (prop primary "confirmed".toList))
        (coalesce (prop blocks "confirmed".toList)
          (coalesce (prop pool "blocksConfirmed".toList) (.unsigned 0)))
      lastBlock := orElse (prop pool "lastBlock".toList)
        (if truthy (prop pool "lastBlockHeight".toList) then
          .object [("height".toList, prop pool "lastBlockHeight".toList),
            ("time".toList, prop pool "lastBlockTime".toList)]
        else .null)
      recent := dogeRecent }

/-! ## What is about DOGE -/

def DOGE : Str := "DOGE".toList

def LTC : Str := "LTC".toList

/-- The ways the servers are deployed. -/
inductive Deployed : Server → ServerConfig → Prop
  /-- DOGE is mined alone. -/
  | solo {server : Server} {config : ServerConfig} (hprimary : config.priCoin = DOGE)
      (hauxiliary : config.auxCoin = none) : Deployed server config
  /-- LTC with DOGE. -/
  | merged {config : ServerConfig} (hprimary : config.priCoin = LTC)
      (hauxiliary : config.auxCoin = some DOGE) : Deployed .litecoin config
  /-- LTC, and the auxiliary chain is disabled. -/
  | parentOnly {server : Server} {config : ServerConfig} (hprimary : config.priCoin = LTC)
      (hauxiliary : config.auxCoin = none) : Deployed server config

/-- The chain DOGE is mined on. -/
def dogeChain (config : ServerConfig) : Option Chain :=
  if config.auxCoin = some DOGE then some .auxiliary
  else if config.priCoin = DOGE then some .primary
  else none

/-- Entries have both tags, the coin not being empty, or none; those are from a solo DOGE
instance. -/
inductive Written (b : RecentBlock) : Prop
  | untagged (hchain : b.chain = none) (hcoin : b.coin = none)
  | tagged (chain : Chain) (coin : Str) (hchain : b.chain = some chain)
      (hcoin : b.coin = some coin) (hne : coin ≠ [])

def isDoge (b : RecentBlock) : Bool :=
  match b.coin with
  | some coin => decide (coin = DOGE)
  | none => true

/-- The statistics of DOGE. -/
def dogeOf (isoTime : Nat → Str) (config : ServerConfig) (stats : Stats) : Slice :=
  let recent := (stats.recentBlocks.filter isDoge).map (recentJson isoTime)
  match dogeChain config with
  | some .primary =>
    ⟨.unsigned stats.blocksFound, .unsigned stats.blocksConfirmed,
      lastBlockJson isoTime DOGE stats.lastBlockTime stats.lastBlockHeight, recent⟩
  | some .auxiliary =>
    ⟨.unsigned (stats.blocksFoundAuxiliary.getD 0),
      .unsigned (stats.blocksConfirmedAuxiliary.getD 0),
      lastBlockJson isoTime DOGE stats.lastBlockAuxiliaryTime stats.lastBlockAuxiliaryHeight,
      recent⟩
  | none => ⟨.unsigned 0, .unsigned 0, .null, recent⟩

/-- With DOGE on the auxiliary chain no entry is without tags; without DOGE nothing was found
on the primary chain. -/
def OnlyDoge (config : ServerConfig) (stats : Stats) : Prop :=
  match dogeChain config with
  | some .primary => True
  | some .auxiliary => ∀ b ∈ stats.recentBlocks, b.coin ≠ none
  | none => stats.blocksFound = 0 ∧ stats.blocksConfirmed = 0 ∧
      stats.lastBlockTime.filter (· ≠ 0) = none

/-! ## Entries -/

variable {isoTime : Nat → Str}

theorem prop_coin (b : RecentBlock) : prop (recentJson isoTime b) "coin".toList = text b.coin := by
  obtain ⟨chain, coin, height, hash, worker, payout, time, confirmed⟩ := b
  cases chain <;> cases coin <;> rfl

theorem prop_chain (b : RecentBlock) :
    prop (recentJson isoTime b) "chain".toList = text (b.chain.map chainName) := by
  obtain ⟨chain, coin, height, hash, worker, payout, time, confirmed⟩ := b
  cases chain <;> cases coin <;> rfl

/-- What the worker keeps of what the servers write. -/
def keeps (isAuxDoge : Bool) (b : RecentBlock) : Bool :=
  match b.coin with
  | some coin => decide (coin = DOGE)
  | none => !isAuxDoge

theorem keepsBlock_written {b : RecentBlock} (h : Written b) (isAuxDoge : Bool) :
    keepsBlock isAuxDoge (recentJson isoTime b) = keeps isAuxDoge b := by
  rw [keepsBlock, prop_coin, prop_chain]
  cases h with
  | untagged hchain hcoin =>
      rw [hchain, hcoin, keeps, hcoin]
      cases isAuxDoge <;> rfl
  | tagged chain coin hchain hcoin hne =>
      have hcoin' : truthy (.string coin) = true := by
        cases coin with
        | nil => exact absurd rfl hne
        | cons c coin => rfl
      rw [hcoin, keeps, hcoin, text, if_pos hcoin']
      rfl

theorem recent_written (isoTime : Nat → Str) {blocks : List RecentBlock} (h : ∀ b ∈ blocks, Written b)
    (isAuxDoge : Bool) :
    (blocks.map (recentJson isoTime)).filter (keepsBlock isAuxDoge)
      = (blocks.filter (keeps isAuxDoge)).map (recentJson isoTime) := by
  rw [List.filter_map]
  congr 1
  exact List.filter_congr fun b hb => keepsBlock_written (h b hb) isAuxDoge

/-! ## What the worker makes of the deployments -/

@[simp] theorem orElse_unsigned (n : Nat) : orElse (.unsigned n) (.unsigned 0) = .unsigned n := by
  cases n <;> rfl

/-- A last block is an object or `null`. -/
theorem orElse_lastBlock (isoTime : Nat → Str) (coin : Str) (time height : Option Nat) :
    orElse (lastBlockJson isoTime coin time height) .null
      = lastBlockJson isoTime coin time height := by
  rw [lastBlockJson]
  split <;> rfl

theorem dogeSlice_primary {server : Server} {config : ServerConfig} {stats : Stats} {uptime : Nat}
    {perMinute : ℚ} (hauxiliary : config.auxCoin = none)
    (hhistory : ∀ b ∈ stats.recentBlocks, Written b) :
    dogeSlice (statsData isoTime server config stats uptime perMinute) = some
      ⟨.unsigned stats.blocksFound, .unsigned stats.blocksConfirmed,
        lastBlockJson isoTime config.priCoin stats.lastBlockTime stats.lastBlockHeight,
        (stats.recentBlocks.filter isDoge).map (recentJson isoTime)⟩ := by
  have hrecent := recent_written isoTime hhistory false
  have hlast := orElse_lastBlock isoTime config.priCoin stats.lastBlockTime
    stats.lastBlockHeight
  have hchains : chainsJson config = .object [("primary".toList, .string config.priCoin)] := by
    rw [chainsJson, hauxiliary]
    rfl
  have hdata : dogeSlice (statsData isoTime server config stats uptime perMinute) = some
      ⟨.unsigned stats.blocksFound, .unsigned stats.blocksConfirmed,
        orElse (lastBlockJson isoTime config.priCoin stats.lastBlockTime stats.lastBlockHeight)
          .null,
        (stats.recentBlocks.map (recentJson isoTime)).filter (keepsBlock false)⟩ := by
    cases server with
    | dogecoin =>
        rw [statsData, dogecoinData, hchains]
        rfl
    | litecoin =>
        rw [statsData, litecoinData, hchains]
        rfl
  rw [hdata, hlast, hrecent]
  rfl

theorem dogeSlice_auxiliary {config : ServerConfig} {stats : Stats} {uptime : Nat}
    {perMinute : ℚ} (hauxiliary : config.auxCoin = some DOGE)
    (hhistory : ∀ b ∈ stats.recentBlocks, Written b) :
    dogeSlice (litecoinData isoTime config stats uptime perMinute) = some
      ⟨.unsigned (stats.blocksFoundAuxiliary.getD 0),
        .unsigned (stats.blocksConfirmedAuxiliary.getD 0),
        lastBlockJson isoTime DOGE stats.lastBlockAuxiliaryTime stats.lastBlockAuxiliaryHeight,
        (stats.recentBlocks.filter (keeps true)).map (recentJson isoTime)⟩ := by
  have hchains : chainsJson config = .object [("primary".toList, .string config.priCoin),
      ("auxiliary".toList, .string DOGE)] := by
    rw [chainsJson, hauxiliary]
    rfl
  have hvalue : ∀ v : Str → Json, auxiliaryOf config v = v DOGE := fun v => by
    rw [auxiliaryOf, hauxiliary]
    rfl
  have hdata : dogeSlice (litecoinData isoTime config stats uptime perMinute) = some
      ⟨orElse (.unsigned (stats.blocksFoundAuxiliary.getD 0)) (.unsigned 0),
        orElse (.unsigned (stats.blocksConfirmedAuxiliary.getD 0)) (.unsigned 0),
        orElse (lastBlockJson isoTime DOGE stats.lastBlockAuxiliaryTime
          stats.lastBlockAuxiliaryHeight) .null,
        (stats.recentBlocks.map (recentJson isoTime)).filter (keepsBlock true)⟩ := by
    rw [litecoinData, hchains, hvalue, hvalue, hvalue, hvalue]
    rfl
  rw [hdata, orElse_unsigned, orElse_unsigned, orElse_lastBlock, recent_written isoTime hhistory true]

/-! ## What the servers write -/

/-- The entry of the solo pool. -/
def soloBlock (now : Nat) (height : Option Nat) (hash : Option Str) (address : Str)
    (accepted : Bool) : RecentBlock :=
  ⟨none, none, height, hash, address, none, now, accepted⟩

theorem written_soloBlock (now : Nat) (height : Option Nat) (hash : Option Str) (address : Str)
    (accepted : Bool) : Written (soloBlock now height hash address accepted) :=
  .untagged rfl rfl

theorem recentBlocks_ensureWorker (m : Master) (addr : Str) :
    (m.ensureWorker addr).stats.recentBlocks = m.stats.recentBlocks := by
  rw [Master.ensureWorker]
  split
  · split <;> rfl
  · split
    · rfl
    · split <;> rfl

theorem recentBlocks_increment (m : Master) (addr : Str) (counter : Counter) :
    (m.increment addr counter).stats.recentBlocks = m.stats.recentBlocks := by
  rw [← recentBlocks_ensureWorker m addr, Master.increment]
  split
  · rfl
  · split <;> rfl

theorem written_unshift {m : Master} {block : RecentBlock} (hblock : Written block)
    (h : ∀ b ∈ m.stats.recentBlocks, Written b) :
    ∀ b ∈ (m.unshift block).stats.recentBlocks, Written b := by
  have hcons : ∀ b ∈ block :: m.stats.recentBlocks, Written b :=
    List.forall_mem_cons.mpr ⟨hblock, h⟩
  rw [Master.unshift]
  split
  · exact fun b hb => hcons b (List.mem_of_mem_take hb)
  · exact hcons

theorem recentBlocks_countShare (m : Master) (event : ShareEvent) :
    (m.countShare event).stats.recentBlocks = m.stats.recentBlocks := by
  rw [Master.countShare]
  split
  · exact recentBlocks_increment _ _ _
  · exact recentBlocks_ensureWorker _ _

theorem written_countPrimaryBlock {m : Master} (h : ∀ b ∈ m.stats.recentBlocks, Written b)
    (now : Nat) {event : ShareEvent} (hcoin : event.coin ≠ []) :
    ∀ b ∈ (m.countPrimaryBlock now event).stats.recentBlocks, Written b := by
  rw [Master.countPrimaryBlock]
  split
  · refine written_unshift (.tagged .primary event.coin rfl rfl hcoin) ?_
    rw [recentBlocks_increment]
    exact h
  · exact h

theorem written_countAuxiliaryBlock {m : Master} (h : ∀ b ∈ m.stats.recentBlocks, Written b)
    (now : Nat) {event : ShareEvent} (hcoin : event.coin ≠ []) :
    ∀ b ∈ (m.countAuxiliaryBlock now event).stats.recentBlocks, Written b := by
  rw [Master.countAuxiliaryBlock]
  split
  · refine written_unshift (.tagged .auxiliary event.coin rfl rfl hcoin) ?_
    rw [recentBlocks_increment]
    exact h
  · exact h

/-- The merged pool's events keep the history one of entries with both tags or without. -/
theorem written_handleStatsEvent {m : Master} (h : ∀ b ∈ m.stats.recentBlocks, Written b)
    (now : Nat) {event : StatsEvent}
    (hcoin : ∀ share, event = .validShare share → share.coin ≠ []) :
    ∀ b ∈ (m.handleStatsEvent now event).stats.recentBlocks, Written b := by
  cases event with
  | network chain data => cases chain <;> exact h
  | invalidShare address =>
      rw [Master.handleStatsEvent, recentBlocks_increment]
      exact h
  | validShare share =>
      have hne := hcoin share rfl
      refine written_countAuxiliaryBlock (written_countPrimaryBlock ?_ now hne) now hne
      rw [recentBlocks_countShare]
      exact h

theorem written_shareEvent {coins : Coins} (hprimary : coins.primarySymbol ≠ [])
    (haux : coins.auxSymbol ≠ []) (shareData : PoolShare) (shareValid accepted : Bool)
    (share : ShareEvent)
    (h : shareEvent coins shareData shareValid accepted = some (.validShare share)) :
    share.coin ≠ [] := by
  rw [shareEvent] at h
  split at h
  · cases h
  · split at h
    · cases h
      dsimp only
      split
      · exact haux
      · exact hprimary
    · cases h

/-! ## When that is about DOGE -/

theorem recent_doge_iff {blocks : List RecentBlock} :
    (blocks.filter (keeps true)).map (recentJson isoTime)
        = (blocks.filter isDoge).map (recentJson isoTime) ↔
      ∀ b ∈ blocks, b.coin ≠ none := by
  constructor
  · intro h b hb hcoin
    have hkept : (blocks.filter isDoge).filter (keeps true) = blocks.filter (keeps true) := by
      rw [List.filter_filter]
      refine List.filter_congr fun b _ => ?_
      rw [keeps, isDoge]
      cases b.coin with
      | none => rfl
      | some coin => exact Bool.and_self _
    have hlength := congrArg List.length h
    rw [List.length_map, List.length_map, ← hkept] at hlength
    have hall := List.filter_eq_self.mp (List.filter_sublist.eq_of_length hlength)
    have hdoge : b ∈ blocks.filter isDoge := List.mem_filter.mpr ⟨hb, by rw [isDoge, hcoin]⟩
    have hkeeps := hall b hdoge
    rw [keeps, hcoin] at hkeeps
    cases hkeeps
  · intro h
    congr 1
    refine List.filter_congr fun b hb => ?_
    rw [keeps, isDoge]
    cases hcoin : b.coin with
    | none => exact absurd hcoin (h b hb)
    | some coin => rfl

theorem lastBlockJson_eq_null_iff (coin : Str) (time height : Option Nat) :
    lastBlockJson isoTime coin time height = .null ↔ time.filter (· ≠ 0) = none := by
  rw [lastBlockJson]
  cases time.filter (· ≠ 0) with
  | none => exact iff_of_true rfl rfl
  | some time => exact iff_of_false nofun nofun

/-- Over everything the servers serve where they are deployed, the worker's slice is about DOGE
just where the history and the counters are. -/
theorem dogeSlice_doge_iff (isoTime : Nat → Str) (server : Server) (config : ServerConfig)
    (stats : Stats) (uptime : Nat) (perMinute : ℚ) (hdeployed : Deployed server config)
    (hhistory : ∀ b ∈ stats.recentBlocks, Written b) :
    dogeSlice (statsData isoTime server config stats uptime perMinute)
        = some (dogeOf isoTime config stats) ↔
      OnlyDoge config stats := by
  cases hdeployed with
  | solo hprimary hauxiliary =>
      have hchain : dogeChain config = some .primary := by
        rw [dogeChain, hauxiliary, hprimary]
        rfl
      rw [dogeSlice_primary hauxiliary hhistory, hprimary, dogeOf, OnlyDoge, hchain]
      exact iff_of_true rfl trivial
  | merged hprimary hauxiliary =>
      have hchain : dogeChain config = some .auxiliary := by
        rw [dogeChain, hauxiliary]
        rfl
      rw [statsData, dogeSlice_auxiliary hauxiliary hhistory, dogeOf, OnlyDoge, hchain]
      simp only [Option.some.injEq, Slice.mk.injEq, true_and]
      exact recent_doge_iff
  | parentOnly hprimary hauxiliary =>
      have hchain : dogeChain config = none := by
        rw [dogeChain, hauxiliary, hprimary]
        decide
      rw [dogeSlice_primary hauxiliary hhistory, dogeOf, OnlyDoge, hchain]
      simp only [Option.some.injEq, Slice.mk.injEq, Json.unsigned.injEq, and_true,
        lastBlockJson_eq_null_iff]

def mergedConfig : ServerConfig := ⟨some LTC, some ⟨true, some DOGE⟩⟩

def parentOnlyConfig : ServerConfig := ⟨some LTC, some ⟨false, some DOGE⟩⟩

/-- Counters of a pool that has found two blocks of LTC and one of DOGE. -/
def figures : Figures :=
  { Figures.fresh with
    blocksFound := 2, blocksConfirmed := 1, lastBlockTime := some 5, lastBlockHeight := some 9,
    blocksFoundAuxiliary := some 1, lastBlockAuxiliaryTime := some 7,
    lastBlockAuxiliaryHeight := some 11 }

def statsWith (blocks : List RecentBlock) : Stats :=
  { figures with startTime := 0, recentBlocks := blocks, workers := ∅ }

def ltcBlock : RecentBlock :=
  ⟨some .primary, some LTC, some 9, none, "w".toList, some "w".toList, 5, true⟩

def dogeBlock : RecentBlock :=
  ⟨some .auxiliary, some DOGE, some 11, none, "w".toList, none, 7, false⟩

def untaggedBlock : RecentBlock := soloBlock 3 (some 4) none "w".toList true

theorem merged_doge :
    dogeSlice (statsData (fun _ => []) .litecoin mergedConfig (statsWith [dogeBlock, ltcBlock]) 60 2)
      = some (dogeOf (fun _ => []) mergedConfig (statsWith [dogeBlock, ltcBlock])) :=
  (dogeSlice_doge_iff (fun _ => []) .litecoin mergedConfig (statsWith [dogeBlock, ltcBlock]) 60 2
    (.merged rfl rfl) (List.forall_mem_cons.mpr
      ⟨.tagged .auxiliary DOGE rfl rfl (by decide), List.forall_mem_cons.mpr
        ⟨.tagged .primary LTC rfl rfl (by decide), nofun⟩⟩)).mpr
    (List.forall_mem_cons.mpr ⟨nofun, List.forall_mem_cons.mpr ⟨nofun, nofun⟩⟩)

/-- LTC counters are published as those of DOGE, and an untagged DOGE block is dropped. -/
theorem dogeSlice_not_always :
    Deployed .litecoin parentOnlyConfig ∧ Deployed .litecoin mergedConfig ∧
    (∃ slice, dogeSlice (statsData (fun _ => []) .litecoin parentOnlyConfig (statsWith []) 60 2)
        = some slice ∧ slice.found = .unsigned 2 ∧
      (dogeOf (fun _ => []) parentOnlyConfig (statsWith [])).found = .unsigned 0) ∧
    ∃ slice, dogeSlice (statsData (fun _ => []) .litecoin mergedConfig (statsWith [untaggedBlock])
        60 2) = some slice ∧ slice.recent = [] ∧
      (dogeOf (fun _ => []) mergedConfig (statsWith [untaggedBlock])).recent
        = [recentJson (fun _ => []) untaggedBlock] :=
  ⟨.parentOnly rfl rfl, .merged rfl rfl, ⟨_, rfl, rfl, rfl⟩, ⟨_, rfl, rfl, rfl⟩⟩

end DogeSlice

end DogeConnect
