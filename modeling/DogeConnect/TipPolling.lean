/-
Polling for the tip of the primary chain.

`handlePrimaryBlockPolling` asks for the tip, and where it changed for a
template.  `checkPrimaryTemplate` saves the tip it was told before the template
has come, so a tip is reported as changed once.

    safe_step         a fetch that brings the tip's template keeps every saved
                      tip installed
    lost_of_saved     a saved tip that is not installed is never fetched again
    tip_not_lost      along whole runs, both ways

A ghost list records the templates `Manager.handleTemplate` has installed: those it
returned `true` for.  A template whose constructor throws is not, nor is one that is not
told to every client, since it does not become a valid job.
-/
import DogeConnect.PoolServer
import DogeConnect.Lib.Run

namespace DogeConnect

open PoolServer

/-- The reply a poll waits for. -/
inductive TipPhase where
  | idle
  | info
  | template
  deriving DecidableEq

/-- `installed` is the ghost: height and previous block of each template. -/
structure TipPolling where
  pollingFlag : Bool
  phase : TipPhase
  pool : PoolState
  installed : List (Nat × Str)

/-- `elsewhere` is a reply to `handlePrimaryTemplate` called for the first job or
for a `hashblock` message, `auxiliary` one to `handleAuxiliaryTemplate`.  A template comes while
`clients` are on the list of the network, at `now` in milliseconds. -/
inductive TipEvent where
  | tick
  | info (reply : Reply Tip)
  | template (reply : Reply BlockTemplate) (clients : List PoolServer.Client) (now : Nat)
  | timeout (reply : Reply BlockTemplate) (clients : List PoolServer.Client) (now : Nat)
  | auxiliary (reply : Reply AuxBlock)
  | elsewhere (newBlock newBroadcast : Bool) (reply : Reply BlockTemplate)
      (clients : List PoolServer.Client) (now : Nat)

namespace TipPolling

def start : TipPolling := ⟨false, .idle, .initial, []⟩

/-- `handlePrimaryTemplate`, with the ghost, and whether its callback is called. -/
def fetched (config : ServerConfig) (s : TipPolling) (newBlock newBroadcast : Bool)
    (clients : List PoolServer.Client) (now : Nat) (reply : Reply BlockTemplate) :
    TipPolling × Bool :=
  let handled := s.pool.handlePrimaryTemplate config.pool newBlock newBroadcast (now / 1000)
    (config.emits clients now) reply
  match reply, handled.2 with
  | .success block, some (.success true) =>
      ({ s with
        pool := handled.1
        installed := (block.height, block.rpcData.previousblockhash) :: s.installed }, true)
  | _, some _ => ({ s with pool := handled.1 }, true)
  | _, none => ({ s with pool := handled.1 }, false)

def handlePrimaryBlockPolling (config : ServerConfig) (s : TipPolling) (e : TipEvent) :
    Option TipPolling :=
  match s.phase, e with
  | _, .tick => if s.pollingFlag then some s else some { s with pollingFlag := true, phase := .info }
  | .info, .info reply =>
      match s.pool.checkPrimaryTemplate false reply with
      | (pool, .success true) => some { s with phase := .template, pool := pool }
      | (pool, _) => some { s with pollingFlag := false, phase := .idle, pool := pool }
  | .template, .template reply clients now =>
      match s.fetched config false true clients now reply with
      | (s, true) => some { s with pollingFlag := false, phase := .idle }
      -- the callback that clears the flag is not called
      | (s, false) => some { s with phase := .idle }
  | _, .timeout reply clients now =>
      let fetched := (s.fetched config false true clients now reply).1
      let pool := s.pool.handleTimeout config.pool (now / 1000) (config.emits clients now) reply
      some { fetched with pool := pool }
  | _, .auxiliary reply => some { s with pool := (s.pool.handleAuxiliaryTemplate reply).1 }
  | _, .elsewhere newBlock newBroadcast reply clients now =>
      some (s.fetched config newBlock newBroadcast clients now reply).1
  | _, _ => none

/-- A template on top of a tip. -/
def ForTip (tip : Tip) (block : BlockTemplate) : Prop :=
  block.height = tip.blocks + 1 ∧ block.rpcData.previousblockhash = tip.bestblockhash

def Installed (s : TipPolling) (tip : Tip) : Prop :=
  (tip.blocks + 1, tip.bestblockhash) ∈ s.installed

/-- A poll of the same tip fetches a template, if the tip was observed and has none yet, and
the template is installed if nothing about it throws. -/
def Recoverable (config : ServerConfig) (s : TipPolling) : Prop :=
  s.phase = .idle → ∀ tip, s.pool.primary = some tip → ¬ Installed s tip →
    ∃ s', Run.exec (handlePrimaryBlockPolling config) s [.tick, .info (.success tip)] = some s' ∧
      s'.phase = .template ∧
      ∀ block clients now, ForTip tip block → HandedOut config s'.pool clients now block →
        ∃ s'', handlePrimaryBlockPolling config s' (.template (.success block) clients now)
          = some s'' ∧ Installed s'' tip

/-- The fetch after a change brings a template for the tip which `handleTemplate`
takes, builds and hands out, unless the tip has one. -/
def Fetched (config : ServerConfig) (s : TipPolling) : TipEvent → Prop
  | .template reply clients now => ∀ tip, s.pool.primary = some tip → Installed s tip ∨
      ∃ block, reply = .success block ∧ ForTip tip block ∧
        Manager.isNewBlock s.pool.manager.currentJob block = true ∧
        HandedOut config s.pool clients now block
  | _ => True

/-- A tip the pool does not take for nothing saved. -/
def PastGenesis : TipEvent → Prop
  | .info (.success tip) => tip.blocks ≠ 0 ∧ tip.bestblockhash ≠ []
  | _ => True

/-- Except while its template is awaited, the saved tip has one. -/
structure Safe (s : TipPolling) : Prop where
  busy : s.phase ≠ .idle → s.pollingFlag = true
  installed : s.phase ≠ .template → ∀ tip, s.pool.primary = some tip → Installed s tip

/-- The saved tip is past genesis. -/
structure Saved (s : TipPolling) : Prop where
  busy : s.phase ≠ .idle → s.pollingFlag = true
  past : ∀ tip, s.pool.primary = some tip → tip.blocks ≠ 0 ∧ tip.bestblockhash ≠ []

variable {config : ServerConfig}

/-! ## Fetching -/

theorem fetched_frame (config : ServerConfig) (s : TipPolling) (newBlock newBroadcast : Bool)
    (clients : List PoolServer.Client) (now : Nat) (reply : Reply BlockTemplate) :
    ∃ pool installed, (s.fetched config newBlock newBroadcast clients now reply).1
        = { s with pool := pool, installed := installed } ∧
      pool.primary = s.pool.primary ∧ s.installed ⊆ installed := by
  have hprimary := PoolState.handlePrimaryTemplate_primary config.pool s.pool newBlock newBroadcast
    (now / 1000) (config.emits clients now) reply
  simp only [fetched]
  split
  · exact ⟨_, _, rfl, hprimary, List.subset_cons_self _ _⟩
  · exact ⟨_, _, rfl, hprimary, fun _ h => h⟩
  · exact ⟨_, _, rfl, hprimary, fun _ h => h⟩

theorem fetched_installed_iff (s : TipPolling) (newBroadcast : Bool)
    (clients : List PoolServer.Client) (now : Nat) (reply : Reply BlockTemplate) (tip : Tip) :
    Installed (s.fetched config false newBroadcast clients now reply).1 tip ↔
      Installed s tip ∨ ∃ block, reply = .success block ∧ ForTip tip block ∧
        Manager.isNewBlock s.pool.manager.currentJob block = true ∧
        HandedOut config s.pool clients now block := by
  cases reply with
  | error =>
      constructor
      · intro h
        exact .inl h
      · rintro (h | ⟨block, hreply, -⟩)
        · exact h
        · exact nomatch hreply
  | success block =>
      rcases handlePrimaryTemplate_result config s.pool false newBroadcast clients now block with
        ⟨hunwanted, hresult⟩ | ⟨hwanted, hout, hresult⟩ | ⟨-, hout, hresult⟩
      · simp only [fetched, hresult]
        constructor
        · intro h
          exact .inl h
        · rintro (h | ⟨block', hreply, -, hnew, -⟩)
          · exact h
          · cases hreply
            exact absurd (.inl hnew) hunwanted
      · simp only [fetched, hresult, Installed, List.mem_cons, Prod.mk.injEq]
        constructor
        · rintro (⟨hheight, hprev⟩ | h)
          · exact .inr ⟨block, rfl, ⟨hheight.symm, hprev.symm⟩, hwanted.resolve_right nofun, hout⟩
          · exact .inl h
        · rintro (h | ⟨block', hreply, htip, -⟩)
          · exact .inr h
          · cases hreply
            exact .inl ⟨htip.1.symm, htip.2.symm⟩
      · simp only [fetched, hresult]
        constructor
        · intro h
          exact .inl h
        · rintro (h | ⟨block', hreply, -, -, hout'⟩)
          · exact h
          · cases hreply
            exact absurd hout' hout

/-! ## Steps -/

/-- What a callback does with the phase and the saved tip: a poll begins, goes on
to fetch, finds nothing new or fails, or ends; the rest run beside it. -/
inductive Polled (config : ServerConfig) (s : TipPolling) (e : TipEvent) (s' : TipPolling) : Prop where
  | begins (event : e = .tick) (before : s.pollingFlag = false) (flag : s'.pollingFlag = true)
      (phase : s'.phase = .info) (primary : s'.pool.primary = s.pool.primary)
      (installed : s'.installed = s.installed)
  | changed (tip : Tip) (event : e = .info (.success tip)) (before : s.phase = .info)
      (flag : s'.pollingFlag = s.pollingFlag) (phase : s'.phase = .template)
      (primary : s'.pool.primary = some tip) (installed : s'.installed = s.installed)
  | unchanged (reply : Reply Tip) (event : e = .info reply) (before : s.phase = .info)
      (flag : s'.pollingFlag = false) (phase : s'.phase = .idle)
      (primary : s'.pool.primary = s.pool.primary) (installed : s'.installed = s.installed)
  | ends (reply : Reply BlockTemplate) (clients : List PoolServer.Client) (now : Nat)
      (event : e = .template reply clients now) (before : s.phase = .template)
      (phase : s'.phase = .idle) (primary : s'.pool.primary = s.pool.primary)
      (installed : s'.installed = (s.fetched config false true clients now reply).1.installed)
  | aside (event : ∀ reply clients now, e ≠ .template reply clients now) (flag : s'.pollingFlag = s.pollingFlag)
      (phase : s'.phase = s.phase) (primary : s'.pool.primary = s.pool.primary)
      (installed : s.installed ⊆ s'.installed)

theorem polled {s s' : TipPolling} {e : TipEvent}
    (h : handlePrimaryBlockPolling config s e = some s') : Polled config s e s' := by
  unfold handlePrimaryBlockPolling at h
  split at h
  case h_1 =>
      split at h
      · cases h
        exact .aside nofun rfl rfl rfl fun _ h => h
      · rename_i hflag
        cases h
        exact .begins rfl (by simpa using hflag) rfl rfl rfl rfl
  case h_2 reply hphase =>
      cases reply with
      | error =>
          cases h
          exact .unchanged .error rfl hphase rfl rfl rfl rfl
      | success tip =>
          simp only [PoolState.checkPrimaryTemplate, checkTip_success, Bool.or_false] at h
          cases hchanged : tipChanged s.pool.primary tip with
          | true =>
              rw [hchanged] at h
              cases h
              exact .changed tip rfl hphase rfl rfl rfl rfl
          | false =>
              rw [hchanged] at h
              cases h
              exact .unchanged (.success tip) rfl hphase rfl rfl rfl rfl
  case h_3 reply clients now hphase =>
      obtain ⟨pool, installed, heq, hprimary, -⟩ := fetched_frame config s false true clients now
        reply
      have hends (t : TipPolling) (ht : t = (s.fetched config false true clients now reply).1)
          (flag : Bool) : Polled config s (.template reply clients now)
            { t with pollingFlag := flag, phase := .idle } :=
        .ends reply clients now rfl hphase rfl (by rw [ht, heq]; exact hprimary) (by rw [ht])
      split at h
      · next t hfetched =>
        cases h
        exact hends t (by rw [hfetched]) false
      · next t hfetched =>
        cases h
        exact hends t (by rw [hfetched]) t.pollingFlag
  case h_4 reply clients now =>
      obtain ⟨pool, installed, heq, -, hgrows⟩ := fetched_frame config s false true clients now
        reply
      cases h
      rw [heq]
      exact .aside nofun rfl rfl (PoolState.handleTimeout_primary ..) hgrows
  case h_5 reply =>
      cases h
      exact .aside nofun rfl rfl (PoolState.handleAuxiliaryTemplate_primary ..) fun _ h => h
  case h_6 newBlock newBroadcast reply clients now =>
      obtain ⟨pool, installed, heq, hprimary, hgrows⟩ := fetched_frame config s newBlock
        newBroadcast clients now reply
      cases h
      rw [heq]
      exact .aside nofun rfl rfl hprimary hgrows
  case h_7 => exact nomatch h

theorem Polled.busy {s s' : TipPolling} {e : TipEvent} (h : Polled config s e s')
    (hbusy : s.phase ≠ .idle → s.pollingFlag = true) (hphase' : s'.phase ≠ .idle) :
    s'.pollingFlag = true := by
  cases h with
  | begins _ _ flag _ _ _ => exact flag
  | changed _ _ before flag _ _ _ => rw [flag]; exact hbusy (by simp [before])
  | unchanged _ _ _ _ phase _ _ => exact absurd phase hphase'
  | ends _ _ _ _ _ phase _ _ => exact absurd phase hphase'
  | aside _ flag phase _ _ => rw [flag]; exact hbusy (phase ▸ hphase')

/-! ## The saved tip -/

theorem safe_step (s : TipPolling) (e : TipEvent) (s' : TipPolling) (h : Safe s)
    (hok : Fetched config s e) (hstep : handlePrimaryBlockPolling config s e = some s') : Safe s' := by
  refine ⟨(polled hstep).busy h.busy, fun hphase' tip htip => ?_⟩
  cases polled hstep with
  | begins _ before _ _ primary installed =>
      -- no reply was awaited, or the flag had kept the tick from beginning
      have hphase : s.phase ≠ .template := by
        intro htemplate
        rw [h.busy (by simp [htemplate])] at before
        exact nomatch before
      rw [Installed, installed]
      exact h.installed hphase tip (primary ▸ htip)
  | changed _ _ _ _ phase _ _ => exact absurd phase hphase'
  | unchanged _ _ before _ _ primary installed =>
      rw [Installed, installed]
      exact h.installed (by simp [before]) tip (primary ▸ htip)
  | ends reply clients now event _ _ primary installed =>
      subst event
      rw [Installed, installed]
      exact (fetched_installed_iff s true clients now reply tip).mpr (hok tip (primary ▸ htip))
  | aside _ _ phase primary installed =>
      exact installed (h.installed (phase ▸ hphase') tip (primary ▸ htip))

theorem Safe.recoverable {s : TipPolling} (h : Safe s) : Recoverable config s := by
  intro hidle tip htip hmissing
  exact absurd (h.installed (by simp [hidle]) tip htip) hmissing

/-- A tip past genesis that is saved is not reported again, so that a poll of it
fetches nothing. -/
theorem checkTip_saved {tip : Tip} (hpast : tip.blocks ≠ 0 ∧ tip.bestblockhash ≠ []) :
    checkTip (some tip) (.success tip) = (some tip, .success false) := by
  have hunchanged : tipChanged (some tip) tip = false := by
    simp [tipChanged, hpast.1, hpast.2]
  rw [checkTip_success, hunchanged]
  rfl

theorem lost_of_saved {s : TipPolling} {tip : Tip} (hidle : s.phase = .idle)
    (htip : s.pool.primary = some tip) (hpast : tip.blocks ≠ 0 ∧ tip.bestblockhash ≠ [])
    (hmissing : ¬ Installed s tip) : ¬ Recoverable config s := by
  intro h
  obtain ⟨s', hexec, hphase, -⟩ := h hidle tip htip hmissing
  cases hflag : s.pollingFlag with
  | true =>
      simp [Run.exec, handlePrimaryBlockPolling, hidle, hflag] at hexec
  | false =>
      simp [Run.exec, handlePrimaryBlockPolling, hflag, PoolState.checkPrimaryTemplate, htip,
        checkTip_saved hpast] at hexec
      rw [← hexec] at hphase
      cases hphase

theorem fetched_of_recoverable (s : TipPolling) (e : TipEvent) (s' : TipPolling) (h : Saved s)
    (hpre : PastGenesis e) (hstep : handlePrimaryBlockPolling config s e = some s')
    (hrecoverable : Recoverable config s') : Fetched config s e ∧ Saved s' := by
  have hbusy := (polled hstep).busy h.busy
  cases polled hstep with
  | begins event _ _ _ primary _ =>
      subst event
      exact ⟨trivial, hbusy, fun tip htip => h.past tip (primary ▸ htip)⟩
  | changed tip event _ _ _ primary _ =>
      subst event
      refine ⟨trivial, hbusy, fun saved hsaved => ?_⟩
      rw [primary] at hsaved
      cases hsaved
      exact hpre
  | unchanged reply event _ _ _ primary _ =>
      subst event
      exact ⟨trivial, hbusy, fun tip htip => h.past tip (primary ▸ htip)⟩
  | ends reply clients now event _ phase primary installed =>
      subst event
      have hpast : ∀ tip, s'.pool.primary = some tip → tip.blocks ≠ 0 ∧ tip.bestblockhash ≠ [] :=
        fun tip htip => h.past tip (primary ▸ htip)
      refine ⟨fun tip htip => ?_, hbusy, hpast⟩
      by_contra hmissing
      -- the ghost did not get the tip, so it is lost
      have hlost : ¬ Installed s' tip := by
        rw [Installed, installed]
        exact fun hin => hmissing ((fetched_installed_iff s true clients now reply tip).mp hin)
      rw [← primary] at htip
      exact lost_of_saved phase htip (hpast tip htip) hlost hrecoverable
  | aside event _ _ primary _ =>
      refine ⟨?_, hbusy, fun tip htip => h.past tip (primary ▸ htip)⟩
      cases e with
      | template reply clients now => exact absurd rfl (event reply clients now)
      | tick => trivial
      | info reply => trivial
      | timeout reply clients now => trivial
      | auxiliary reply => trivial
      | elsewhere newBlock newBroadcast reply clients now => trivial

/-- Every observed tip stays recoverable along the runs in which the fetch after a
change brings the tip's template and nothing about it throws, and of the runs whose tips are
past genesis along no others. -/
theorem tip_not_lost (config : ServerConfig) (es : List TipEvent) :
    (Run.Along (handlePrimaryBlockPolling config) (Fetched config) start es →
      Run.Always (handlePrimaryBlockPolling config) (Recoverable config) start es) ∧
    (Run.Along (handlePrimaryBlockPolling config) (fun _ e => PastGenesis e) start es →
      Run.Always (handlePrimaryBlockPolling config) (Recoverable config) start es →
      Run.Along (handlePrimaryBlockPolling config) (Fetched config) start es) := by
  have hsafe : Safe start := ⟨fun h => absurd rfl h, fun _ tip htip => nomatch htip⟩
  have hsaved : Saved start := ⟨fun h => absurd rfl h, fun tip htip => nomatch htip⟩
  constructor
  · intro h
    exact (Run.always_of_along safe_step hsafe h).mono fun _ => Safe.recoverable
  · intro hpast h
    exact Run.along_of_always fetched_of_recoverable hsaved hpast h

def oldTip : Tip := ⟨99, byteHash 0xaa⟩

def newTip : Tip := ⟨100, byteHash 0xbb⟩

/-- The template on top of a tip, with no transactions. -/
def onTop (tip : Tip) : BlockTemplate := emptyTemplate tip.bestblockhash (tip.blocks + 1) 1700000000

/-- One with a version that cannot be written. -/
def wideOnTop (tip : Tip) : BlockTemplate :=
  wideTemplate tip.bestblockhash (tip.blocks + 1) 1700000000

/-- The first job, and a poll that sees a new block and gets its template. -/
def fetchedRun : List TipEvent :=
  [.elsewhere false true (.success (onTop oldTip)) [] 1700000000000, .tick, .info (.success newTip),
    .template (.success (onTop newTip)) [] 1700000000000]

theorem tip_not_lost_fetched :
    Run.Always (handlePrimaryBlockPolling (smallPool false)) (Recoverable (smallPool false)) start
      fetchedRun := by
  refine (tip_not_lost (smallPool false) fetchedRun).1 ?_
  have hfetched : ∀ s, Run.exec (handlePrimaryBlockPolling (smallPool false)) start
      [.elsewhere false true (.success (onTop oldTip)) [] 1700000000000, .tick,
        .info (.success newTip)] = some s →
      Fetched (smallPool false) s (.template (.success (onTop newTip)) [] 1700000000000) := by
    intro s hs tip htip
    have hstate : (Run.exec (handlePrimaryBlockPolling (smallPool false)) start
        [.elsewhere false true (.success (onTop oldTip)) [] 1700000000000, .tick,
          .info (.success newTip)]).map
        (fun s => (s.pool.primary, Manager.isNewBlock s.pool.manager.currentJob (onTop newTip)))
          = some (some newTip, true) := by decide +kernel
    rw [hs, Option.map_some] at hstate
    obtain ⟨hprimary, hnew⟩ := Prod.mk.inj (Option.some.inj hstate)
    rw [hprimary] at htip
    cases htip
    refine .inr ⟨onTop newTip, rfl, ⟨rfl, rfl⟩, hnew, ?_, ?_, ?_, ?_⟩
    · change BlockTemplate.Constructs (smallPool false).pool (onTop newTip) _ = true
      decide +kernel
    · exact fun h => absurd rfl h
    · exact fun h => absurd rfl h
    · exact fun c hc => absurd hc List.not_mem_nil
  intro s₁ h₁
  refine ⟨trivial, fun s₂ h₂ => ⟨trivial, fun s₃ h₃ => ⟨trivial, fun s₄ h₄ => ⟨?_, trivial⟩⟩⟩⟩
  exact hfetched s₃ (by rw [Run.exec, h₁, Option.bind_some, Run.exec, h₂, Option.bind_some,
    Run.exec_one h₃])

/-- The same poll with another end. -/
def lostRun (reply : Reply BlockTemplate) (clients : List PoolServer.Client) : List TipEvent :=
  [.elsewhere false true (.success (onTop oldTip)) [] 1700000000000, .tick, .info (.success newTip),
    .template reply clients 1700000000000]

/-- After one failed fetch the pool stays on the old block, however often it polls, and after
one template that throws it does not even ask for the tip again. -/
theorem failedRun_lost :
    (∃ s, Run.exec (handlePrimaryBlockPolling (smallPool false)) start (lostRun .error []) = some s ∧
      s.phase = .idle ∧ s.pool.primary = some newTip ∧ ¬ Installed s newTip ∧
      ¬ Recoverable (smallPool false) s ∧
      ∀ n, Run.exec (handlePrimaryBlockPolling (smallPool false)) s
        (List.replicate n [.tick, .info (.success newTip)]).flatten = some s) ∧
    ∃ s, Run.exec (handlePrimaryBlockPolling (smallPool false)) start
        (lostRun (.success (wideOnTop newTip)) [newClient]) = some s ∧
      s.phase = .idle ∧ s.pool.primary = some newTip ∧ ¬ Installed s newTip ∧
      ¬ Recoverable (smallPool false) s ∧
      ∀ n, Run.exec (handlePrimaryBlockPolling (smallPool false)) s (List.replicate n .tick) = some s := by
  have hpast : newTip.blocks ≠ 0 ∧ newTip.bestblockhash ≠ [] := by decide
  have hlast (reply : Reply BlockTemplate) (clients : List PoolServer.Client) (flag : Bool)
      (h : (Run.exec (handlePrimaryBlockPolling (smallPool false)) start (lostRun reply clients)).map
        (fun s => (s.phase, s.pollingFlag, decide (s.pool.primary = some newTip),
          decide (s.installed = [(100, oldTip.bestblockhash)]))) = some (.idle, flag, true, true)) :
      ∃ s, Run.exec (handlePrimaryBlockPolling (smallPool false)) start (lostRun reply clients) = some s ∧
        s.phase = .idle ∧ s.pollingFlag = flag ∧ s.pool.primary = some newTip ∧
        ¬ Installed s newTip := by
    obtain ⟨s, hexec, hs⟩ := Option.map_eq_some_iff.mp h
    simp only [Prod.mk.injEq, decide_eq_true_eq] at hs
    obtain ⟨hidle, hflag, htip, hinstalled⟩ := hs
    refine ⟨s, hexec, hidle, hflag, htip, ?_⟩
    rw [Installed, hinstalled]
    decide
  constructor
  · obtain ⟨s, hexec, hidle, hflag, htip, hmissing⟩ := hlast .error [] false (by decide +kernel)
    refine ⟨s, hexec, hidle, htip, hmissing, lost_of_saved hidle htip hpast hmissing, ?_⟩
    -- a poll of the saved tip ends where it began
    have hpoll : Run.exec (handlePrimaryBlockPolling (smallPool false)) s [.tick, .info (.success newTip)]
        = some s := by
      obtain ⟨flag, phase, ⟨primary, auxiliary, auxData, manager⟩, installed⟩ := s
      cases hidle
      cases hflag
      cases htip
      rfl
    intro n
    induction n with
    | zero => rfl
    | succ n ih =>
        rw [List.replicate_succ, List.flatten_cons, Run.exec_append, hpoll]
        exact ih
  · obtain ⟨s, hexec, hidle, hflag, htip, hmissing⟩ :=
      hlast (.success (wideOnTop newTip)) [newClient] true (by decide +kernel)
    refine ⟨s, hexec, hidle, htip, hmissing, lost_of_saved hidle htip hpast hmissing, ?_⟩
    have htick : handlePrimaryBlockPolling (smallPool false) s .tick = some s := by
      simp [handlePrimaryBlockPolling, hflag]
    intro n
    induction n with
    | zero => rfl
    | succ n ih =>
        rw [List.replicate_succ, Run.exec, htick]
        exact ih

end TipPolling

end DogeConnect
