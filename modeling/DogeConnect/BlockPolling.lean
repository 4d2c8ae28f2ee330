/-
Polling for blocks in the merged-mining pool.

`handleCombinedBlockPolling` and `handleAuxiliaryBlockPolling` differ in one
argument, `newBroadcast`.  A tick of the timer starts a chain of up to four
calls, each in the callback of the one before, and `pollingFlag` keeps a tick
from starting a second chain beside it.  What a callback throws is caught where the
daemon's reply came in, and the flag stays as it was.

    busy_step               while a reply is awaited the flag is set
    wedged_step             once it is set with no reply awaited, nothing clears it
    pollings_ready_iff      that happens just when the auxiliary daemon fails
                            the first call of a chain, or its template throws

The other handlers that touch templates, of `hashblock` messages and of
`network.timeout`, may run between any two callbacks.
-/
import DogeConnect.PoolServer
import DogeConnect.Lib.Run

namespace DogeConnect

open PoolServer

/-- The reply a chain waits for; `auxUpdate` is the argument its callbacks close
over. -/
inductive PollPhase where
  | idle
  | auxInfo
  | auxTemplate
  | primaryInfo (auxUpdate : Bool)
  | primaryTemplate (auxUpdate : Bool)
  deriving DecidableEq

structure Polling where
  pollingFlag : Bool
  phase : PollPhase
  pool : PoolState

/-- A template comes while `clients` are on the list of the network, at `now` in
milliseconds. -/
inductive PollEvent where
  | tick
  | auxInfo (reply : Reply Tip)
  | auxTemplate (reply : Reply AuxBlock)
  | primaryInfo (reply : Reply Tip)
  | primaryTemplate (reply : Reply BlockTemplate) (clients : List PoolServer.Client) (now : Nat)
  | zmq (reply : Reply BlockTemplate) (clients : List PoolServer.Client) (now : Nat)
  | timeout (reply : Reply BlockTemplate) (clients : List PoolServer.Client) (now : Nat)

namespace Polling

/-- When the polling is set up, whatever the first job left in the pool. -/
def start (pool : PoolState) : Polling := ⟨false, .idle, pool⟩

/-- Both polling functions, callback by callback. -/
def poll (config : ServerConfig) (newBroadcast : Bool) (s : Polling) (e : PollEvent) :
    Option Polling :=
  match s.phase, e with
  | _, .tick =>
      if s.pollingFlag then some s
      -- without auxiliary chain its two calls answer at once, with no update
      else if config.pool.auxiliaryEnabled then some { s with pollingFlag := true, phase := .auxInfo }
      else some { s with pollingFlag := true, phase := .primaryInfo false }
  | .auxInfo, .auxInfo reply =>
      match s.pool.checkAuxiliaryTemplate reply with
      | (pool, .success _) => some { s with phase := .auxTemplate, pool := pool }
      -- `if (!auxError)` has no other branch
      | (pool, .error) => some { s with phase := .idle, pool := pool }
  | .auxTemplate, .auxTemplate reply =>
      match s.pool.handleAuxiliaryTemplate reply with
      | (pool, .success auxUpdate) => some { s with phase := .primaryInfo auxUpdate, pool := pool }
      | (pool, .error) => some { s with phase := .primaryInfo false, pool := pool }
  | .primaryInfo auxUpdate, .primaryInfo reply =>
      match s.pool.checkPrimaryTemplate auxUpdate reply with
      | (pool, .success true) => some { s with phase := .primaryTemplate auxUpdate, pool := pool }
      | (pool, _) => some { s with pollingFlag := false, phase := .idle, pool := pool }
  | .primaryTemplate auxUpdate, .primaryTemplate reply clients now =>
      match s.pool.handlePrimaryTemplate config.pool auxUpdate newBroadcast (now / 1000)
        (config.emits clients now) reply with
      | (pool, some _) => some { s with pollingFlag := false, phase := .idle, pool := pool }
      -- the callback that clears the flag is not called
      | (pool, none) => some { s with phase := .idle, pool := pool }
  | _, .zmq reply clients now =>
      let pool := (s.pool.handlePrimaryTemplate config.pool false true (now / 1000)
        (config.emits clients now) reply).1
      some { s with pool := pool }
  | _, .timeout reply clients now =>
      let pool := s.pool.handleTimeout config.pool (now / 1000) (config.emits clients now) reply
      some { s with pool := pool }
  | _, _ => none

def handleCombinedBlockPolling (config : ServerConfig) : Polling → PollEvent → Option Polling :=
  poll config true

def handleAuxiliaryBlockPolling (config : ServerConfig) : Polling → PollEvent → Option Polling :=
  poll config false

/-- With no call of the chain outstanding the flag is clear, and the next tick
starts a chain. -/
def Ready (step : Polling → PollEvent → Option Polling) (s : Polling) : Prop :=
  s.phase = .idle → s.pollingFlag = false ∧ ∃ s', step s .tick = some s' ∧ s'.phase ≠ .idle

/-- While a reply is awaited the flag is set. -/
def Busy (s : Polling) : Prop := s.phase ≠ .idle → s.pollingFlag = true

/-- The flag is set and nothing is awaited. -/
def Wedged (s : Polling) : Prop := s.phase = .idle ∧ s.pollingFlag = true

/-- A reply does not cut the chain off: the first call of a chain does not fail, and a template
the manager takes is built and handed out without an exception. -/
def Carries (config : ServerConfig) (s : Polling) : PollEvent → Prop
  | .auxInfo reply => reply ≠ .error
  | .primaryTemplate (.success response) clients now =>
      ∀ auxUpdate, s.phase = .primaryTemplate auxUpdate → Wanted s.pool auxUpdate response →
        HandedOut config s.pool clients now response
  | _ => True

/-- What a callback leaves behind: the chain begins, breaks off with the flag as it is, goes
on or ends, or is not what runs. -/
inductive Polled (config : ServerConfig) (s : Polling) (e : PollEvent) (s' : Polling) : Prop where
  | begins (event : e = .tick) (before : s.pollingFlag = false) (flag : s'.pollingFlag = true)
      (phase : s'.phase ≠ .idle)
  | breaks (event : ¬ Carries config s e) (before : s.phase ≠ .idle)
      (flag : s'.pollingFlag = s.pollingFlag) (phase : s'.phase = .idle)
  | continues (event : Carries config s e) (before : s.phase ≠ .idle)
      (flag : s'.pollingFlag = s.pollingFlag) (phase : s'.phase ≠ .idle)
  | ends (event : Carries config s e) (before : s.phase ≠ .idle)
      (flag : s'.pollingFlag = false) (phase : s'.phase = .idle)
  | aside (event : Carries config s e) (flag : s'.pollingFlag = s.pollingFlag)
      (phase : s'.phase = s.phase)

variable {config : ServerConfig} {newBroadcast : Bool}

theorem polled {s s' : Polling} {e : PollEvent} (h : poll config newBroadcast s e = some s') :
    Polled config s e s' := by
  unfold poll at h
  split at h
  case h_1 =>
      split at h
      · cases h
        exact .aside trivial rfl rfl
      · rename_i hflag
        have hbefore : s.pollingFlag = false := by simpa using hflag
        split at h
        · cases h
          exact .begins rfl hbefore rfl nofun
        · cases h
          exact .begins rfl hbefore rfl nofun
  case h_2 reply hphase =>
      have hbefore : s.phase ≠ .idle := by simp [hphase]
      cases reply with
      | error =>
          cases h
          exact .breaks (fun h => h rfl) hbefore rfl rfl
      | success tip =>
          simp only [PoolState.checkAuxiliaryTemplate, checkTip_success] at h
          cases h
          exact .continues nofun hbefore rfl nofun
  case h_3 hphase =>
      have hbefore : s.phase ≠ .idle := by simp [hphase]
      split at h
      · cases h
        exact .continues trivial hbefore rfl nofun
      · cases h
        exact .continues trivial hbefore rfl nofun
  case h_4 hphase =>
      have hbefore : s.phase ≠ .idle := by simp [hphase]
      split at h
      · cases h
        exact .continues trivial hbefore rfl nofun
      · cases h
        exact .ends trivial hbefore rfl rfl
  case h_5 auxUpdate reply clients now hphase =>
      have hbefore : s.phase ≠ .idle := by simp [hphase]
      cases reply with
      | error =>
          cases h
          exact .ends trivial hbefore rfl rfl
      | success response =>
          have hcarries : Carries config s (.primaryTemplate (.success response) clients now) ↔
              (Wanted s.pool auxUpdate response → HandedOut config s.pool clients now response) := by
            simp [Carries, hphase]
          -- the callback is called unless something was thrown
          rcases handlePrimaryTemplate_result config s.pool auxUpdate newBroadcast clients now response
            with ⟨hunwanted, hresult⟩ | ⟨-, hout, hresult⟩ | ⟨hwanted, hout, hresult⟩
          · split at h
            · cases h
              exact .ends (hcarries.mpr fun hwanted => absurd hwanted hunwanted) hbefore rfl rfl
            · next heq =>
              rw [heq] at hresult
              cases hresult
          · split at h
            · cases h
              exact .ends (hcarries.mpr fun _ => hout) hbefore rfl rfl
            · next heq =>
              rw [heq] at hresult
              cases hresult
          · split at h
            · next heq =>
              rw [heq] at hresult
              cases hresult
            · cases h
              exact .breaks (fun h => hout (hcarries.mp h hwanted)) hbefore rfl rfl
  case h_6 =>
      cases h
      exact .aside trivial rfl rfl
  case h_7 =>
      cases h
      exact .aside trivial rfl rfl
  case h_8 => exact nomatch h

theorem busy_step (s : Polling) (e : PollEvent) (s' : Polling) (h : Busy s)
    (hstep : poll config newBroadcast s e = some s') : Busy s' := by
  intro hphase'
  cases polled hstep with
  | begins _ _ flag _ => exact flag
  | breaks _ _ _ phase => exact absurd phase hphase'
  | continues _ before flag _ => rw [flag]; exact h before
  | ends _ _ _ phase => exact absurd phase hphase'
  | aside _ flag phase => rw [flag]; exact h (phase ▸ hphase')

theorem ready_iff (s : Polling) :
    Ready (poll config newBroadcast) s ↔ (s.phase = .idle → s.pollingFlag = false) := by
  constructor
  · intro h hphase
    exact (h hphase).1
  · intro h hphase
    refine ⟨h hphase, ?_⟩
    simp only [poll, h hphase]
    cases config.pool.auxiliaryEnabled with
    | true => exact ⟨_, rfl, nofun⟩
    | false => exact ⟨_, rfl, nofun⟩

/-- The step lemma: of a busy and ready polling, the next state is ready unless the
chain was just cut off. -/
theorem ready_step (s : Polling) (e : PollEvent) (s' : Polling) (hbusy : Busy s)
    (hready : Ready (poll config newBroadcast) s) (hstep : poll config newBroadcast s e = some s') :
    Ready (poll config newBroadcast) s' ↔ Carries config s e := by
  rw [ready_iff] at hready ⊢
  cases polled hstep with
  | begins event _ _ phase =>
      subst event
      exact ⟨fun _ => trivial, fun _ hidle => absurd hidle phase⟩
  | breaks event before flag phase =>
      -- the flag the chain set is still set
      have hset : s'.pollingFlag = true := by
        rw [flag]
        exact hbusy before
      constructor
      · intro h
        rw [h phase] at hset
        exact nomatch hset
      · intro h
        exact absurd h event
  | continues event _ _ phase => exact ⟨fun _ => event, fun _ hidle => absurd hidle phase⟩
  | ends event _ flag _ => exact ⟨fun _ => event, fun _ _ => flag⟩
  | aside event flag phase =>
      refine ⟨fun _ => event, fun _ hidle => ?_⟩
      rw [flag]
      exact hready (phase ▸ hidle)

theorem wedged_step (s : Polling) (e : PollEvent) (s' : Polling) (h : Wedged s)
    (hstep : poll config newBroadcast s e = some s') : Wedged s' := by
  obtain ⟨hidle, hset⟩ := h
  cases polled hstep with
  | begins _ before _ _ => rw [hset] at before; exact nomatch before
  | breaks _ before _ _ => exact absurd hidle before
  | continues _ before _ _ => exact absurd hidle before
  | ends _ before _ _ => exact absurd hidle before
  | aside _ flag phase => exact ⟨phase.trans hidle, flag.trans hset⟩

theorem ready_iff_along (pool : PoolState) (es : List PollEvent) :
    Run.Always (poll config newBroadcast) (Ready (poll config newBroadcast)) (start pool) es ↔
      Run.Along (poll config newBroadcast) (Carries config) (start pool) es := by
  have hbusy : Busy (start pool) := fun h => absurd rfl h
  refine Run.always_iff_along (I := Busy) (fun s e s' hinv hready hstep => ?_) hbusy
    ((ready_iff _).mpr fun _ => rfl)
  exact ⟨ready_step s e s' hinv hready hstep, fun _ => busy_step s e s' hinv hstep⟩

/-- Both polling functions are ready whenever they await nothing, along just the
runs in which the auxiliary daemon never fails the call that begins a chain, and no
template that a chain hands out throws. -/
theorem pollings_ready_iff (config : ServerConfig) (pool : PoolState) (es : List PollEvent) :
    (Run.Always (handleCombinedBlockPolling config) (Ready (handleCombinedBlockPolling config))
        (start pool) es ↔
      Run.Along (handleCombinedBlockPolling config) (Carries config) (start pool) es) ∧
    (Run.Always (handleAuxiliaryBlockPolling config) (Ready (handleAuxiliaryBlockPolling config))
        (start pool) es ↔
      Run.Along (handleAuxiliaryBlockPolling config) (Carries config) (start pool) es) :=
  ⟨ready_iff_along pool es, ready_iff_along pool es⟩

/-- One failed `getblockchaininfo` of the auxiliary daemon ends the polling, and so does one
template that throws: in every run from there nothing is awaited and the flag stays set. -/
theorem pollings_wedge :
    (∃ s, Run.exec (handleCombinedBlockPolling (smallPool true)) (start .initial)
        [.tick, .auxInfo .error] = some s ∧
      ¬ Ready (handleCombinedBlockPolling (smallPool true)) s ∧
      ∀ es, Run.Always (handleCombinedBlockPolling (smallPool true)) Wedged s es) ∧
    ∃ s, Run.exec (handleCombinedBlockPolling (smallPool true)) (start .initial)
        [.tick, .auxInfo (.success ⟨1, byteHash 1⟩), .auxTemplate .error,
          .primaryInfo (.success ⟨0, byteHash 0⟩),
          .primaryTemplate (.success (wideTemplate (byteHash 0) 1 0)) [newClient] 0] = some s ∧
      ¬ Ready (handleCombinedBlockPolling (smallPool true)) s ∧
      ∀ es, Run.Always (handleCombinedBlockPolling (smallPool true)) Wedged s es := by
  have hwedged (s : Polling) (h : Wedged s) : ¬ Ready (handleCombinedBlockPolling (smallPool true)) s ∧
      ∀ es, Run.Always (handleCombinedBlockPolling (smallPool true)) Wedged s es := by
    refine ⟨fun hready => ?_, fun es => Run.always_of_step wedged_step h⟩
    have hclear := (hready h.1).1
    rw [h.2] at hclear
    cases hclear
  have hthrown : (Run.exec (handleCombinedBlockPolling (smallPool true)) (start .initial)
      [.tick, .auxInfo (.success ⟨1, byteHash 1⟩), .auxTemplate .error,
        .primaryInfo (.success ⟨0, byteHash 0⟩),
        .primaryTemplate (.success (wideTemplate (byteHash 0) 1 0)) [newClient] 0]).map
      (fun s => (s.phase, s.pollingFlag)) = some (.idle, true) := by
    decide +kernel
  obtain ⟨s, hrun, hs⟩ := Option.map_eq_some_iff.mp hthrown
  obtain ⟨hidle, hset⟩ : s.phase = .idle ∧ s.pollingFlag = true := by
    simpa only [Prod.mk.injEq] using hs
  exact ⟨⟨⟨true, .idle, .initial⟩, rfl, hwedged _ ⟨rfl, rfl⟩⟩, s, hrun, hwedged s ⟨hidle, hset⟩⟩

end Polling

end DogeConnect
