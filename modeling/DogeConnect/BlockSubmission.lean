/-
What becomes of a block the pool has found.

`handlePrimary` and `handleAuxiliary` submit the block to every daemon, look for
it on the chain once all have answered, and hand the share on as `pool.share`.
`submitPrimary` and `submitAuxiliary` call back once more after an error, with
none, so that a refused block is looked for as well.

    handled_step             what an event does, before and after the submission
    handlePrimary_runs       one share for each call, decided by the chain alone
    handleAuxiliary_runs     the chain is asked for the pool's present block

A share is given to the listeners with the other data of its call, which no
function here reads.
-/
import DogeConnect.DaemonInterface

namespace DogeConnect.BlockSubmission

open Interface Firsts

/-- The result of `submitblock`, `getauxblock` or `getblock`. -/
inductive Response where
  | text (s : Str)
  | block (hash : Str) (confirmations : Int) (tx : List Str)
  | other
  deriving DecidableEq

/-- The errors of `submitPrimary` and `submitAuxiliary`, and the instance they name. -/
inductive SubmitError (ι : Type) where
  | rejected (inst : Option ι)
  | orphan (inst : Option ι) (error : Option RpcError)
  deriving DecidableEq

/-- What is logged: a submission that failed, a block found, a block that no daemon
knows. -/
inductive BlockLog (ι : Type) where
  | submission (error : SubmitError ι)
  | found
  | unknown
  deriving DecidableEq

/-- What `pool.share` says about the block: `accepted` is `null` for a share that is
none. -/
structure PoolShare where
  accepted : Option Bool
  transaction : Option Str
  deriving DecidableEq

/-- A call of `handlePrimary` or `handleAuxiliary`.  `each` is `async.each`, `hash` is what the hash it
will ask for would be now; `checks` are the calls of `checkAccepted`, with the hash
each asks for. -/
structure Handling (ι : Type) where
  each : Nat → Nat → Bool
  daemon : Daemon ι
  auxiliary : Bool
  hash : Str
  submit : Option (Commands ι Response)
  checks : List (Str × Commands ι Response)
  shares : List PoolShare
  logs : List (BlockLog ι)

/-- Events of the requests of both calls; `template` is a new auxiliary template. -/
inductive HandlingEvent (ι : Type) where
  | submit (inst : ι) (arrival : Arrival)
  | check (k : Nat) (inst : ι) (arrival : Arrival)
  | template (hash : Str)
  deriving DecidableEq

variable {ι : Type}

def resultInst : Result ι Response → Option ι
  | .single answer => answer.inst
  | .batch _ => none

def isRejected (result : Result ι Response) : Bool := result.response = some (.text "rejected".toList)

def Response.isBlock (hash : Str) : Response → Bool
  | .block blockHash confirmations _ => blockHash = hash && decide (0 ≤ confirmations)
  | _ => false

/-- `response.tx[0]`. -/
def Response.coinbase : Response → Option Str
  | .block _ _ tx => tx.head?
  | _ => none

/-- The calls of its callback that `submitPrimary` or `submitAuxiliary` makes; with no
results it throws. -/
def submitCalls (results : List (Result ι Response)) : Option (List (Option (SubmitError ι))) :=
  let rejected := results.filter isRejected
  let accepted := results.filter fun result => result.succeeded && !isRejected result
  if rejected.length ≥ 1 then some [some (.rejected (rejected.head?.bind resultInst)), none]
  else if accepted.length < 1 then
    results.head?.map fun first => [some (.orphan (resultInst first) first.error), none]
  else some [none]

def knows (hash : Str) (result : Result ι Response) : Bool :=
  result.response.any (Response.isBlock hash)

/-- `checkAccepted`, with the results of its call. -/
def checkAccepted (hash : Str) (results : List (Result ι Response)) : Bool × Option Str :=
  let blocks := results.filter (knows hash)
  (decide (blocks.length ≥ 1), blocks.head?.bind fun result => result.response.bind Response.coinbase)

namespace Handling

/-- The callback given to `submitPrimary` or `submitAuxiliary`. -/
def submitted (s : Handling ι) : Option (SubmitError ι) → Handling ι
  | some error => { s with logs := s.logs ++ [.submission error] }
  | none =>
      { s with
        logs := s.logs ++ [.found]
        checks := s.checks ++
          [(s.hash, sendCommands s.each s.daemon.instances ["getblock".toList] false)] }

/-- The callback of the submission's `sendCommands`. -/
def afterSubmit (s : Handling ι) : Told ι Response → Option (Handling ι)
  | .one _ => some s
  | .all results => (submitCalls results).map fun calls => calls.foldl submitted s

/-- The callback of `checkAccepted`'s `sendCommands`. -/
def afterCheck (hash : Str) (s : Handling ι) : Told ι Response → Handling ι
  | .one _ => s
  | .all results =>
      let (accepted, transaction) := checkAccepted hash results
      { s with
        shares := s.shares ++ [⟨some accepted, transaction⟩]
        logs := s.logs ++ if accepted then [] else [.unknown] }

variable [DecidableEq ι] (parse : Str → Option (Body Response))

def step (s : Handling ι) : HandlingEvent ι → Option (Handling ι)
  | .submit inst arrival =>
      s.submit.bind fun call =>
        (Interface.step parse call (inst, arrival)).bind fun call' =>
          (call'.called.drop call.called.length).foldlM afterSubmit { s with submit := some call' }
  | .check k inst arrival =>
      s.checks[k]?.bind fun check =>
        (Interface.step parse check.2 (inst, arrival)).map fun call' =>
          (call'.called.drop check.2.called.length).foldl (afterCheck check.1)
            { s with checks := s.checks.set k (check.1, call') }
  | .template hash => some (if s.auxiliary then { s with hash := hash } else s)

end Handling

/-- `handlePrimary` and `handleAuxiliary` up to the replies. -/
def handleBlock (each : Nat → Nat → Bool) (daemon : Daemon ι) (auxiliary : Bool) (hash : Str)
    (blockValid : Bool) : Handling ι :=
  if blockValid then
    ⟨each, daemon, auxiliary, hash,
      some (sendCommands each daemon.instances ["submitblock".toList] false), [], [], []⟩
  else ⟨each, daemon, auxiliary, hash, none, [], [⟨none, none⟩], []⟩

/-- `handlePrimary`: the block looked for is the share's. -/
def handlePrimary (each : Nat → Nat → Bool) (daemon : Daemon ι) (hash : Str) (blockValid : Bool) :
    Handling ι :=
  handleBlock each daemon false hash blockValid

/-- `handleAuxiliary`: the block looked for is the one in `_this.auxiliary.rpcData`. -/
def handleAuxiliary (each : Nat → Nat → Bool) (daemon : Daemon ι) (hash : Str) (blockValid : Bool) :
    Handling ι :=
  handleBlock each daemon true hash blockValid

/-! ## Events -/

def HandlingEvent.submit? : HandlingEvent ι → Option (ι × Arrival)
  | .submit inst arrival => some (inst, arrival)
  | _ => none

/-- There is one check at most, so its number does not matter. -/
def HandlingEvent.check? : HandlingEvent ι → Option (ι × Arrival)
  | .check _ inst arrival => some (inst, arrival)
  | _ => none

def HandlingEvent.template? : HandlingEvent ι → Option Str
  | .template hash => some hash
  | _ => none

def submitEvents (es : List (HandlingEvent ι)) : List (ι × Arrival) :=
  es.filterMap HandlingEvent.submit?

def checkEvents (es : List (HandlingEvent ι)) : List (ι × Arrival) :=
  es.filterMap HandlingEvent.check?

/-- The hash that a handling would ask for after some events. -/
def presentHash (auxiliary : Bool) (hash : Str) (es : List (HandlingEvent ι)) : Str :=
  if auxiliary then ((es.filterMap HandlingEvent.template?).getLast?).getD hash else hash

theorem submitEvents_concat (es : List (HandlingEvent ι)) (e : HandlingEvent ι) :
    submitEvents (es ++ [e]) = submitEvents es ++ e.submit?.toList := by
  rw [submitEvents, List.filterMap_append, List.filterMap_cons]
  cases e.submit? <;> rfl

theorem checkEvents_concat (es : List (HandlingEvent ι)) (e : HandlingEvent ι) :
    checkEvents (es ++ [e]) = checkEvents es ++ e.check?.toList := by
  rw [checkEvents, List.filterMap_append, List.filterMap_cons]
  cases e.check? <;> rfl

theorem presentHash_concat (auxiliary : Bool) (hash : Str) (es : List (HandlingEvent ι))
    (e : HandlingEvent ι) :
    presentHash auxiliary hash (es ++ [e])
      = if auxiliary then e.template?.getD (presentHash auxiliary hash es) else hash := by
  cases auxiliary with
  | false => rfl
  | true =>
      rw [presentHash, presentHash, if_pos rfl, if_pos rfl, if_pos rfl, List.filterMap_append,
        List.filterMap_cons]
      cases e.template? with
      | none => simp
      | some new => simp

/-! ## The submission -/

/-- Whatever the daemons answer, the last call of the callback is one without error. -/
theorem submitCalls_eq {results : List (Result ι Response)} (h : results ≠ []) :
    ∃ errors, submitCalls results = some (List.map some errors ++ [none]) := by
  rw [submitCalls]
  split
  · exact ⟨[_], rfl⟩
  · split
    · obtain ⟨first, hfirst⟩ : ∃ first, results.head? = some first := by
        cases results with
        | nil => exact absurd rfl h
        | cons first results => exact ⟨first, rfl⟩
      rw [hfirst]
      exact ⟨[_], rfl⟩
    · exact ⟨[], rfl⟩

theorem foldl_submitted (errors : List (SubmitError ι)) (s : Handling ι) :
    (errors.map some).foldl Handling.submitted s
      = { s with logs := s.logs ++ errors.map .submission } := by
  induction errors generalizing s with
  | nil => simp
  | cons error errors ih =>
      rw [List.map_cons, List.foldl_cons, ih]
      simp [Handling.submitted]

/-- An answered submission starts one check, for the hash of that moment. -/
theorem afterSubmit_all {results : List (Result ι Response)} (h : results ≠ []) (s : Handling ι) :
    ∃ logs, s.afterSubmit (.all results) = some { s with
      logs := logs
      checks := s.checks ++
        [(s.hash, sendCommands s.each s.daemon.instances ["getblock".toList] false)] } := by
  obtain ⟨errors, hcalls⟩ := submitCalls_eq h
  rw [Handling.afterSubmit, hcalls, Option.map_some, List.foldl_append, foldl_submitted]
  exact ⟨_, rfl⟩

/-! ## The check -/

/-- What a callback of `checkAccepted` makes of its call. -/
def shareOf (hash : Str) : Told ι Response → List PoolShare
  | .one _ => []
  | .all results => [⟨some (checkAccepted hash results).1, (checkAccepted hash results).2⟩]

theorem afterCheck_eq (hash : Str) (s : Handling ι) (told : Told ι Response) :
    ∃ logs, s.afterCheck hash told
      = { s with shares := s.shares ++ shareOf hash told, logs := logs } := by
  cases told with
  | one result => exact ⟨s.logs, by simp [Handling.afterCheck, shareOf]⟩
  | all results => exact ⟨_, rfl⟩

/-- What the share says comes from the daemons that know the block. -/
theorem checkAccepted_eq (hash : Str) (results : List (Result ι Response)) :
    (checkAccepted hash results).1 = results.any (knows hash) ∧
    (results.any (knows hash) = true → ∃ result ∈ results, knows hash result = true ∧
      result.response.bind Response.coinbase = (checkAccepted hash results).2) ∧
    (results.any (knows hash) = false → (checkAccepted hash results).2 = none) := by
  refine ⟨?_, fun hany => ?_, fun hnone => ?_⟩
  · rw [checkAccepted, Bool.eq_iff_iff, decide_eq_true_eq, List.any_eq_true]
    constructor
    · intro hlength
      obtain ⟨result, hmem⟩ := List.exists_mem_of_length_pos hlength
      exact ⟨result, List.mem_filter.mp hmem⟩
    · rintro ⟨result, hmem⟩
      exact List.length_pos_of_mem (List.mem_filter.mpr hmem)
  · -- the first of those that know it
    obtain ⟨known, hknown⟩ := List.any_eq_true.mp hany
    obtain ⟨result, hhead⟩ : ∃ result, (results.filter (knows hash)).head? = some result :=
      Option.isSome_iff_exists.mp
        (List.isSome_head?.mpr (List.ne_nil_of_mem (List.mem_filter.mpr hknown)))
    have hmem := List.mem_filter.mp (List.mem_of_head? hhead)
    refine ⟨result, hmem.1, hmem.2, ?_⟩
    simp only [checkAccepted, hhead, Option.bind_some]
  · have hempty : results.filter (knows hash) = [] :=
      List.filter_eq_nil_iff.mpr fun result hmem => List.any_eq_false.mp hnone result hmem
    rw [checkAccepted, hempty]
    rfl

/-! ## Runs -/

section
variable {each : Nat → Nat → Bool} {daemon : Daemon ι} {auxiliary : Bool} {hash : Str}

/-- The hash for which the check asks: the one at the moment at which the last daemon
answered the submission. -/
def AskedFor (daemon : Daemon ι) (auxiliary : Bool) (hash : Str) (es : List (HandlingEvent ι))
    (asked : Str) : Prop :=
  ∃ before inst arrival after, es = before ++ .submit inst arrival :: after ∧
    ¬ Answered daemon.instances (submitEvents before) ∧
    Answered daemon.instances (submitEvents (before ++ [.submit inst arrival])) ∧
    asked = presentHash auxiliary hash before

theorem AskedFor.concat {es : List (HandlingEvent ι)} {asked : Str}
    (h : AskedFor daemon auxiliary hash es asked) (e : HandlingEvent ι) :
    AskedFor daemon auxiliary hash (es ++ [e]) asked := by
  obtain ⟨before, inst, arrival, after, rfl, h⟩ := h
  exact ⟨before, inst, arrival, after ++ [e], by simp, h⟩

theorem not_answered_nil (daemon : Daemon ι) : ¬ Answered daemon.instances [] := by
  intro h
  obtain ⟨inst, hinst⟩ := List.exists_mem_of_ne_nil _ daemon.online
  exact absurd (h inst hinst) List.not_mem_nil

variable [DecidableEq ι] {parse : Str → Option (Body Response)}

/-- A block that is handled, and the events so far. -/
structure Handled (parse : Str → Option (Body Response)) (daemon : Daemon ι) (auxiliary : Bool)
    (hash : Str) (es : List (HandlingEvent ι)) (s : Handling ι) : Prop where
  laws : AsyncEach s.each
  sent : s.daemon = daemon
  chain : s.auxiliary = auxiliary
  present : s.hash = presentHash auxiliary hash es
  submit : ∃ call, s.submit = some call ∧
    Asked parse daemon.instances false (submitEvents es) call
  waiting : ¬ Answered daemon.instances (submitEvents es) →
    checkEvents es = [] ∧ s.checks = [] ∧ s.shares = []
  checking : Answered daemon.instances (submitEvents es) →
    ∃ asked call, AskedFor daemon auxiliary hash es asked ∧ s.checks = [(asked, call)] ∧
      Asked parse daemon.instances false (checkEvents es) call ∧
      s.shares = call.called.flatMap (shareOf asked)

theorem handled_start (laws : AsyncEach each) :
    Handled parse daemon auxiliary hash [] (handleBlock each daemon auxiliary hash true) where
  laws := laws
  sent := rfl
  chain := rfl
  present := by
    rw [presentHash]
    cases auxiliary <;> rfl
  submit := ⟨_, rfl, Asked.start laws (List.cons_ne_nil _ _)⟩
  waiting := fun _ => ⟨rfl, rfl, rfl⟩
  checking := fun h => absurd h (not_answered_nil daemon)

theorem handled_submit {es : List (HandlingEvent ι)} {s s' : Handling ι}
    (h : Handled parse daemon auxiliary hash es s) {inst : ι} {arrival : Arrival}
    (hstep : s.step parse (.submit inst arrival) = some s') :
    Handled parse daemon auxiliary hash (es ++ [.submit inst arrival]) s' := by
  obtain ⟨call, hcall, hasked⟩ := h.submit
  rw [Handling.step, hcall, Option.bind_some, Option.bind_eq_some_iff] at hstep
  obtain ⟨call', hcall', hstep⟩ := hstep
  have hsubmit : submitEvents (es ++ [.submit inst arrival]) = submitEvents es ++ [(inst, arrival)] :=
    submitEvents_concat es _
  have hcheck : checkEvents (es ++ [.submit inst arrival]) = checkEvents es := by
    rw [checkEvents_concat]
    exact List.append_nil _
  have hpresent : presentHash auxiliary hash (es ++ [.submit inst arrival])
      = presentHash auxiliary hash es := by
    rw [presentHash_concat]
    cases auxiliary <;> rfl
  have hasked' := hasked.step hcall'
  rw [← hsubmit] at hasked'
  rcases hasked.told daemon.nodup hcall' with ⟨hbefore, hafter, htold⟩ | ⟨hiff, htold, -⟩
  · -- the last answer to the submission
    rw [← hsubmit] at hafter htold
    obtain ⟨hchecks, hnone, hshares⟩ := h.waiting hbefore
    have hresults : (firsts (answers parse (submitEvents (es ++ [.submit inst arrival])))).map Prod.snd
        ≠ [] := by
      have hlength := (hasked'.answered_iff daemon.nodup).mpr hafter
      have hpos := List.length_pos_iff.mpr daemon.online
      refine List.ne_nil_of_length_pos ?_
      rw [List.length_map, hlength]
      exact hpos
    obtain ⟨logs, hresult⟩ := afterSubmit_all hresults { s with submit := some call' }
    rw [htold, List.foldlM_cons, hresult] at hstep
    cases hstep
    refine ⟨h.laws, h.sent, h.chain, h.present.trans hpresent.symm, ⟨call', rfl, hasked'⟩,
      fun hnot => absurd hafter hnot, fun _ => ?_⟩
    refine ⟨s.hash, sendCommands s.each s.daemon.instances ["getblock".toList] false,
      ⟨es, inst, arrival, [], rfl, hbefore, hafter, h.present⟩, ?_, ?_, ?_⟩
    · rw [hnone]
      rfl
    · rw [hcheck, hchecks, h.sent]
      exact Asked.start h.laws (List.cons_ne_nil _ _)
    · have hquiet : (sendCommands s.each s.daemon.instances ["getblock".toList] false
          : Commands ι Response).called = [] := by
        rw [h.sent, sendCommands_eq h.laws _ (List.cons_ne_nil _ _), gather, outcome_all, if_neg]
        · rfl
        · intro hzero
          exact daemon.online (List.eq_nil_of_length_eq_zero hzero.symm)
      rw [hshares, hquiet]
      rfl
  · rw [htold] at hstep
    cases hstep
    refine ⟨h.laws, h.sent, h.chain, h.present.trans hpresent.symm, ⟨call', rfl, hasked'⟩, ?_, ?_⟩
    · intro hnot
      rw [hsubmit, ← hiff] at hnot
      rw [hcheck]
      exact h.waiting hnot
    · intro hanswered
      rw [hsubmit, ← hiff] at hanswered
      obtain ⟨asked, check, hfor, hrest⟩ := h.checking hanswered
      rw [hcheck]
      exact ⟨asked, check, hfor.concat _, hrest⟩

theorem handled_check {es : List (HandlingEvent ι)} {s s' : Handling ι}
    (h : Handled parse daemon auxiliary hash es s) {k : Nat} {inst : ι} {arrival : Arrival}
    (hstep : s.step parse (.check k inst arrival) = some s') :
    Handled parse daemon auxiliary hash (es ++ [.check k inst arrival]) s' := by
  have hsubmit : submitEvents (es ++ [.check k inst arrival]) = submitEvents es := by
    rw [submitEvents_concat]
    exact List.append_nil _
  have hcheck : checkEvents (es ++ [.check k inst arrival]) = checkEvents es ++ [(inst, arrival)] :=
    checkEvents_concat es _
  have hpresent : presentHash auxiliary hash (es ++ [.check k inst arrival])
      = presentHash auxiliary hash es := by
    rw [presentHash_concat]
    cases auxiliary <;> rfl
  rw [Handling.step, Option.bind_eq_some_iff] at hstep
  obtain ⟨⟨number, check⟩, hget, hstep⟩ := hstep
  obtain ⟨check', hcall', hstep⟩ := Option.map_eq_some_iff.mp hstep
  by_cases hanswered : Answered daemon.instances (submitEvents es)
  · obtain ⟨asked, call, hfor, hchecks, hasked, hshares⟩ := h.checking hanswered
    rw [hchecks] at hget
    -- the one check there is
    obtain ⟨rfl, hpair⟩ : k = 0 ∧ (asked, call) = (number, check) := by
      cases k with
      | zero => exact ⟨rfl, Option.some.inj hget⟩
      | succ k => exact nomatch hget
    obtain ⟨rfl, rfl⟩ := Prod.mk.inj hpair
    have hasked' := hasked.step hcall'
    rw [← hcheck] at hasked'
    have hset : s.checks.set 0 (asked, check') = [(asked, check')] := by
      rw [hchecks]
      rfl
    have hcalled : s'.shares = check'.called.flatMap (shareOf asked) ∧
        s'.checks = [(asked, check')] ∧ s'.each = s.each ∧ s'.daemon = s.daemon ∧
        s'.auxiliary = s.auxiliary ∧ s'.hash = s.hash ∧ s'.submit = s.submit := by
      rcases hasked.told daemon.nodup hcall' with ⟨hwaiting, hafter, htold⟩ | ⟨-, htold, hsame⟩
      · have hnone : call.called = [] := by
          rcases hasked.called_all daemon.nodup with ⟨hyes, -⟩ | ⟨-, hnone⟩
          · exact absurd hyes hwaiting
          · exact hnone
        rw [hnone] at htold hshares
        obtain ⟨logs, hresult⟩ := afterCheck_eq asked { s with checks := s.checks.set 0 (asked, check') }
          (.all ((firsts (answers parse (checkEvents es ++ [(inst, arrival)]))).map Prod.snd))
        simp only [hnone, htold, List.foldl_cons, List.foldl_nil, hresult] at hstep
        cases hstep
        rw [List.length_nil, List.drop_zero] at htold
        refine ⟨?_, hset, rfl, rfl, rfl, rfl, rfl⟩
        rw [hshares, htold]
        simp
      · simp only [htold, List.foldl_nil] at hstep
        cases hstep
        exact ⟨hshares.trans (by rw [hsame]), hset, rfl, rfl, rfl, rfl, rfl⟩
    obtain ⟨hshares', hchecks', heach', hdaemon', hauxiliary', hhash', hsubmit'⟩ := hcalled
    refine ⟨heach' ▸ h.laws, hdaemon'.trans h.sent, hauxiliary'.trans h.chain, ?_, ?_, ?_, ?_⟩
    · rw [hhash', hpresent]
      exact h.present
    · rw [hsubmit', hsubmit]
      exact h.submit
    · rw [hsubmit]
      exact fun hnot => absurd hanswered hnot
    · intro _
      exact ⟨asked, check', hfor.concat _, hchecks', hasked', hshares'⟩
  · rw [(h.waiting hanswered).2.1] at hget
    exact nomatch hget

theorem handled_template {es : List (HandlingEvent ι)} {s : Handling ι}
    (h : Handled parse daemon auxiliary hash es s) (new : Str) :
    Handled parse daemon auxiliary hash (es ++ [.template new])
      (if s.auxiliary then { s with hash := new } else s) := by
  have hsubmit : submitEvents (es ++ [.template new]) = submitEvents es := by
    rw [submitEvents_concat]
    exact List.append_nil _
  have hcheck : checkEvents (es ++ [.template new]) = checkEvents es := by
    rw [checkEvents_concat]
    exact List.append_nil _
  have hchecking := h.checking
  rw [← hcheck, ← hsubmit] at hchecking
  have hfor : Answered daemon.instances (submitEvents (es ++ [.template new])) →
      ∃ asked call, AskedFor daemon auxiliary hash (es ++ [.template new]) asked ∧
        s.checks = [(asked, call)] ∧
        Asked parse daemon.instances false (checkEvents (es ++ [.template new])) call ∧
        s.shares = call.called.flatMap (shareOf asked) := by
    intro hanswered
    obtain ⟨asked, call, hfor, hrest⟩ := hchecking hanswered
    exact ⟨asked, call, hfor.concat _, hrest⟩
  have hpresent := presentHash_concat auxiliary hash es (.template new)
  have hsubmit' := h.submit
  have hwaiting := h.waiting
  rw [← hsubmit] at hsubmit' hwaiting
  rw [← hcheck] at hwaiting
  by_cases haux : s.auxiliary = true
  · rw [if_pos haux]
    refine ⟨h.laws, h.sent, h.chain, ?_, hsubmit', hwaiting, hfor⟩
    rw [hpresent, ← h.chain, if_pos haux]
    rfl
  · rw [if_neg haux]
    refine ⟨h.laws, h.sent, h.chain, ?_, hsubmit', hwaiting, hfor⟩
    rw [h.present, hpresent, presentHash, ← h.chain, if_neg haux, if_neg haux]

theorem handled_step {es : List (HandlingEvent ι)} {s s' : Handling ι}
    (h : Handled parse daemon auxiliary hash es s) {e : HandlingEvent ι}
    (hstep : s.step parse e = some s') :
    Handled parse daemon auxiliary hash (es ++ [e]) s' := by
  cases e with
  | submit inst arrival => exact handled_submit h hstep
  | check k inst arrival => exact handled_check h hstep
  | template new =>
      cases hstep
      exact handled_template h new

theorem handled_runs {before es : List (HandlingEvent ι)} {s s' : Handling ι}
    (h : Handled parse daemon auxiliary hash before s)
    (hrun : Run.exec (Handling.step parse) s es = some s') :
    Handled parse daemon auxiliary hash (before ++ es) s' := by
  induction es generalizing before s with
  | nil =>
      cases hrun
      rw [List.append_nil]
      exact h
  | cons e es ih =>
      rw [Run.exec, Option.bind_eq_some_iff] at hrun
      obtain ⟨t, hstep, hrun⟩ := hrun
      rw [List.append_cons]
      exact ih (handled_step h hstep) hrun

/-- A share that is no block is handed on at once, and nobody is asked. -/
theorem noBlock_runs {es : List (HandlingEvent ι)} {s s' : Handling ι} (hsubmit : s.submit = none)
    (hchecks : s.checks = []) (hrun : Run.exec (Handling.step parse) s es = some s') :
    s'.shares = s.shares := by
  induction es generalizing s with
  | nil =>
      cases hrun
      rfl
  | cons e es ih =>
      rw [Run.exec, Option.bind_eq_some_iff] at hrun
      obtain ⟨t, hstep, hrun⟩ := hrun
      cases e with
      | submit inst arrival =>
          rw [Handling.step, hsubmit, Option.bind_none] at hstep
          cases hstep
      | check k inst arrival =>
          rw [Handling.step, hchecks, List.getElem?_nil, Option.bind_none] at hstep
          cases hstep
      | template new =>
          cases hstep
          by_cases haux : s.auxiliary = true
          · rw [if_pos haux] at hrun
            exact ih (s := { s with hash := new }) hsubmit hchecks hrun
          · rw [if_neg haux] at hrun
            exact ih hsubmit hchecks hrun

/-- The instance's answer to the check, as far as it counts, is the block. -/
def foundBy (parse : Str → Option (Body Response)) (es : List (HandlingEvent ι)) (hash : Str)
    (inst : ι) : Bool :=
  (first? (answers parse (checkEvents es)) inst).any (knows hash)

/-- The transaction of a share: the first of the block, as some daemon tells it that knows the
block, or none where no daemon does. -/
def ToldBy (parse : Str → Option (Body Response)) (daemon : Daemon ι) (es : List (HandlingEvent ι))
    (hash : Str) (transaction : Option Str) : Prop :=
  (daemon.instances.any (foundBy parse es hash) = true → ∃ inst ∈ daemon.instances, ∃ result,
    first? (answers parse (checkEvents es)) inst = some result ∧ knows hash result = true ∧
      result.response.bind Response.coinbase = transaction) ∧
  (daemon.instances.any (foundBy parse es hash) = false → transaction = none)

theorem Handled.shares_eq {es : List (HandlingEvent ι)} {s : Handling ι}
    (h : Handled parse daemon auxiliary hash es s) :
    (¬ Answered daemon.instances (checkEvents es) → s.shares = []) ∧
    (Answered daemon.instances (checkEvents es) →
      ∃ asked transaction, AskedFor daemon auxiliary hash es asked ∧
        s.shares = [⟨some (daemon.instances.any (foundBy parse es asked)), transaction⟩] ∧
        ToldBy parse daemon es asked transaction) := by
  by_cases hsubmit : Answered daemon.instances (submitEvents es)
  · obtain ⟨asked, call, hfor, -, hasked, hshares⟩ := h.checking hsubmit
    rcases hasked.called_all daemon.nodup with ⟨hanswered, hcalled⟩ | ⟨hwaiting, hcalled⟩
    · refine ⟨fun hnot => absurd hanswered hnot, fun _ => ?_⟩
      obtain ⟨haccepted, htransaction, hnothing⟩ := checkAccepted_eq asked
        ((firsts (answers parse (checkEvents es))).map Prod.snd)
      -- a result is the first answer of an instance
      have hfirst : ∀ result ∈ (firsts (answers parse (checkEvents es))).map Prod.snd,
          ∃ inst ∈ daemon.instances, first? (answers parse (checkEvents es)) inst = some result := by
        intro result hresult
        obtain ⟨answer, hmem, rfl⟩ := List.mem_map.mp hresult
        refine ⟨answer.1, hasked.mem_instances _ ?_, first?_of_mem hmem⟩
        exact (mem_fst_iff _ _).mp (List.mem_map_of_mem hmem)
      have hany : ((firsts (answers parse (checkEvents es))).map Prod.snd).any (knows asked)
          = daemon.instances.any (foundBy parse es asked) := by
        rw [Bool.eq_iff_iff, List.any_eq_true, List.any_eq_true]
        constructor
        · rintro ⟨result, hmem, hknows⟩
          obtain ⟨inst, hinst, hresult⟩ := hfirst result hmem
          refine ⟨inst, hinst, ?_⟩
          rw [foundBy, hresult]
          exact hknows
        · rintro ⟨inst, -, hfound⟩
          obtain ⟨result, hresult, hknows⟩ := (Option.any_eq_true _ _).mp hfound
          exact ⟨result, List.mem_map_of_mem (mem_of_first? hresult), hknows⟩
      refine ⟨asked, (checkAccepted asked
        ((firsts (answers parse (checkEvents es))).map Prod.snd)).2, hfor, ?_, ?_⟩
      · rw [hshares, hcalled, ← hany, ← haccepted]
        rfl
      · refine ⟨fun hfound => ?_, fun hunknown => hnothing (hany.trans hunknown)⟩
        obtain ⟨result, hmem, hknows, hcoinbase⟩ := htransaction (hany.trans hfound)
        obtain ⟨inst, hinst, hresult⟩ := hfirst result hmem
        exact ⟨inst, hinst, result, hresult, hknows, hcoinbase⟩
    · refine ⟨fun _ => ?_, fun hanswered => absurd hanswered hwaiting⟩
      rw [hshares, hcalled]
      rfl
  · obtain ⟨hcheck, -, hshares⟩ := h.waiting hsubmit
    refine ⟨fun _ => hshares, fun hanswered => ?_⟩
    rw [hcheck] at hanswered
    exact absurd hanswered (not_answered_nil daemon)

/-- However the daemons' answers and failures interleave, a share is handed on once: a
block when all daemons have answered the check, as accepted just when some daemon
knows a block of its hash on its chain, and whatever was said to the submission. -/
theorem handlePrimary_runs (laws : AsyncEach each) {blockValid : Bool} {es : List (HandlingEvent ι)}
    {s : Handling ι}
    (hrun : Run.exec (Handling.step parse) (handlePrimary each daemon hash blockValid) es = some s) :
    (blockValid = false → s.shares = [⟨none, none⟩]) ∧
    (blockValid = true → ¬ Answered daemon.instances (checkEvents es) → s.shares = []) ∧
    (blockValid = true → Answered daemon.instances (checkEvents es) → ∃ transaction,
      s.shares = [⟨some (daemon.instances.any (foundBy parse es hash)), transaction⟩] ∧
      ToldBy parse daemon es hash transaction) := by
  cases blockValid with
  | false =>
      refine ⟨fun _ => ?_, nofun, nofun⟩
      rw [noBlock_runs rfl rfl hrun]
      rfl
  | true =>
      have hhandled := handled_runs (handled_start laws) hrun
      rw [List.nil_append] at hhandled
      obtain ⟨hwaiting, hanswered⟩ := hhandled.shares_eq
      refine ⟨nofun, fun _ => hwaiting, fun _ hall => ?_⟩
      obtain ⟨asked, transaction, hfor, hshares⟩ := hanswered hall
      -- the share's own hash does not change
      obtain ⟨-, -, -, -, -, -, -, rfl⟩ := hfor
      exact ⟨transaction, hshares⟩

/-- The same for an auxiliary block, except that the block looked for is the one the pool
has when the last daemon has answered the submission. -/
theorem handleAuxiliary_runs (laws : AsyncEach each) {es : List (HandlingEvent ι)} {s : Handling ι}
    (hrun : Run.exec (Handling.step parse) (handleAuxiliary each daemon hash true) es = some s) :
    (¬ Answered daemon.instances (checkEvents es) → s.shares = []) ∧
    (Answered daemon.instances (checkEvents es) →
      ∃ asked transaction, AskedFor daemon true hash es asked ∧
        s.shares = [⟨some (daemon.instances.any (foundBy parse es asked)), transaction⟩] ∧
        ToldBy parse daemon es asked transaction ∧
        ((∀ new, .template new ∈ es → new = hash) → asked = hash)) := by
  have hhandled := handled_runs (handled_start laws) hrun
  rw [List.nil_append] at hhandled
  obtain ⟨hwaiting, hanswered⟩ := hhandled.shares_eq
  refine ⟨hwaiting, fun hall => ?_⟩
  obtain ⟨asked, transaction, hfor, hshares, htold⟩ := hanswered hall
  refine ⟨asked, transaction, hfor, hshares, htold, fun hsame => ?_⟩
  obtain ⟨before, inst, arrival, after, rfl, -, -, rfl⟩ := hfor
  rw [presentHash, if_pos rfl]
  cases hlast : (before.filterMap HandlingEvent.template?).getLast? with
  | none => rfl
  | some new =>
      obtain ⟨e, he, hnew⟩ := List.mem_filterMap.mp (List.mem_of_getLast? hlast)
      cases e with
      | submit inst' arrival' => exact nomatch hnew
      | check k inst' arrival' => exact nomatch hnew
      | template new' =>
          cases hnew
          exact hsame new (List.mem_append_left _ he)

end

/-! ### Two daemons -/

/-- Three daemons are asked at the start, and the second does not answer. -/
def sampleDaemon : Daemon Nat :=
  .started [0, 2, 1] (by decide)
    [.single ⟨none, some Response.other, some 0⟩, failure (some 2) malformedText,
      .single ⟨none, some Response.other, some 1⟩] (by decide)

/-- Texts that stand for a refusal, and for a block on the chain. -/
def sampleParse (data : Str) : Option (Body Response) :=
  if data = "high-hash".toList then some (.one (.value none (some (.text "rejected".toList))))
  else if data = "aa".toList then
    some (.one (.value none (some (.block "aa".toList 0 ["cc".toList]))))
  else none

/-- Both refuse the block; one of them knows it all the same. -/
def refusedRun : List (HandlingEvent Nat) :=
  [.submit 1 (.ended 200 "high-hash".toList), .submit 0 (.failed "socket hang up".toList),
    .submit 0 (.ended 200 []), .check 0 1 (.ended 401 []), .template "bb".toList,
    .check 0 0 (.ended 200 "aa".toList)]

theorem handlePrimary_runs_refused :
    ∃ s, Run.exec (Handling.step sampleParse)
        (handlePrimary countCompleted sampleDaemon "aa".toList true) refusedRun = some s ∧
      s.shares = [⟨some true, some "cc".toList⟩] := by
  have hcheck : (Run.exec (Handling.step sampleParse)
      (handlePrimary countCompleted sampleDaemon "aa".toList true) refusedRun).isSome = true := by
    decide +kernel
  obtain ⟨s, hrun⟩ := Option.isSome_iff_exists.mp hcheck
  have hanswered : Answered sampleDaemon.instances (checkEvents refusedRun) := by
    unfold Answered
    decide +kernel
  have hfound : sampleDaemon.instances.any (foundBy sampleParse refusedRun "aa".toList) = true := by
    decide +kernel
  obtain ⟨transaction, hshares, htold, -⟩ :=
    (handlePrimary_runs countCompleted_laws hrun).2.2 rfl hanswered
  rw [hfound] at hshares
  -- whoever knows the block tells the same transaction
  have hblock : ∀ inst ∈ sampleDaemon.instances,
      ∀ result, first? (answers sampleParse (checkEvents refusedRun)) inst = some result →
        knows "aa".toList result = true →
        result.response.bind Response.coinbase = some "cc".toList := by
    decide +kernel
  obtain ⟨inst, hinst, result, hresult, hknows, rfl⟩ := htold hfound
  exact ⟨s, hrun, by rw [hshares, hblock inst hinst result hresult hknows]⟩

/-- A new template comes while the submission waits for its second answer. -/
def overtakenRun : List (HandlingEvent Nat) :=
  [.submit 0 (.ended 200 []), .template "bb".toList, .submit 1 (.ended 200 []),
    .check 0 0 (.ended 200 "aa".toList), .check 0 1 (.ended 200 "aa".toList)]

/-- The block is on the chain, and the share says that it is not. -/
theorem handleAuxiliary_runs_overtaken :
    ∃ s, Run.exec (Handling.step sampleParse) (handleAuxiliary countCompleted sampleDaemon "aa".toList true)
        overtakenRun = some s ∧
      ∃ asked transaction, AskedFor sampleDaemon true "aa".toList overtakenRun asked ∧
        s.shares = [⟨some (sampleDaemon.instances.any (foundBy sampleParse overtakenRun asked)),
          transaction⟩] ∧ s.shares ≠ [⟨some true, transaction⟩] := by
  have hcheck : (Run.exec (Handling.step sampleParse)
      (handleAuxiliary countCompleted sampleDaemon "aa".toList true) overtakenRun).map
        (fun s => decide (s.shares = [⟨some false, none⟩])) = some true := by
    decide +kernel
  obtain ⟨s, hrun, hshares⟩ := Option.map_eq_some_iff.mp hcheck
  have hanswered : Answered sampleDaemon.instances (checkEvents overtakenRun) := by
    unfold Answered
    decide +kernel
  obtain ⟨asked, transaction, hfor, hshare, -⟩ := (handleAuxiliary_runs countCompleted_laws hrun).2 hanswered
  refine ⟨s, hrun, asked, transaction, hfor, hshare, ?_⟩
  rw [of_decide_eq_true hshares]
  simp

end DogeConnect.BlockSubmission
