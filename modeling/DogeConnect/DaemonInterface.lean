/-
Asking the daemons.

`interface.js` and `daemon.js`, which the two pools share line by line.  A
request goes to every instance at once; an instance may end its response, fail,
or both, at any time and in any order.  `handleRequest` takes the first of it,
`sendCommands` calls back once: in streaming mode with the first answer that is
no error, else when all have answered.

    deliver_gather     the flags and counters are determined by the first answers
    called_once        every interleaving calls back once, and with what
    checkInitialized_runs   which daemons a pool starts with

`async.each` is a package; what is relied on of it is `AsyncEach`.  The texts of the
requests are left out.
-/
import DogeConnect.HashUtil
import DogeConnect.Lib.Firsts
import DogeConnect.Lib.Run

namespace DogeConnect.Interface

open Firsts

/-- `error` of a response, where it is not falsy. -/
structure RpcError where
  code : Option Int
  message : Str
  deriving DecidableEq

/-- `response` is `none` where it is falsy, `inst` where it is `null`. -/
structure Answer (ι ρ : Type) where
  error : Option RpcError
  response : Option ρ
  inst : Option ι
  deriving DecidableEq

/-- What is given to the callback of `handleRequest`. -/
inductive Result (ι ρ : Type) where
  | single (answer : Answer ι ρ)
  | batch (answers : List (Answer ι ρ))
  deriving DecidableEq

namespace Result

variable {ι ρ : Type}

/-- An array has no such property. -/
def error : Result ι ρ → Option RpcError
  | single answer => answer.error
  | batch _ => none

def response : Result ι ρ → Option ρ
  | single answer => answer.response
  | batch _ => none

def succeeded (result : Result ι ρ) : Bool := result.error.isNone

end Result

/-- A value in the text of a response: `error` and `result` of an object, of which
other values than `null` have none. -/
inductive Element (ρ : Type) where
  | null
  | value (error : Option RpcError) (result : Option ρ)

/-- What `JSON.parse` makes of the text of a response. -/
inductive Body (ρ : Type) where
  | one (element : Element ρ)
  | many (elements : List (Element ρ))

/-- What happens to the request of an instance: the response ends, or an error
(which a timeout comes to, since it aborts the request). -/
inductive Arrival where
  | ended (statusCode : Nat) (data : Str)
  | failed (message : Str)
  deriving DecidableEq

/-- What `sendCommands` gives to its callback. -/
inductive Told (ι ρ : Type) where
  | one (result : Option (Result ι ρ))
  | all (results : List (Result ι ρ))
  deriving DecidableEq

/-- What is documented of `async.each`, where `each count completed` says whether it calls
its last argument when `completed` of `count` calls of the iteratee have called back, none with
an error: it does when all have. -/
structure AsyncEach (each : Nat → Nat → Bool) : Prop where
  calls : ∀ {count completed : Nat}, completed ≤ count →
    each count completed = decide (completed = count)

/-- The counter that the package keeps. -/
def countCompleted (count completed : Nat) : Bool := completed == count

theorem countCompleted_laws : AsyncEach countCompleted := ⟨fun _ => rfl⟩

/-- A call of `sendCommands`: `async.each`, its instances, the flag `responded` of each call
of `handleRequest`, its own variables, how often `eachCallback` was called, and the calls of
the callback. -/
structure Commands (ι ρ : Type) where
  each : Nat → Nat → Bool
  instances : List ι
  streaming : Bool
  answered : List ι
  results : List (Result ι ρ)
  responded : Bool
  completed : Nat
  called : List (Told ι ρ)

variable {ι ρ : Type}

/-! ## Responses -/

def Element.answer (inst : ι) : Element ρ → Option (Answer ι ρ)
  | .null => none
  | .value error result => some ⟨error, result, some inst⟩

def Body.result (inst : ι) : Body ρ → Option (Result ι ρ)
  | .one element => (element.answer inst).map .single
  | .many elements => (elements.mapM (Element.answer inst)).map .batch

def failure (inst : Option ι) (message : Str) : Result ι ρ := .single ⟨some ⟨some (-1), message⟩, none, inst⟩

def unauthorizedText : Str := "Unauthorized RPC access. Invalid RPC username or password".toList

def malformedText : Str := "Could not parse RPC data from daemon response".toList

def noCommandsText : Str := "No commands passed to daemon".toList

section
variable (parse : Str → Option (Body ρ))

/-- What the `try` of `handleResponse` calls back with: reading `null` throws. -/
def parsed (inst : ι) (data : Str) : Result ι ρ :=
  ((parse data).bind (Body.result inst)).getD (failure (some inst) malformedText)

/-- `handleResponse`: the calls of its callback. -/
def handleResponse (statusCode : Nat) (inst : ι) (data : Str) : List (Result ι ρ) :=
  (if statusCode = 401 ∨ statusCode = 403 then [failure (some inst) unauthorizedText] else [])
    ++ [parsed parse inst data]

/-- What `handleRequest` hears of its request. -/
def replies (inst : ι) : Arrival → List (Result ι ρ)
  | .ended statusCode data => handleResponse parse statusCode inst data
  | .failed message => [failure (some inst) message]

/-- The one it passes on. -/
def reply (inst : ι) : Arrival → Result ι ρ
  | .ended statusCode data =>
      if statusCode = 401 ∨ statusCode = 403 then failure (some inst) unauthorizedText
      else parsed parse inst data
  | .failed message => failure (some inst) message

theorem replies_eq (inst : ι) (arrival : Arrival) :
    ∃ more, replies parse inst arrival = reply parse inst arrival :: more := by
  cases arrival with
  | ended statusCode data =>
      rw [replies, reply, handleResponse]
      by_cases h : statusCode = 401 ∨ statusCode = 403
      · rw [if_pos h, if_pos h]
        exact ⟨_, rfl⟩
      · rw [if_neg h, if_neg h]
        exact ⟨_, rfl⟩
  | failed message => exact ⟨[], rfl⟩

end

/-! ## Requests -/

namespace Commands

/-- The last argument of `async.each`. -/
def finish (s : Commands ι ρ) : Commands ι ρ :=
  { s with called := s.called ++
      [if s.streaming && !s.responded then .one s.results.head? else .all s.results] }

def eachCallback (s : Commands ι ρ) : Commands ι ρ :=
  let s := { s with completed := s.completed + 1 }
  if s.each s.instances.length s.completed then s.finish else s

/-- The callback that `sendCommands` gives to `handleRequest`. -/
def handleResult (s : Commands ι ρ) (response : Result ι ρ) : Commands ι ρ :=
  let s := { s with results := s.results ++ [response] }
  if s.streaming && !s.responded && response.succeeded then
    { s with responded := true, called := s.called ++ [.one (some response)] }
  else s.eachCallback

variable [DecidableEq ι]

/-- A callback in `handleRequest`, behind its flag. -/
def deliver (s : Commands ι ρ) (inst : ι) (response : Result ι ρ) : Commands ι ρ :=
  if inst ∈ s.answered then s
  else { s with answered := s.answered ++ [inst] }.handleResult response

end Commands

/-- `sendCommands`: without commands it calls back and asks nobody. -/
def sendCommands {κ : Type} (each : Nat → Nat → Bool) (instances : List ι) (commands : List κ)
    (streaming : Bool) : Commands ι ρ :=
  if commands.length < 1 then
    ⟨each, [], streaming, [], [], false, 0, [.one (some (failure none noCommandsText))]⟩
  else
    let s : Commands ι ρ := ⟨each, instances, streaming, [], [], false, 0, []⟩
    if each instances.length 0 then s.finish else s

/-- One event of the request to an instance. -/
def step [DecidableEq ι] (parse : Str → Option (Body ρ)) (s : Commands ι ρ) (e : ι × Arrival) :
    Option (Commands ι ρ) :=
  if e.1 ∈ s.instances then
    some ((replies parse e.1 e.2).foldl (fun s response => s.deliver e.1 response) s)
  else none

/-! ## What the callback is given -/

/-- What the first answers, in the order in which they came, make the callback be
called with. -/
def outcome (streaming : Bool) (count : Nat) (heard : List (ι × Result ι ρ)) :
    Option (Told ι ρ) :=
  if streaming then
    ((heard.find? fun answer => answer.2.succeeded).map fun answer => .one (some answer.2)).or
      (if heard.length = count then some (.one (heard.map Prod.snd).head?) else none)
  else if heard.length = count then some (.all (heard.map Prod.snd)) else none

/-- A call of `sendCommands` after its first answers. -/
def gather (each : Nat → Nat → Bool) (instances : List ι) (streaming : Bool)
    (heard : List (ι × Result ι ρ)) : Commands ι ρ where
  each := each
  instances := instances
  streaming := streaming
  answered := heard.map Prod.fst
  results := heard.map Prod.snd
  responded := streaming && heard.any fun answer => answer.2.succeeded
  completed := heard.length - (streaming && heard.any fun answer => answer.2.succeeded).toNat
  called := (outcome streaming instances.length heard).toList

theorem outcome_all {count : Nat} {heard : List (ι × Result ι ρ)} :
    outcome false count heard
      = if heard.length = count then some (.all (heard.map Prod.snd)) else none := rfl

theorem outcome_success {count : Nat} {heard : List (ι × Result ι ρ)} {answer : ι × Result ι ρ}
    (h : heard.find? (fun answer => answer.2.succeeded) = some answer) :
    outcome true count heard = some (.one (some answer.2)) := by
  rw [outcome, if_pos rfl, h]
  rfl

theorem outcome_failures {count : Nat} {heard : List (ι × Result ι ρ)}
    (h : heard.find? (fun answer => answer.2.succeeded) = none) :
    outcome true count heard
      = if heard.length = count then some (.one (heard.map Prod.snd).head?) else none := by
  rw [outcome, if_pos rfl, h, Option.map_none, Option.none_or]

theorem sendCommands_eq {κ : Type} {each : Nat → Nat → Bool} (laws : AsyncEach each)
    (instances : List ι) {commands : List κ} (hcommands : commands ≠ []) (streaming : Bool) :
    (sendCommands each instances commands streaming : Commands ι ρ)
      = gather each instances streaming [] := by
  have hlength : ¬ commands.length < 1 := by
    have := List.length_pos_iff.mpr hcommands
    omega
  rw [sendCommands, if_neg hlength, laws.calls (Nat.zero_le _)]
  cases instances with
  | nil => cases streaming <;> rfl
  | cons inst instances => cases streaming <;> rfl

section
variable {each : Nat → Nat → Bool} {instances : List ι} {streaming : Bool}

theorem handleResult_gather (laws : AsyncEach each) {heard : List (ι × Result ι ρ)}
    (hlength : heard.length < instances.length) (inst : ι) (response : Result ι ρ) :
    ({ gather each instances streaming heard with
        answered := (gather each instances streaming heard).answered ++ [inst] }).handleResult
        response
      = gather each instances streaming (heard ++ [(inst, response)]) := by
  have hbefore : heard.length ≠ instances.length := Nat.ne_of_lt hlength
  have hnow : each instances.length heard.length = false := by
    rw [laws.calls hlength.le]
    exact decide_eq_false hbefore
  have hnext : each instances.length (heard.length + 1) = decide (heard.length + 1 = instances.length) :=
    laws.calls hlength
  cases streaming with
  | false =>
      -- every answer counts, and the last one calls back
      simp only [gather, Commands.handleResult, Commands.eachCallback, Commands.finish, outcome_all,
        Bool.false_and, Bool.toNat_false, Nat.sub_zero, List.map_append, List.map_singleton,
        List.length_append, List.length_singleton, if_neg hbefore, Option.toList_none, hnext]
      by_cases hlast : heard.length + 1 = instances.length
      · simp [hlast]
      · simp [hlast]
  | true =>
      cases hfind : heard.find? (fun answer => answer.2.succeeded) with
      | some first =>
          -- the callback has been called, and one count is missing from now on
          have hany : heard.any (fun answer => answer.2.succeeded) = true := by
            rw [← List.isSome_find?, hfind]
            rfl
          have hpos : 0 < heard.length := by
            cases heard with
            | nil => exact nomatch hfind
            | cons _ _ => exact Nat.succ_pos _
          have hfind' : (heard ++ [(inst, response)]).find? (fun answer => answer.2.succeeded)
              = some first := by
            rw [List.find?_append, hfind]
            rfl
          have hcount : heard.length - 1 + 1 = heard.length := Nat.sub_add_cancel hpos
          simp only [gather, Commands.handleResult, Commands.eachCallback, outcome_success hfind,
            outcome_success hfind', hany, List.any_append, Bool.true_or, Bool.and_self,
            Bool.toNat_true, Bool.not_true, Bool.and_false, Bool.false_and, hcount, hnow,
            List.map_append, List.map_singleton, List.length_append, List.length_singleton,
            Nat.add_sub_cancel, Bool.false_eq_true, if_false]
      | none =>
          have hany : heard.any (fun answer => answer.2.succeeded) = false := by
            rw [← List.isSome_find?, hfind]
            rfl
          cases hok : response.succeeded with
          | true =>
              have hfind' : (heard ++ [(inst, response)]).find? (fun answer => answer.2.succeeded)
                  = some (inst, response) := by
                rw [List.find?_append, hfind, Option.none_or, List.find?_singleton, if_pos hok]
              simp [gather, Commands.handleResult, outcome_failures hfind, outcome_success hfind',
                hany, hok, hbefore]
          | false =>
              have hfind' : (heard ++ [(inst, response)]).find? (fun answer => answer.2.succeeded)
                  = none := by
                rw [List.find?_append, hfind, Option.none_or, List.find?_singleton]
                exact if_neg (by simp [hok])
              simp only [gather, Commands.handleResult, Commands.eachCallback, Commands.finish,
                outcome_failures hfind, outcome_failures hfind', hany, hok, List.any_append,
                List.any_cons, List.any_nil, Bool.or_self, Bool.and_false, Bool.false_eq_true,
                if_false, Bool.toNat_false, Nat.sub_zero, List.map_append, List.map_singleton,
                List.length_append, List.length_singleton, if_neg hbefore, Option.toList_none, hnext]
              by_cases hlast : heard.length + 1 = instances.length
              · simp [hlast]
              · simp [hlast]

variable [DecidableEq ι]

theorem deliver_gather (laws : AsyncEach each) {heard : List (ι × Result ι ρ)} (hnodup : (heard.map Prod.fst).Nodup)
    (hsub : heard.map Prod.fst ⊆ instances) {inst : ι} (hinst : inst ∈ instances)
    (response : Result ι ρ) :
    (gather each instances streaming heard).deliver inst response
      = gather each instances streaming (hear heard (inst, response)) := by
  by_cases hmem : inst ∈ heard.map Prod.fst
  · rw [hear_of_mem hmem, Commands.deliver]
    exact if_pos hmem
  · -- an instance is missing, so that there are more than have answered
    have hlength : heard.length < instances.length := by
      have hsub' : inst :: heard.map Prod.fst ⊆ instances := List.cons_subset.mpr ⟨hinst, hsub⟩
      have hle := (List.subperm_of_subset (List.nodup_cons.mpr ⟨hmem, hnodup⟩) hsub').length_le
      simpa using hle
    rw [hear_of_notMem hmem, Commands.deliver]
    exact (if_neg hmem).trans (handleResult_gather laws hlength inst response)

end

/-! ## Runs -/

/-- Every instance has ended its response or failed. -/
def Answered (instances : List ι) (es : List (ι × Arrival)) : Prop :=
  ∀ inst ∈ instances, inst ∈ es.map Prod.fst

section
variable (parse : Str → Option (Body ρ))

/-- The answers that events bring, the later ones of an instance included. -/
def answers (es : List (ι × Arrival)) : List (ι × Result ι ρ) :=
  es.map fun e => (e.1, reply parse e.1 e.2)

theorem fst_answers (es : List (ι × Arrival)) :
    (answers parse es).map Prod.fst = es.map Prod.fst := by
  rw [answers, List.map_map]
  rfl

theorem answers_concat (es : List (ι × Arrival)) (e : ι × Arrival) :
    answers parse (es ++ [e]) = answers parse es ++ [(e.1, reply parse e.1 e.2)] := by
  rw [answers, List.map_append]
  rfl

variable [DecidableEq ι] {each : Nat → Nat → Bool} {instances : List ι} {streaming : Bool}

theorem deliver_answered {s : Commands ι ρ} {inst : ι} (h : inst ∈ s.answered)
    (response : Result ι ρ) : s.deliver inst response = s := if_pos h

/-- `handleRequest` passes on the first thing it hears. -/
theorem foldl_deliver {s : Commands ι ρ} {inst : ι} (h : inst ∈ s.answered)
    (responses : List (Result ι ρ)) :
    responses.foldl (fun s response => s.deliver inst response) s = s := by
  induction responses with
  | nil => rfl
  | cons response responses ih => rw [List.foldl_cons, deliver_answered h, ih]

theorem step_gather (laws : AsyncEach each) {heard : List (ι × Result ι ρ)}
    (hnodup : (heard.map Prod.fst).Nodup) (hsub : heard.map Prod.fst ⊆ instances)
    {e : ι × Arrival} {s' : Commands ι ρ}
    (h : step parse (gather each instances streaming heard) e = some s') :
    e.1 ∈ instances ∧
      s' = gather each instances streaming (hear heard (e.1, reply parse e.1 e.2)) := by
  by_cases hinst : e.1 ∈ (gather each instances streaming heard).instances
  · refine ⟨hinst, ?_⟩
    obtain ⟨more, hmore⟩ := replies_eq parse e.1 e.2
    have hanswered : e.1 ∈ (gather each instances streaming
        (hear heard (e.1, reply parse e.1 e.2))).answered := by
      by_cases hmem : e.1 ∈ heard.map Prod.fst
      · rw [hear_of_mem hmem]
        exact hmem
      · rw [hear_of_notMem hmem]
        simp [gather]
    rw [step, if_pos hinst, hmore, List.foldl_cons, deliver_gather laws hnodup hsub hinst,
      foldl_deliver hanswered] at h
    exact (Option.some.inj h).symm
  · rw [step, if_neg hinst] at h
    exact nomatch h

/-- A call and the events of its requests so far. -/
structure Asked (instances : List ι) (streaming : Bool) (es : List (ι × Arrival))
    (s : Commands ι ρ) : Prop where
  laws : AsyncEach s.each
  known : ∀ e ∈ es, e.1 ∈ instances
  eq : s = gather s.each instances streaming (firsts (answers parse es))

variable {parse}

theorem firsts_answered {es : List (ι × Arrival)} {e : ι × Arrival} (hinst : e.1 ∈ instances)
    (hanswered : Answered instances es) :
    firsts (answers parse (es ++ [e])) = firsts (answers parse es) := by
  rw [answers_concat, firsts_concat]
  refine hear_of_mem ?_
  rw [mem_fst_iff, fst_answers]
  exact hanswered e.1 hinst

namespace Asked

variable {es : List (ι × Arrival)} {s : Commands ι ρ}

theorem start {κ : Type} (laws : AsyncEach each) {commands : List κ} (hcommands : commands ≠ []) :
    Asked parse instances streaming [] (sendCommands each instances commands streaming) := by
  rw [sendCommands_eq laws instances hcommands streaming]
  exact ⟨laws, fun _ he => absurd he List.not_mem_nil, rfl⟩

theorem mem_instances (h : Asked parse instances streaming es s) :
    ∀ inst ∈ (answers parse es).map Prod.fst, inst ∈ instances := by
  intro inst hinst
  rw [fst_answers] at hinst
  obtain ⟨e, he, rfl⟩ := List.mem_map.mp hinst
  exact h.known e he

theorem step (h : Asked parse instances streaming es s) {e : ι × Arrival} {s' : Commands ι ρ}
    (hstep : Interface.step parse s e = some s') :
    Asked parse instances streaming (es ++ [e]) s' := by
  have hsub : (firsts (answers parse es)).map Prod.fst ⊆ instances := fun inst hinst =>
    h.mem_instances inst ((mem_fst_iff _ _).mp hinst)
  rw [h.eq] at hstep
  obtain ⟨hinst, rfl⟩ := step_gather parse h.laws (nodup_fst _) hsub hstep
  refine ⟨h.laws, ?_, ?_⟩
  · intro e' he'
    rcases List.mem_append.mp he' with he' | he'
    · exact h.known e' he'
    · rw [List.mem_singleton.mp he']
      exact hinst
  · rw [answers_concat, firsts_concat]
    rfl

theorem exec {before : List (ι × Arrival)} (h : Asked parse instances streaming before s)
    {s' : Commands ι ρ} (hrun : Run.exec (Interface.step parse) s es = some s') :
    Asked parse instances streaming (before ++ es) s' := by
  induction es generalizing before s with
  | nil =>
      cases hrun
      rw [List.append_nil]
      exact h
  | cons e es ih =>
      rw [Run.exec, Option.bind_eq_some_iff] at hrun
      obtain ⟨t, hstep, hrun⟩ := hrun
      rw [List.append_cons]
      exact ih (h.step hstep) hrun

theorem answered_iff (hinstances : instances.Nodup) (h : Asked parse instances streaming es s) :
    (firsts (answers parse es)).length = instances.length ↔ Answered instances es := by
  rw [all_iff hinstances h.mem_instances, fst_answers]
  rfl

theorem called_all (hinstances : instances.Nodup) (h : Asked parse instances false es s) :
    (Answered instances es ∧ s.called = [.all ((firsts (answers parse es)).map Prod.snd)]) ∨
      (¬ Answered instances es ∧ s.called = []) := by
  have hall := h.answered_iff hinstances
  have hcalled : s.called
      = (outcome false instances.length (firsts (answers parse es))).toList := by
    rw [h.eq]
    rfl
  rw [outcome_all] at hcalled
  by_cases hlength : (firsts (answers parse es)).length = instances.length
  · rw [if_pos hlength] at hcalled
    exact .inl ⟨hall.mp hlength, hcalled⟩
  · rw [if_neg hlength] at hcalled
    exact .inr ⟨fun hanswered => hlength (hall.mpr hanswered), hcalled⟩

/-- What an event of a call that is not streaming adds to the calls of its callback. -/
theorem told (hinstances : instances.Nodup) (h : Asked parse instances false es s)
    {e : ι × Arrival} {s' : Commands ι ρ} (hstep : Interface.step parse s e = some s') :
    (¬ Answered instances es ∧ Answered instances (es ++ [e]) ∧
      s'.called.drop s.called.length = [.all ((firsts (answers parse (es ++ [e]))).map Prod.snd)]) ∨
    ((Answered instances es ↔ Answered instances (es ++ [e])) ∧
      s'.called.drop s.called.length = [] ∧ s'.called = s.called) := by
  have h' := h.step hstep
  have hinst : e.1 ∈ instances := h'.known e (by simp)
  have hmono : Answered instances es → Answered instances (es ++ [e]) := by
    intro hanswered inst hmem
    rw [List.map_append]
    exact List.mem_append_left _ (hanswered inst hmem)
  rcases h.called_all hinstances with ⟨hanswered, hcalled⟩ | ⟨hwaiting, hcalled⟩
  · rcases h'.called_all hinstances with ⟨hanswered', hcalled'⟩ | ⟨hwaiting', -⟩
    · rw [firsts_answered hinst hanswered] at hcalled'
      refine .inr ⟨iff_of_true hanswered hanswered', ?_, hcalled'.trans hcalled.symm⟩
      rw [hcalled, hcalled']
      rfl
    · exact absurd (hmono hanswered) hwaiting'
  · rcases h'.called_all hinstances with ⟨hanswered', hcalled'⟩ | ⟨hwaiting', hcalled'⟩
    · refine .inl ⟨hwaiting, hanswered', ?_⟩
      rw [hcalled, hcalled']
      rfl
    · refine .inr ⟨iff_of_false hwaiting hwaiting', ?_, hcalled'.trans hcalled.symm⟩
      rw [hcalled, hcalled']
      rfl

end Asked

theorem exists_first?_iff {es : List (ι × Arrival)} {result : Result ι ρ} :
    (∃ inst, first? (answers parse es) inst = some result) ↔
      ∃ answer ∈ firsts (answers parse es), answer.2 = result := by
  constructor
  · rintro ⟨inst, h⟩
    exact ⟨_, mem_of_first? h, rfl⟩
  · rintro ⟨answer, h, rfl⟩
    exact ⟨answer.1, first?_of_mem h⟩

/-- In every interleaving the callback is called once: with the first answer that is
no error, if the call is streaming, else when all have answered, in the order in
which they did. -/
theorem called_once {κ : Type} (laws : AsyncEach each) (hinstances : instances.Nodup)
    {commands : List κ} (hcommands : commands ≠ []) {es : List (ι × Arrival)} {s : Commands ι ρ}
    (hrun : Run.exec (step parse) (sendCommands each instances commands streaming) es = some s) :
    s.called = (outcome streaming instances.length (firsts (answers parse es))).toList ∧
    (s.called ≠ [] ↔ Answered instances es ∨
      streaming = true ∧ ∃ result, (∃ inst, first? (answers parse es) inst = some result) ∧
        result.succeeded = true) := by
  have hasked := (Asked.start laws hcommands).exec hrun
  rw [List.nil_append] at hasked
  have hall := hasked.answered_iff hinstances
  have htold : s.called = (outcome streaming instances.length (firsts (answers parse es))).toList := by
    rw [hasked.eq]
    rfl
  refine ⟨htold, ?_⟩
  have hcalled : s.called ≠ [] ↔
      (outcome streaming instances.length (firsts (answers parse es))).isSome = true := by
    rw [htold, Ne, Option.toList_eq_nil_iff, ← Ne, Option.isSome_iff_ne_none]
  rw [hcalled]
  cases streaming with
  | false =>
      rw [outcome_all, ← hall]
      simp
  | true =>
      cases hfind : (firsts (answers parse es)).find? (fun answer => answer.2.succeeded) with
      | some first =>
          have hok : first.2.succeeded = true := by
            have := List.find?_some hfind
            simpa using this
          rw [outcome_success hfind]
          refine iff_of_true rfl (.inr ⟨rfl, first.2, ?_, hok⟩)
          exact exists_first?_iff.mpr ⟨first, List.mem_of_find?_eq_some hfind, rfl⟩
      | none =>
          rw [outcome_failures hfind, ← hall]
          constructor
          · intro h
            refine .inl ?_
            by_contra hlength
            rw [if_neg hlength] at h
            exact nomatch h
          · rintro (hlength | ⟨-, result, hresult, hok⟩)
            · rw [if_pos hlength]
              rfl
            · obtain ⟨answer, hmem, rfl⟩ := exists_first?_iff.mp hresult
              exact absurd hok (List.find?_eq_none.mp hfind answer hmem)

/-- A daemon that answers with one text. -/
def sampleParse (data : Str) : Option (Body Str) :=
  if data = "ok".toList then some (.one (.value none (some data))) else none

/-- The first instance fails, and answers nevertheless; the second is not authorized. -/
def sampleArrivals : List (Nat × Arrival) :=
  [(1, .failed "socket hang up".toList), (0, .ended 401 "ok".toList), (1, .ended 200 "ok".toList),
    (2, .ended 200 "ok".toList)]

theorem called_once_streaming :
    ∃ s, Run.exec (step sampleParse)
        (sendCommands countCompleted [0, 1, 2] ["getmininginfo".toList] true) sampleArrivals = some s ∧
      s.called = [.one (some (.single ⟨none, some "ok".toList, some 2⟩))] := by
  have hcheck : (Run.exec (step sampleParse)
      (sendCommands countCompleted [0, 1, 2] ["getmininginfo".toList] true) sampleArrivals).isSome
        = true := by
    decide +kernel
  obtain ⟨s, hrun⟩ := Option.isSome_iff_exists.mp hcheck
  have hcalled := (called_once countCompleted_laws (by decide) (List.cons_ne_nil _ _) hrun).1
  refine ⟨s, hrun, hcalled.trans ?_⟩
  decide +kernel

end

/-! ## Start -/

/-- What `checkInitialized` emits. -/
inductive Status where
  | failed
  | online
  deriving DecidableEq

/-- The instances that `checkOnline` keeps: the answers are looked up by their order
of arrival. -/
def checkOnline (instances : List ι) (results : List (Result ι ρ)) : List ι :=
  ((instances.zip results).filter fun pair => pair.2.succeeded).map Prod.fst

def checkInitialized (instances : List ι) (results : List (Result ι ρ)) : Status :=
  if (checkOnline instances results).length < 1 then .failed else .online

theorem checkOnline_cons (inst : ι) (instances : List ι) (result : Result ι ρ)
    (results : List (Result ι ρ)) :
    checkOnline (inst :: instances) (result :: results)
      = if result.succeeded then inst :: checkOnline instances results
        else checkOnline instances results := by
  rw [checkOnline, List.zip_cons_cons, List.filter_cons]
  cases result.succeeded with
  | true => rfl
  | false => rfl

theorem checkOnline_sublist (instances : List ι) (results : List (Result ι ρ)) :
    List.Sublist (checkOnline instances results) instances := by
  induction instances generalizing results with
  | nil => exact List.nil_sublist _
  | cons inst instances ih =>
      cases results with
      | nil => exact List.nil_sublist _
      | cons result results =>
          rw [checkOnline_cons]
          split
          · exact (ih results).cons_cons inst
          · exact (ih results).cons inst

theorem length_checkOnline {instances : List ι} {results : List (Result ι ρ)}
    (hlength : results.length = instances.length) :
    (checkOnline instances results).length = results.countP Result.succeeded := by
  induction instances generalizing results with
  | nil =>
      rw [List.eq_nil_of_length_eq_zero hlength]
      rfl
  | cons inst instances ih =>
      cases results with
      | nil => exact nomatch hlength
      | cons result results =>
          have hrest := ih (Nat.succ.inj hlength)
          rw [checkOnline_cons, List.countP_cons]
          cases hok : result.succeeded with
          | true => simp [hrest]
          | false => simp [hrest]

/-- Those are kept that should be just when the answers came as if in the order of
the instances. -/
theorem checkOnline_eq_iff {instances : List ι} (hinstances : instances.Nodup)
    {results : List (Result ι ρ)} (hlength : results.length = instances.length) (keep : ι → Bool) :
    checkOnline instances results = instances.filter keep ↔
      results.map Result.succeeded = instances.map keep := by
  induction instances generalizing results with
  | nil =>
      rw [List.eq_nil_of_length_eq_zero hlength]
      exact iff_of_true rfl rfl
  | cons inst instances ih =>
      cases results with
      | nil => exact nomatch hlength
      | cons result results =>
          obtain ⟨hnew, hrest⟩ := List.nodup_cons.mp hinstances
          have ih := ih hrest (Nat.succ.inj hlength)
          rw [checkOnline_cons, List.filter_cons, List.map_cons, List.map_cons, List.cons.injEq]
          cases hok : result.succeeded with
          | true =>
              cases hkeep : keep inst with
              | true => simp [ih]
              | false =>
                  -- the instance is kept, and it comes nowhere else
                  refine iff_of_false (fun h => ?_) (by simp)
                  rw [if_pos rfl, if_neg Bool.false_ne_true] at h
                  have hmem : inst ∈ instances.filter keep := h ▸ List.mem_cons_self
                  exact hnew (List.mem_filter.mp hmem).1
          | false =>
              cases hkeep : keep inst with
              | true =>
                  refine iff_of_false (fun h => ?_) (by simp)
                  rw [if_neg Bool.false_ne_true, if_pos rfl] at h
                  have hmem : inst ∈ checkOnline instances results := h ▸ List.mem_cons_self
                  exact hnew ((checkOnline_sublist _ _).subset hmem)
              | false => simp [ih]

/-- The interface of a daemon that has been started: some instance is online. -/
structure Daemon (ι : Type) where
  instances : List ι
  nodup : instances.Nodup
  online : instances ≠ []

/-- The interface that is left when `checkInitialized` emits `online`. -/
def Daemon.started (instances : List ι) (hinstances : instances.Nodup) (results : List (Result ι ρ))
    (honline : checkInitialized instances results = .online) : Daemon ι where
  instances := checkOnline instances results
  nodup := (checkOnline_sublist instances results).nodup hinstances
  online := by
    rintro hnone
    rw [checkInitialized, hnone] at honline
    exact nomatch honline

section
variable [DecidableEq ι] (parse : Str → Option (Body ρ))

/-- The instance's answer, as far as it counts, is no error. -/
def isOnline (es : List (ι × Arrival)) (inst : ι) : Bool :=
  (first? (answers parse es) inst).any Result.succeeded

/-- The pool starts just when some daemon answers `getpeerinfo` without an error, and
keeps as many daemons as do; but which it keeps goes by the order of the answers,
and they are the right ones only if errors and answers come as if in the order of
the instances. -/
theorem checkInitialized_runs {κ : Type} {each : Nat → Nat → Bool} (laws : AsyncEach each)
    {instances : List ι} (hinstances : instances.Nodup)
    {commands : List κ} (hcommands : commands ≠ []) {es : List (ι × Arrival)}
    (hall : Answered instances es) {s : Commands ι ρ}
    (hrun : Run.exec (step parse) (sendCommands each instances commands false) es = some s) :
    ∃ results, s.called = [.all results] ∧
      (checkInitialized instances results = .online ↔
        ∃ inst ∈ instances, isOnline parse es inst = true) ∧
      (checkOnline instances results).length = (instances.filter (isOnline parse es)).length ∧
      (checkOnline instances results = instances.filter (isOnline parse es) ↔
        results.map Result.succeeded = instances.map (isOnline parse es)) := by
  have hasked := (Asked.start laws hcommands).exec hrun
  rw [List.nil_append] at hasked
  have hlength := (hasked.answered_iff hinstances).mpr hall
  have hsub := hasked.mem_instances
  have hall' : ∀ inst ∈ instances, inst ∈ (answers parse es).map Prod.fst := by
    rw [fst_answers]
    exact hall
  refine ⟨(firsts (answers parse es)).map Prod.snd, ?_, ?_⟩
  · rw [hasked.eq, gather, outcome_all, if_pos hlength]
    rfl
  have hresults : ((firsts (answers parse es)).map Prod.snd).length = instances.length := by
    rw [List.length_map, hlength]
  -- the answers are what each instance said first, in another order
  have hcount : ((firsts (answers parse es)).map Prod.snd).countP Result.succeeded
      = instances.countP (isOnline parse es) := by
    have hperm := (Firsts.perm hinstances hsub hall').countP_eq fun pair => pair.2.any Result.succeeded
    rw [List.countP_map, List.countP_map] at hperm
    rw [List.countP_map]
    exact hperm
  have hkept : (checkOnline instances ((firsts (answers parse es)).map Prod.snd)).length
      = (instances.filter (isOnline parse es)).length := by
    rw [length_checkOnline hresults, hcount, List.countP_eq_length_filter]
  refine ⟨?_, hkept, checkOnline_eq_iff hinstances hresults _⟩
  rw [checkInitialized, hkept, ← List.countP_eq_length_filter]
  constructor
  · intro h
    refine List.countP_pos_iff.mp ?_
    by_contra hzero
    rw [if_pos (by omega)] at h
    exact nomatch h
  · intro h
    have hpos := List.countP_pos_iff.mpr h
    exact if_neg (by omega)

/-- The daemons answer in their order. -/
theorem checkInitialized_runs_ordered :
    ∃ s results, Run.exec (step sampleParse) (sendCommands countCompleted [0, 1] ["getpeerinfo".toList] false)
        [(0, .ended 200 "ok".toList), (1, .ended 200 [])] = some s ∧ s.called = [.all results] ∧
      checkInitialized [0, 1] results = .online := by
  have hcheck : (Run.exec (step sampleParse) (sendCommands countCompleted [0, 1] ["getpeerinfo".toList] false)
      [(0, .ended 200 "ok".toList), (1, .ended 200 [])]).isSome = true := by
    decide +kernel
  obtain ⟨s, hrun⟩ := Option.isSome_iff_exists.mp hcheck
  have hanswered : Answered [0, 1] [(0, Arrival.ended 200 "ok".toList), (1, .ended 200 [])] := by
    unfold Answered
    decide +kernel
  obtain ⟨results, hcalled, honline, -⟩ :=
    checkInitialized_runs sampleParse countCompleted_laws (by decide) (List.cons_ne_nil _ _) hanswered hrun
  have hfirst : isOnline sampleParse [(0, .ended 200 "ok".toList), (1, .ended 200 [])] 0 = true := by
    decide +kernel
  exact ⟨s, results, hrun, hcalled, honline.mpr ⟨0, by decide, hfirst⟩⟩

/-- The one that fails answers first, and is the one that is kept. -/
example : (Run.exec (step sampleParse) (sendCommands countCompleted [0, 1] ["getpeerinfo".toList] false)
    [(1, .ended 200 []), (0, .ended 200 "ok".toList)]).map
      (fun s => s.results.map fun result => (result.succeeded, checkOnline [0, 1] s.results))
    = some [(false, [1]), (true, [1])] := by
  decide +kernel

end

end DogeConnect.Interface
