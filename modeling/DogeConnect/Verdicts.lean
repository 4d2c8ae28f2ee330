/-
Pool verdicts: which responses are counted.

`checkShareResponse` counts a message as the verdict on a share if its id is an
unsigned number and it has an `error` or a `result` that is `true`; the id
itself is not compared with anything.  Over the threads of `Dispatcher` a ghost
list records the ids of the responses that were counted.

    counted_step      the two counters are as many as the list is long
    matched_step      what is counted or queued answers submissions, each once,
                      if the receive loop reads no other verdicts
    verdicts_always   both along whole runs

What the handshakes push has no id, so it is never counted.  But they end with
the second read, whatever that holds: the reply to `mining.authorize` can come
behind it, and is then counted as a share.
-/
import DogeConnect.Dispatcher
import DogeConnect.ShareBooks
import DogeConnect.Handshake
import DogeConnect.TaskPacket

namespace DogeConnect

/-! ## The verdict of a message -/

/-- `checkShareResponse` counts the message, one way or the other. -/
def hasVerdict (msg : Json) : Bool :=
  msg.fieldSatisfies "error".toList (fun e => !e.isNull) ||
    msg.fieldSatisfies "result".toList (fun r => r.eqBool true)

/-- The id of a message that is counted as a verdict. -/
def verdictId (msg : Json) : Option Nat :=
  match readMessage msg with
  | .ok .shareResponse => if hasVerdict msg then submitId msg else none
  | _ => none

/-- The verdicts counted so far. -/
def DispatcherStats.verdicts (stats : DispatcherStats) : Nat :=
  stats.poolSharesAccepted + stats.poolSharesRejected

theorem checkShareResponse_verdicts (msg : Json) (stats : DispatcherStats) :
    (checkShareResponse msg stats).verdicts
      = stats.verdicts + if hasVerdict msg then 1 else 0 := by
  rw [checkShareResponse, hasVerdict]
  cases msg.fieldSatisfies "error".toList (fun e => !e.isNull) with
  | true =>
      show stats.poolSharesAccepted + (stats.poolSharesRejected + 1) = stats.verdicts + 1
      rw [DispatcherStats.verdicts]
      omega
  | false =>
      cases msg.fieldSatisfies "result".toList (fun r => r.eqBool true) with
      | true =>
          show stats.poolSharesAccepted + 1 + stats.poolSharesRejected = stats.verdicts + 1
          rw [DispatcherStats.verdicts]
          omega
      | false => rfl

theorem verdictId_length {msg : Json} (h : readMessage msg = .ok .shareResponse) :
    (verdictId msg).toList.length = if hasVerdict msg then 1 else 0 := by
  obtain ⟨id, hid⟩ := readMessage_shareResponse h
  have hsubmit : submitId msg = some id := by
    rw [submitId, hid]
  simp only [verdictId, h, hsubmit]
  split <;> rfl

theorem verdictId_eq_none {msg : Json} {m : StratumMessage} (h : readMessage msg = .ok m)
    (hm : m ≠ .shareResponse) : verdictId msg = none := by
  rw [verdictId, h]
  cases m with
  | shareResponse => exact absurd rfl hm
  | _ => rfl

/-- The entry under the key is kept, and is `null` if there was none. -/
theorem Json.field_withKey {v id : Json} {key : Str} (h : v.field key = .ok id) :
    (v.withKey key).field key = .ok id := by
  cases v with
  | object fields =>
      cases hfind : Json.find? fields key with
      | some w =>
          rw [Json.withKey, hfind]
          exact h
      | none =>
          have hid : id = .null := by
            rw [Json.field, hfind] at h
            exact (Except.ok.inj h).symm
          have hnew : Json.find? (fields ++ [(key, .null)]) key = some .null := by
            rw [Json.find?, Option.map_eq_none_iff] at hfind
            rw [Json.find?, List.find?_append, hfind]
            simp
          rw [Json.withKey, hfind, hid]
          show Json.field (.object (fields ++ [(key, .null)])) key = _
          rw [Json.field, hnew]
          rfl
  | null =>
      cases h
      simp [Json.withKey, Json.field, Json.find?]
  | _ => cases h

theorem verdictId_of_authorizeLine {response msg : Json}
    (h : readAuthorizeLine response = .ok (.message msg)) : verdictId msg = none := by
  simp only [readAuthorizeLine, bind, pure, Except.pure] at h
  obtain ⟨id, hid, h⟩ := except_bind_eq_ok.mp h
  split at h
  · obtain ⟨result, -, h⟩ := except_bind_eq_ok.mp h
    split at h
    · cases h
    · obtain ⟨error, -, h⟩ := except_bind_eq_ok.mp h
      split at h <;> cases h
  · split at h
    next hnull =>
      cases h
      have hkey := Json.field_withKey hid
      cases hread : readMessage (response.withKey "id".toList) with
      | error e => rw [verdictId, hread]
      | ok m =>
          refine verdictId_eq_none hread fun hm => ?_
          obtain ⟨n, hn⟩ := readMessage_shareResponse (hm ▸ hread)
          rw [hkey] at hn
          cases hn
          cases hnull
    next => cases h

namespace Dispatcher

/-! ## The threads with the counted ids -/

/-- The ids of the shares submitted. -/
def submittedIds (s : Dispatcher) : List Nat := s.submissions.filterMap fun share => submitId share.message

/-- The ids of the verdicts that wait in the queue. -/
def queuedIds (s : Dispatcher) : List Nat :=
  s.recvStratumMessages.items.filterMap fun msg => verdictId msg.value

structure Answering where
  threads : Dispatcher
  /-- Ghost: the ids of the responses that were counted, in order. -/
  counted : List Nat

/-- What a step counts: the message it pops, if that is a verdict. -/
def countedBy (s : Dispatcher) : Event → List Nat
  | .dist .popMessage | .dist .tryPop =>
    match s.recvStratumMessages.tryPop with
    | some (msg, _) => (verdictId msg.value).toList
    | none => []
  | _ => []

section
variable (signTaskPacket : List UInt8 → ByteArr 64) (numPeers : Nat)
  (scrypt : List UInt8 → ByteArr 32) (workerName : Str)

def answeringStep (s : Answering) (e : Event) : Option Answering :=
  (s.threads.step signTaskPacket numPeers scrypt workerName e).map fun threads =>
    ⟨threads, s.counted ++ s.threads.countedBy e⟩

end

/-! ## What a step does to the queue and the counters -/

theorem queuedIds_split (s : Dispatcher) (e : Event) :
    ∃ rest, s.queuedIds = s.countedBy e ++ rest := by
  have hfront : ∃ rest, s.queuedIds = (match s.recvStratumMessages.tryPop with
      | some (msg, _) => (verdictId msg.value).toList
      | none => []) ++ rest := by
    cases hpop : s.recvStratumMessages.tryPop with
    | none => exact ⟨_, rfl⟩
    | some p =>
        obtain ⟨msg, queue⟩ := p
        refine ⟨queue.items.filterMap fun msg => verdictId msg.value, ?_⟩
        rw [queuedIds, ConcurrentQueue.tryPop_eq_some.mp hpop]
        cases h : verdictId msg.value <;> simp [h]
  cases e with
  | dist e =>
      cases e with
      | popMessage => exact hfront
      | tryPop => exact hfront
      | _ => exact ⟨_, rfl⟩
  | _ => exact ⟨_, rfl⟩

/-- The verdicts counted. -/
def verdicts (s : Dispatcher) : Nat := s.share.stats.verdicts

/-- A step that takes no message from the queue. -/
structure Untaken (s s' : Dispatcher) : Prop where
  verdicts : s'.verdicts = s.verdicts
  submitted : ∃ more, s'.submittedIds = s.submittedIds ++ more

theorem Untaken.of_same {s s' : Dispatcher} (hshare : s'.share.stats.verdicts = s.share.stats.verdicts)
    (hsubmissions : s'.submissions = s.submissions) : Untaken s s' :=
  ⟨hshare, [], by rw [submittedIds, hsubmissions, List.append_nil]; rfl⟩

/-- The pool thread pushes what it reads; what a handshake pushes is no verdict. -/
theorem poolStep_queued {s s' : Dispatcher} {e : PoolEvent} (hs : s.poolStep e = some s') :
    Untaken s s' ∧ (s'.queuedIds = s.queuedIds ∨ ∃ msg, e = .receive msg ∧
      s'.queuedIds = s.queuedIds ++ (verdictId msg).toList) := by
  have hpush : ∀ msg, (s.push msg).queuedIds = s.queuedIds ++ (verdictId msg).toList := by
    intro msg
    rw [queuedIds, push, ConcurrentQueue.push, List.filterMap_append]
    cases h : verdictId msg <;> simp [h, queuedIds]
  cases e with
  | authorizeLine response =>
      simp only [poolStep] at hs
      split at hs
      next =>
        split at hs
        · cases hs
        · cases hs
          exact ⟨.of_same rfl rfl, .inl rfl⟩
        · cases hs
          exact ⟨.of_same rfl rfl, .inl rfl⟩
        next msg hread =>
          cases hs
          refine ⟨.of_same rfl rfl, .inl ?_⟩
          rw [hpush, verdictId_of_authorizeLine hread]
          exact List.append_nil _
      next => cases hs
  | receive msg =>
      cases poolStep_cases hs with
      | receive _ _ => exact ⟨.of_same rfl rfl, .inr ⟨msg, rfl, hpush msg⟩⟩
  | lose =>
      cases poolStep_cases hs with
      | lose _ => exact ⟨.of_same rfl rfl, .inl rfl⟩
  | connect =>
      cases poolStep_cases hs with
      | connect _ => exact ⟨.of_same rfl rfl, .inl rfl⟩
  | subscribeReply response =>
      cases poolStep_cases hs with
      | rejected _ _ => exact ⟨.of_same rfl rfl, .inl rfl⟩
      | wrongSize _ _ _ => exact ⟨.of_same rfl rfl, .inl rfl⟩
      | subscribed _ _ _ => exact ⟨.of_same rfl rfl, .inl rfl⟩
  | authorizeEnd =>
      cases poolStep_cases hs with
      | authorizeEnd _ => exact ⟨.of_same rfl rfl, .inl rfl⟩

theorem applyMessage_verdicts {s : Dispatcher} {msg : Json} {m : StratumMessage}
    (h : readMessage msg = .ok m) :
    (s.applyMessage msg m).verdicts = s.verdicts + (verdictId msg).toList.length := by
  cases m with
  | shareResponse =>
      rw [verdictId_length h]
      exact checkShareResponse_verdicts msg s.share.stats
  | ignored => rw [verdictId_eq_none h nofun]; rfl
  | setDifficulty divisor => rw [verdictId_eq_none h nofun]; rfl
  | notify clean => rw [verdictId_eq_none h nofun]; rfl

/-- A message that is taken from the queue is counted if it is a verdict. -/
structure Took (s s' : Dispatcher) (e : Event) : Prop where
  verdicts : s'.verdicts = s.verdicts + (s.countedBy e).length
  submissions : s'.submissions = s.submissions
  queued : s.queuedIds = s.countedBy e ++ s'.queuedIds

section
variable {signTaskPacket : List UInt8 → ByteArr 64} {numPeers : Nat}

theorem took_pop {s s' : Dispatcher} {e : Event} {msg : Tagged Json}
    {queue : ConcurrentQueue (Tagged Json)} {m : StratumMessage}
    (hevent : e = .dist .popMessage ∨ e = .dist .tryPop)
    (hpop : s.recvStratumMessages.tryPop = some (msg, queue)) (hread : readMessage msg.value = .ok m)
    (hverdicts : s'.verdicts = (s.applyMessage msg.value m).verdicts)
    (hsubmissions : s'.submissions = s.submissions) (hqueue : s'.recvStratumMessages = queue) :
    Took s s' e := by
  have hcounted : s.countedBy e = (verdictId msg.value).toList := by
    rcases hevent with rfl | rfl <;> rw [countedBy, hpop]
  refine ⟨?_, hsubmissions, ?_⟩
  · rw [hverdicts, applyMessage_verdicts hread, hcounted]
  · rw [hcounted, queuedIds, queuedIds, hqueue, ConcurrentQueue.tryPop_eq_some.mp hpop]
    cases h : verdictId msg.value <;> simp [h]

theorem distStep_took {s s' : Dispatcher} {e : DistEvent}
    (hs : s.distStep signTaskPacket numPeers e = some s') : Took s s' (.dist e) := by
  have huntouched : ∀ {e}, s.countedBy (.dist e) = [] → s'.share.stats.verdicts = s.share.stats.verdicts →
      s'.submissions = s.submissions → s'.recvStratumMessages = s.recvStratumMessages →
      Took s s' (.dist e) := by
    intro e hnone hshare hsubmissions hqueue
    refine ⟨?_, hsubmissions, ?_⟩
    · rw [hnone]
      exact hshare
    · rw [hnone, queuedIds, queuedIds, hqueue, List.nil_append]
  cases e with
  | popMessage =>
      simp only [distStep] at hs
      split at hs
      next msg queue hdist hpop =>
        split at hs
        · cases hs
        next hread => cases hs; exact took_pop (.inl rfl) hpop hread rfl rfl rfl
        next other _ hread => cases hs; exact took_pop (.inl rfl) hpop hread rfl (by cases other <;> rfl) rfl
      next => cases hs
  | tryPop =>
      simp only [distStep] at hs
      split at hs
      next latest clean hdist hpop =>
        cases hs
        refine huntouched ?_ rfl rfl rfl
        rw [countedBy, hpop]
      next latest clean msg queue hdist hpop =>
        split at hs
        · cases hs
        next hread => cases hs; exact took_pop (.inr rfl) hpop hread rfl rfl rfl
        next other _ hread => cases hs; exact took_pop (.inr rfl) hpop hread rfl (by cases other <;> rfl) rfl
      next => cases hs
  | clear =>
      cases distStep_cases hs with
      | clean _ => exact huntouched rfl rfl rfl rfl
      | keep _ => exact huntouched rfl rfl rfl rfl
      | apply hevent _ => rcases hevent with h | h <;> cases h
  | prepare now =>
      cases distStep_cases hs with
      | dropped _ _ _ => exact huntouched rfl rfl rfl rfl
      | prepared _ _ _ _ => exact huntouched rfl rfl rfl rfl
      | apply hevent _ => rcases hevent with h | h <;> cases h
  | send ok =>
      cases distStep_cases hs with
      | send _ _ _ => exact huntouched rfl rfl rfl rfl
      | apply hevent _ => rcases hevent with h | h <;> cases h
  | store =>
      cases distStep_cases hs with
      | store _ _ => exact huntouched rfl rfl rfl rfl
      | apply hevent _ => rcases hevent with h | h <;> cases h

end

section
variable {scrypt : List UInt8 → ByteArr 32} {workerName : Str}

theorem validStep_queued {s s' : Dispatcher} {e : ValidEvent}
    (hs : s.validStep scrypt workerName e = some s') :
    Untaken s s' ∧ s'.queuedIds = s.queuedIds := by
  cases validStep_cases hs with
  | repetition _ _ => exact ⟨.of_same rfl rfl, rfl⟩
  | popped _ _ =>
      refine ⟨.of_same ?_ rfl, rfl⟩
      rw [admitted_stats]
      rfl
  | stale _ _ _ => exact ⟨.of_same rfl rfl, rfl⟩
  | failed _ _ _ => exact ⟨.of_same rfl rfl, rfl⟩
  | accepted _ _ _ _ =>
      refine ⟨.of_same ?_ rfl, rfl⟩
      rw [credit_stats]
      rfl
  | offline _ _ => exact ⟨.of_same rfl rfl, rfl⟩
  | check _ _ => exact ⟨.of_same rfl rfl, rfl⟩
  | closed _ _ => exact ⟨.of_same rfl rfl, rfl⟩
  | broken _ _ => exact ⟨.of_same rfl rfl, rfl⟩
  | submitted _ _ _ => exact ⟨⟨rfl, _, List.filterMap_append⟩, rfl⟩

end

/-! ## Verdicts and submissions -/

/-- No more verdicts than shares, id by id. -/
structure Matched (s : Answering) : Prop where
  /-- Every increment is that of one response. -/
  counted : s.threads.share.stats.poolSharesAccepted + s.threads.share.stats.poolSharesRejected
    = s.counted.length
  answers : ∀ id, s.counted.count id ≤ s.threads.submittedIds.count id
  /-- The verdict that would be counted now is on a share without one. -/
  next : ∀ e, ∀ id ∈ s.threads.countedBy e, s.counted.count id < s.threads.submittedIds.count id
  bounded : s.threads.share.stats.poolSharesAccepted + s.threads.share.stats.poolSharesRejected
    ≤ s.threads.submissions.length

/-- A verdict that `stratumReceiveLoop` reads is on a submitted share for which
none has been read before. -/
def Awaited (s : Answering) : Event → Prop
  | .pool (.receive msg) => ∀ id, verdictId msg = some id →
      (s.counted ++ s.threads.queuedIds).count id < s.threads.submittedIds.count id
  | _ => True

structure VerdictInv (s : Answering) : Prop where
  counted : s.threads.verdicts = s.counted.length
  matched : ∀ id, (s.counted ++ s.threads.queuedIds).count id ≤ s.threads.submittedIds.count id

theorem VerdictInv.matched_of {s : Answering} (h : VerdictInv s) : Matched s := by
  have hcounted : ∀ id, s.counted.count id ≤ s.threads.submittedIds.count id := by
    intro id
    have hid := h.matched id
    rw [List.count_append] at hid
    omega
  refine ⟨h.counted, hcounted, ?_, ?_⟩
  · intro e id hid
    obtain ⟨rest, hrest⟩ := s.threads.queuedIds_split e
    have hmatched := h.matched id
    have hpos := List.count_pos_iff.mpr hid
    rw [hrest, List.count_append, List.count_append] at hmatched
    omega
  · have hsub : s.counted.Subperm s.threads.submittedIds :=
      List.subperm_ext_iff.mpr fun id _ => hcounted id
    have hlen : s.threads.submittedIds.length ≤ s.threads.submissions.length :=
      List.length_filterMap_le _ _
    have hle := hsub.length_le
    have hall : s.threads.share.stats.poolSharesAccepted + s.threads.share.stats.poolSharesRejected
      = s.counted.length := h.counted
    omega

section
variable {signTaskPacket : List UInt8 → ByteArr 64} {numPeers : Nat}
  {scrypt : List UInt8 → ByteArr 32} {workerName : Str}

/-- A step that takes nothing keeps the invariant if what it queues is awaited. -/
theorem VerdictInv.untaken {s : Answering} {threads : Dispatcher} {e : Event} (h : VerdictInv s)
    (hnone : s.threads.countedBy e = []) (huntaken : Untaken s.threads threads)
    (hqueued : ∀ id, (s.counted ++ threads.queuedIds).count id ≤ s.threads.submittedIds.count id) :
    VerdictInv ⟨threads, s.counted ++ s.threads.countedBy e⟩ := by
  obtain ⟨more, hmore⟩ := huntaken.submitted
  rw [hnone, List.append_nil]
  refine ⟨huntaken.verdicts.trans h.counted, fun id => ?_⟩
  refine (hqueued id).trans ?_
  rw [hmore, List.count_append]
  exact Nat.le_add_right _ _

theorem verdictInv_step (s : Answering) (e : Event) (s' : Answering) (h : VerdictInv s)
    (hok : Awaited s e)
    (hs : answeringStep signTaskPacket numPeers scrypt workerName s e = some s') :
    VerdictInv s' := by
  obtain ⟨threads, hstep, rfl⟩ := Option.map_eq_some_iff.mp hs
  cases e with
  | pool e =>
      obtain ⟨huntaken, hqueued | ⟨msg, rfl, hqueued⟩⟩ := poolStep_queued hstep
      · exact h.untaken rfl huntaken (fun id => hqueued ▸ h.matched id)
      · refine h.untaken rfl huntaken fun id => ?_
        have hid := h.matched id
        rw [hqueued, ← List.append_assoc, List.count_append]
        cases hv : verdictId msg with
        | none => simpa using hid
        | some v =>
            by_cases hvid : v = id
            · have hlt := hok id (hvid ▸ hv)
              rw [hvid, Option.toList_some, List.count_singleton_self]
              omega
            · have hzero : (some v).toList.count id = 0 := by simp [hvid]
              omega
  | dist e =>
      have htook := distStep_took hstep
      refine ⟨?_, fun id => ?_⟩
      · rw [List.length_append, ← h.counted]
        exact htook.verdicts
      · have hid := h.matched id
        rw [htook.queued, ← List.append_assoc] at hid
        rwa [submittedIds, htook.submissions]
  | valid e =>
      obtain ⟨huntaken, hqueued⟩ := validStep_queued hstep
      exact h.untaken rfl huntaken (fun id => hqueued ▸ h.matched id)
  | solution sol =>
      cases hstep
      exact h.untaken rfl (.of_same rfl rfl) h.matched

end

/-! ## Runs -/

/-- The threads after the first handshake, given its two reads. -/
def afterHandshake (parse : Str → Option Json) (subscribeResponse responseString : Str) :
    Answering :=
  let result := initStratumProtocol parse [] subscribeResponse responseString
  ⟨initial result.extraNonce1 result.pushed, []⟩

theorem authorizeLines_pushed (parse : Str → Option Json) : ∀ (lines : List Str) (pushed : List Json),
    (∀ msg ∈ pushed, verdictId msg = none) →
    ∀ msg ∈ (authorizeLines parse lines pushed).2, verdictId msg = none
  | [], _, h => h
  | line :: lines, pushed, h => by
      intro msg hmsg
      rw [authorizeLines] at hmsg
      split at hmsg
      · exact authorizeLines_pushed parse lines pushed h msg hmsg
      · split at hmsg
        · exact h msg hmsg
        · split at hmsg
          · exact h msg hmsg
          · exact authorizeLines_pushed parse lines pushed h msg hmsg
          · exact h msg hmsg
          next new hread =>
            refine authorizeLines_pushed parse lines _ (fun m hm => ?_) msg hmsg
            rcases List.mem_append.mp hm with hm | hm
            · exact h m hm
            · rw [List.mem_singleton.mp hm]
              exact verdictId_of_authorizeLine hread

theorem initStratumProtocol_pushed (parse : Str → Option Json) (old : List UInt8)
    (subscribeResponse responseString : Str) :
    ∀ msg ∈ (initStratumProtocol parse old subscribeResponse responseString).pushed,
      verdictId msg = none := by
  intro msg hmsg
  simp only [initStratumProtocol] at hmsg
  split at hmsg
  · exact absurd hmsg List.not_mem_nil
  · split at hmsg
    · exact absurd hmsg List.not_mem_nil
    · split at hmsg
      · exact absurd hmsg List.not_mem_nil
      · exact absurd hmsg List.not_mem_nil
      · split at hmsg
        · exact absurd hmsg List.not_mem_nil
        · exact authorizeLines_pushed parse _ [] (fun m hm => absurd hm List.not_mem_nil) msg hmsg

theorem verdictInv_afterHandshake (parse : Str → Option Json)
    (subscribeResponse responseString : Str) :
    VerdictInv (afterHandshake parse subscribeResponse responseString) := by
  refine ⟨rfl, fun id => ?_⟩
  have hnone : (afterHandshake parse subscribeResponse responseString).threads.queuedIds = [] := by
    refine List.filterMap_eq_nil_iff.mpr fun msg hmsg => ?_
    obtain ⟨m, hm, rfl⟩ := List.mem_map.mp hmsg
    exact initStratumProtocol_pushed parse [] subscribeResponse responseString m hm
  rw [hnone]
  exact Nat.zero_le _

section
variable (signTaskPacket : List UInt8 → ByteArr 64) (numPeers : Nat)
  (scrypt : List UInt8 → ByteArr 32) (workerName : Str)

/-- **Pool verdicts.**  However the handshake is read, a run counts as many
verdicts as responses, each on a submitted share without one, if that is what
the verdicts are that the receive loop reads. -/
theorem verdicts_matched (parse : Str → Option Json) (subscribeResponse responseString : Str)
    (es : List Event)
    (hok : Run.Along (answeringStep signTaskPacket numPeers scrypt workerName) Awaited
      (afterHandshake parse subscribeResponse responseString) es) :
    Run.Always (answeringStep signTaskPacket numPeers scrypt workerName) Matched
      (afterHandshake parse subscribeResponse responseString) es :=
  Run.Always.mono (fun _ h => h.matched_of)
    (Run.always_of_along verdictInv_step
      (verdictInv_afterHandshake parse subscribeResponse responseString) hok)

end

/-- What the pool answers to the first share. -/
def acceptedValue : Json :=
  .object [("id".toList, .unsigned 3), ("result".toList, .boolean true), ("error".toList, .null)]

/-- A job is distributed and solved, the share is submitted and accepted. -/
def answeredRun : List Event :=
  [.pool (.receive sampleNotify), .dist .popMessage, .dist .popMessage, .dist .tryPop, .dist .clear,
    .dist (.prepare 1700000000000), .dist (.send true), .dist .store,
    .solution (zeroSolution 1700000000000), .valid .popSolution, .valid (.judge 1700000000),
    .valid .check, .valid (.submit true), .pool (.receive acceptedValue), .dist .popMessage]

theorem verdicts_matched_answered :
    ∃ s, Run.exec (answeringStep (fun _ => ByteArr.fill 64 0xab) 1 (fun _ => ByteArr.fill 32 0)
        "worker".toList) (afterHandshake poolParse (wire [subscribeText]) (wire [difficultyText]))
        answeredRun = some s ∧
      s.counted = [3] ∧ Matched s := by
  have hlast : ∃ s, Run.exec (answeringStep (fun _ => ByteArr.fill 64 0xab) 1
      (fun _ => ByteArr.fill 32 0) "worker".toList)
      (afterHandshake poolParse (wire [subscribeText]) (wire [difficultyText])) answeredRun = some s ∧
      s.counted = [3] := ⟨_, rfl, rfl⟩
  obtain ⟨s, hs, hcounted⟩ := hlast
  refine ⟨s, hs, hcounted, (verdicts_matched _ _ _ _ _ _ _ answeredRun ?_).exec hs⟩
  refine Run.Along.cons rfl (fun id hid => nomatch hid) ?_
  refine Run.Along.cons rfl trivial (Run.Along.cons rfl trivial (Run.Along.cons rfl trivial ?_))
  refine Run.Along.cons rfl trivial (Run.Along.cons rfl trivial (Run.Along.cons rfl trivial ?_))
  refine Run.Along.cons rfl trivial (Run.Along.cons rfl trivial (Run.Along.cons rfl trivial ?_))
  refine Run.Along.cons rfl trivial (Run.Along.cons rfl trivial (Run.Along.cons rfl trivial ?_))
  refine Run.Along.cons rfl (fun id hid => ?_) (Run.Along.cons rfl trivial trivial)
  cases hid
  exact Nat.lt_of_sub_eq_succ (n := 0) rfl

/-! ## The reply behind the handshake -/

/-- The second read of the handshake brings a notification only. -/
def lateReplyRun : List Event :=
  [.pool (.receive authorizeValue), .dist .popMessage, .dist .popMessage]

/-- The reply to `mining.authorize` is counted, and nothing was submitted. -/
theorem lateReply_counted :
    (initStratumProtocol poolParse [] (wire [subscribeText]) (wire [difficultyText])).outcome
      = .ok true ∧
    ¬ Run.Always (answeringStep (fun _ => ByteArr.fill 64 0xab) 1 (fun _ => ByteArr.fill 32 0)
        "worker".toList) Matched
      (afterHandshake poolParse (wire [subscribeText]) (wire [difficultyText])) lateReplyRun ∧
    ∃ s, Run.exec (answeringStep (fun _ => ByteArr.fill 64 0xab) 1 (fun _ => ByteArr.fill 32 0)
        "worker".toList) (afterHandshake poolParse (wire [subscribeText]) (wire [difficultyText]))
        lateReplyRun = some s ∧
      s.threads.share.stats.poolSharesAccepted = 1 ∧ s.counted = [2] ∧ s.threads.submissions = [] := by
  have hlast : ∃ s, Run.exec (answeringStep (fun _ => ByteArr.fill 64 0xab) 1
      (fun _ => ByteArr.fill 32 0) "worker".toList)
      (afterHandshake poolParse (wire [subscribeText]) (wire [difficultyText])) lateReplyRun = some s ∧
      s.threads.share.stats.poolSharesAccepted = 1 ∧ s.counted = [2] ∧ s.threads.submissions = [] :=
    ⟨_, rfl, rfl, rfl, rfl⟩
  refine ⟨rfl, fun h => ?_, hlast⟩
  obtain ⟨s, hs, haccepted, -, hnone⟩ := hlast
  have hbounded := (h.exec hs).bounded
  rw [haccepted, hnone, List.length_nil] at hbounded
  omega

end Dispatcher

end DogeConnect
