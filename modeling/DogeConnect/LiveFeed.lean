/-
The live feed: `ClientRegistry` and the `/ws` handler of the relay.

A broadcast appends to the ring under a lock and then sends to the clients it
finds in the dictionary, one after the other; a client registers, takes a copy
of the ring and sends itself the copy.  The registration, the copy and the sends
are steps of their own, and so are the append, the start of the enumeration and
each visit of a broadcast, and they come in any order:

    append_ring           the ring holds the last events, whatever the capacity
    feedInv_step          what a step keeps, seen from one client
    seesOnce_along        the runs in which a client sees every event once
    seesOnce_not_always   a broadcast between registration and copy is seen twice, and
                          with capacity 0 one throws and reaches nobody

Events are numbered by their `BroadcastAsync` calls.  The dictionary's enumerator
visits everybody who is registered when it starts and stays registered; who
registers later is visited or not.
-/
import DogeConnect.Lib.Run
import DogeConnect.Lib.Window
import Mathlib.Logic.Function.Basic

namespace DogeConnect

namespace LiveFeed

/-! ## The code -/

/-- The number of a `BroadcastAsync` call. -/
abbrev Event := Nat

abbrev ClientId := Nat

structure ClientRegistry where
  /-- The keys of `_clients`. -/
  clients : List ClientId
  /-- Oldest first. -/
  ring : List Event
  ringCapacity : Nat
  deriving DecidableEq, Repr

namespace ClientRegistry

def register (r : ClientRegistry) (id : ClientId) : ClientRegistry :=
  { r with clients := id :: r.clients }

def unregister (r : ClientRegistry) (id : ClientId) : ClientRegistry :=
  { r with clients := r.clients.filter (· ≠ id) }

/-- The part of `BroadcastAsync` under the lock; `none` where `Dequeue` throws. -/
def append (r : ClientRegistry) (payload : Event) : Option ClientRegistry :=
  if r.ring.length ≥ r.ringCapacity then
    match r.ring with
    | [] => none
    | _ :: ring => some { r with ring := ring ++ [payload] }
  else some { r with ring := r.ring ++ [payload] }

/-- `TryRemove` for each of the dead. -/
def removeDead (r : ClientRegistry) (dead : List ClientId) : ClientRegistry :=
  { r with clients := r.clients.filter (· ∉ dead) }

def getRecent (r : ClientRegistry) : List Event := r.ring

end ClientRegistry

/-- Where the handler of a client stands. -/
inductive HandlerPhase where
  | absent
  /-- `Register` is done, `GetRecent` is not. -/
  | registered
  /-- What is left to send of the snapshot. -/
  | sending (recent : List Event)
  /-- In the receive loop. -/
  | connected
  /-- Unregistered. -/
  | gone
  deriving DecidableEq, Repr

structure Handler where
  phase : HandlerPhase
  /-- `ws.State == Open`. -/
  isOpen : Bool
  /-- What was sent over the socket. -/
  sent : List Event
  /-- How many broadcasts there had been at `Register`. -/
  joinedAt : Nat
  deriving DecidableEq, Repr

/-- Where a `BroadcastAsync` call stands. -/
inductive CallPhase where
  /-- The lock is released. -/
  | appended
  /-- In the `foreach`: who is to be visited, who was, and who was found dead. -/
  | visiting (pending visited dead : List ClientId)
  deriving DecidableEq, Repr

structure Relay where
  registry : ClientRegistry
  handlers : ClientId → Handler
  calls : Event → Option CallPhase
  /-- How many `BroadcastAsync` calls there have been. -/
  broadcasts : Nat

inductive Action where
  /-- A broadcast, up to the end of the lock. -/
  | broadcast
  /-- The start of its enumeration. -/
  | enumerate (e : Event)
  | visit (e : Event) (id : ClientId)
  /-- The end of the enumeration, with the removal of the dead. -/
  | finish (e : Event)
  | register (id : ClientId)
  | getRecent (id : ClientId)
  | sendRecent (id : ClientId)
  /-- The socket leaves the state `Open`. -/
  | close (id : ClientId)
  | unregister (id : ClientId)
  deriving DecidableEq, Repr

namespace Relay

def start (ringCapacity : Nat) : Relay :=
  ⟨⟨[], [], ringCapacity⟩, fun _ => ⟨.absent, false, [], 0⟩, fun _ => none, 0⟩

def setHandler (s : Relay) (id : ClientId) (h : Handler) : Relay :=
  { s with handlers := Function.update s.handlers id h }

def setCall (s : Relay) (e : Event) (call : Option CallPhase) : Relay :=
  { s with calls := Function.update s.calls e call }

@[simp] theorem setHandler_self (s : Relay) (id : ClientId) (h : Handler) :
    (s.setHandler id h).handlers id = h := Function.update_self ..

@[simp] theorem setHandler_of_ne (s : Relay) {id id' : ClientId} (h : Handler)
    (hne : id' ≠ id) : (s.setHandler id h).handlers id' = s.handlers id' :=
  Function.update_of_ne hne ..

@[simp] theorem setCall_self (s : Relay) (e : Event) (call : Option CallPhase) :
    (s.setCall e call).calls e = call := Function.update_self ..

@[simp] theorem setCall_of_ne (s : Relay) {e e' : Event} (call : Option CallPhase)
    (hne : e' ≠ e) : (s.setCall e call).calls e' = s.calls e' :=
  Function.update_of_ne hne ..

/-- The handler behind its `foreach` over the snapshot. -/
def afterRecent : List Event → HandlerPhase
  | [] => .connected
  | e :: recent => .sending (e :: recent)

def step (s : Relay) : Action → Option Relay
  | .broadcast =>
    match s.registry.append s.broadcasts with
    | none => some { s with broadcasts := s.broadcasts + 1 }
    | some registry =>
      some { s.setCall s.broadcasts (some .appended) with
        registry, broadcasts := s.broadcasts + 1 }
  | .enumerate e =>
    match s.calls e with
    | some .appended => some (s.setCall e (some (.visiting s.registry.clients [] [])))
    | _ => none
  | .visit e id =>
    match s.calls e with
    | some (.visiting pending visited dead) =>
      if id ∈ s.registry.clients ∧ id ∉ visited then
        let h := s.handlers id
        if h.isOpen then
          some ((s.setHandler id { h with sent := h.sent ++ [e] }).setCall e
            (some (.visiting (pending.filter (· ≠ id)) (id :: visited) dead)))
        else
          some (s.setCall e
            (some (.visiting (pending.filter (· ≠ id)) (id :: visited) (id :: dead))))
      else none
    | _ => none
  | .finish e =>
    match s.calls e with
    | some (.visiting pending _ dead) =>
      if ∀ id ∈ pending, id ∉ s.registry.clients then
        some { s.setCall e none with registry := s.registry.removeDead dead }
      else none
    | _ => none
  | .register id =>
    if (s.handlers id).phase = .absent then
      some { s.setHandler id ⟨.registered, true, [], s.broadcasts⟩ with
        registry := s.registry.register id }
    else none
  | .getRecent id =>
    let h := s.handlers id
    if h.phase = .registered then
      some (s.setHandler id { h with phase := afterRecent s.registry.getRecent })
    else none
  | .sendRecent id =>
    let h := s.handlers id
    match h.phase with
    | .sending (e :: recent) =>
      -- a send that throws ends the loop
      if h.isOpen then
        some (s.setHandler id { h with phase := afterRecent recent, sent := h.sent ++ [e] })
      else some (s.setHandler id { h with phase := .connected })
    | _ => none
  | .close id =>
    let h := s.handlers id
    if h.phase ≠ .absent then some (s.setHandler id { h with isOpen := false }) else none
  | .unregister id =>
    let h := s.handlers id
    if h.phase = .connected ∧ h.isOpen = false then
      some { s.setHandler id { h with phase := .gone } with
        registry := s.registry.unregister id }
    else none

/-! ## What a client is to see -/

/-- The events a client's history is to begin with. -/
def earlier (s : Relay) (id : ClientId) : List Event :=
  (List.range (s.handlers id).joinedAt).rtake s.registry.ringCapacity

/-- The broadcast is past the client: it has returned or thrown, or it has visited it. -/
def Past (s : Relay) (id : ClientId) (e : Event) : Prop :=
  match s.calls e with
  | none => True
  | some .appended => False
  | some (.visiting _ visited _) => id ∈ visited

/-- A client that is open has seen no event twice, every broadcast since it
registered that is past it, and before those the last earlier events. -/
def SeesOnce (id : ClientId) (s : Relay) : Prop :=
  (s.handlers id).phase ≠ .absent → (s.handlers id).isOpen = true →
    (s.handlers id).sent.Nodup ∧
    (∀ e, (s.handlers id).joinedAt ≤ e → e < s.broadcasts → s.Past id e →
      e ∈ (s.handlers id).sent) ∧
    ∃ recent live, (s.handlers id).sent = recent ++ live ∧
      (∀ e ∈ live, (s.handlers id).joinedAt ≤ e ∧ e < s.broadcasts) ∧
      recent <+: s.earlier id ∧
      (live ≠ [] ∨ (s.handlers id).phase = .connected → recent = s.earlier id)

/-- What a step must not do to a client that is open: a broadcast is not begun
with capacity 0, nor between its registration and its copy of the ring; it is
not visited before the copy is sent, nor by a broadcast from before its
registration. -/
def Undisturbed (id : ClientId) (s : Relay) : Action → Prop
  | .broadcast => (s.handlers id).phase ≠ .absent → (s.handlers id).isOpen = true →
      0 < s.registry.ringCapacity ∧ (s.handlers id).phase ≠ .registered
  | .visit e id' => id' = id → (s.handlers id).isOpen = true →
      (s.handlers id).phase = .connected ∧ (s.handlers id).joinedAt ≤ e
  | _ => True

/-! ## The invariant -/

/-- The ring holds the last events, and with capacity 0 nothing can be put into it. -/
theorem append_ring {r : ClientRegistry} {n : Nat}
    (h : r.ring = (List.range n).rtake r.ringCapacity) :
    (r.ringCapacity = 0 → r.append n = none) ∧
    (0 < r.ringCapacity → r.append n
      = some { r with ring := (List.range (n + 1)).rtake r.ringCapacity }) := by
  have hlen : r.ring.length = min r.ringCapacity n := by
    rw [h, Window.length_rtake, List.length_range]
  have hnext : (List.range (n + 1)).rtake r.ringCapacity
      = (r.ring ++ [n]).rtake r.ringCapacity := by
    rw [List.range_succ, h, Window.rtake_append_rtake]
  constructor
  · intro hzero
    rw [ClientRegistry.append, if_pos (by omega)]
    have hnil : r.ring = [] := List.length_eq_zero_iff.mp (by omega)
    rw [hnil]
  · intro hpos
    rw [ClientRegistry.append, hnext]
    split
    next hfull =>
      cases hring : r.ring with
      | nil =>
          rw [hring] at hfull
          exact absurd hfull (by simp only [List.length_nil]; omega)
      | cons old ring =>
          rw [hring, List.length_cons] at hlen hfull
          rw [List.cons_append, Window.rtake_cons (by
            simp only [List.length_cons, List.length_append, List.length_nil]
            omega), Window.rtake_of_length_le (by
            simp only [List.length_cons, List.length_append, List.length_nil]
            omega)]
    next hroom =>
      have hroom := Nat.lt_of_not_ge hroom
      rw [Window.rtake_of_length_le (by
        simp only [List.length_append, List.length_cons, List.length_nil]
        omega)]

/-- What a call that is under way says about an event and a client. -/
def Progress (id : ClientId) (sent : List Event) (e : Event) : Option CallPhase → Prop
  | none => e ∈ sent
  | some .appended => e ∉ sent
  | some (.visiting pending visited _) =>
    (id ∈ visited ∧ e ∈ sent) ∨ (id ∉ visited ∧ id ∈ pending ∧ e ∉ sent)

/-- What an open client has been sent, by where its handler stands. -/
def SentInv (handler : Handler) (earlier : List Event) (broadcasts : Nat) : Prop :=
  match handler.phase with
  | .registered => handler.sent = [] ∧ handler.joinedAt = broadcasts
  | .sending left => left ≠ [] ∧ handler.sent ++ left = earlier
  | .connected => ∃ live, handler.sent = earlier ++ live ∧ live.Nodup ∧
      ∀ e ∈ live, handler.joinedAt ≤ e ∧ e < broadcasts
  | _ => False

structure ClientInv (id : ClientId) (s : Relay) : Prop where
  member : id ∈ s.registry.clients
  joined : (s.handlers id).joinedAt ≤ s.broadcasts
  sent : SentInv (s.handlers id) (s.earlier id) s.broadcasts
  progress : ∀ e, (s.handlers id).joinedAt ≤ e → e < s.broadcasts →
    Progress id (s.handlers id).sent e (s.calls e)

structure FeedInv (id : ClientId) (s : Relay) : Prop where
  ring : s.registry.ring = (List.range s.broadcasts).rtake s.registry.ringCapacity
  future : ∀ e, s.broadcasts ≤ e → s.calls e = none
  known : id ∈ s.registry.clients → (s.handlers id).phase ≠ .absent
  dead : ∀ e pending visited dead, s.calls e = some (.visiting pending visited dead) →
    id ∈ dead → (s.handlers id).phase ≠ .absent ∧ (s.handlers id).isOpen = false
  client : (s.handlers id).phase ≠ .absent → (s.handlers id).isOpen = true → ClientInv id s

theorem mem_earlier {s : Relay} {id : ClientId} {e : Nat} (h : e ∈ s.earlier id) :
    e < (s.handlers id).joinedAt :=
  List.mem_range.mp (Window.mem_of_mem_rtake h)

theorem nodup_earlier (s : Relay) (id : ClientId) : (s.earlier id).Nodup :=
  List.nodup_range.sublist (List.drop_sublist _ _)

theorem ClientInv.sent_lt {s : Relay} {id : ClientId} (h : ClientInv id s) {e : Nat}
    (he : e ∈ (s.handlers id).sent) : e < s.broadcasts := by
  have hsent := h.sent
  have hjoined := h.joined
  rw [SentInv] at hsent
  split at hsent
  · rw [hsent.1] at he
    cases he
  · have hmem : e ∈ s.earlier id := hsent.2 ▸ List.mem_append_left _ he
    have hlt := mem_earlier hmem
    omega
  · obtain ⟨live, hlive, -, hbounds⟩ := hsent
    rw [hlive] at he
    rcases List.mem_append.mp he with he | he
    · have hmem := mem_earlier he
      omega
    · exact (hbounds e he).2
  · cases hsent

theorem FeedInv.seesOnce {s : Relay} {id : ClientId} (h : FeedInv id s) : SeesOnce id s := by
  intro hphase hopen
  have hclient := h.client hphase hopen
  have hsent := hclient.sent
  have hcomplete : ∀ e, (s.handlers id).joinedAt ≤ e → e < s.broadcasts → s.Past id e →
      e ∈ (s.handlers id).sent := by
    intro e hlow hhigh hpast
    have hprogress := hclient.progress e hlow hhigh
    rw [Past] at hpast
    split at hpast
    next hcall =>
      rw [hcall] at hprogress
      exact hprogress
    · cases hpast
    next hcall =>
      rw [hcall] at hprogress
      rcases hprogress with ⟨-, hmem⟩ | ⟨hnot, -⟩
      · exact hmem
      · exact absurd hpast hnot
  rw [SentInv] at hsent
  split at hsent
  next hphase' =>
    refine ⟨by rw [hsent.1]; exact List.nodup_nil, hcomplete, [], [], hsent.1, nofun,
      List.nil_prefix, ?_⟩
    rintro (hne | hconnected)
    · exact absurd rfl hne
    · rw [hphase'] at hconnected
      cases hconnected
  next left hphase' =>
    have hprefix : (s.handlers id).sent <+: s.earlier id := ⟨left, hsent.2⟩
    refine ⟨(nodup_earlier s id).sublist hprefix.sublist, hcomplete, (s.handlers id).sent, [],
      (List.append_nil _).symm, nofun, hprefix, ?_⟩
    rintro (hne | hconnected)
    · exact absurd rfl hne
    · rw [hphase'] at hconnected
      cases hconnected
  next =>
    obtain ⟨live, hlive, hnodup, hbounds⟩ := hsent
    refine ⟨?_, hcomplete, s.earlier id, live, hlive, hbounds, List.prefix_refl _, fun _ => rfl⟩
    rw [hlive]
    refine List.nodup_append.mpr ⟨nodup_earlier s id, hnodup, fun a ha b hb => ?_⟩
    exact Nat.ne_of_lt (Nat.lt_of_lt_of_le (mem_earlier ha) (hbounds b hb).1)
  · cases hsent

/-! ## Steps -/

variable {id : ClientId} {s : Relay}

theorem progress_congr {sent sent' : List Event} {e : Event} (h : e ∈ sent ↔ e ∈ sent') :
    ∀ call : Option CallPhase, Progress id sent e call → Progress id sent' e call
  | none, hp => h.mp hp
  | some .appended, hp => fun hmem => hp (h.mpr hmem)
  | some (.visiting _ _ _), hp => hp.imp (fun ⟨hv, hmem⟩ => ⟨hv, h.mp hmem⟩)
      (fun ⟨hv, hpend, hmem⟩ => ⟨hv, hpend, fun hmem' => hmem (h.mpr hmem')⟩)

theorem mem_append_other {e x : Event} {sent : List Event} (hne : e ≠ x) :
    e ∈ sent ↔ e ∈ sent ++ [x] := by
  rw [List.mem_append, List.mem_singleton, or_iff_left hne]

theorem earlier_setHandler {handler : Handler}
    (h : handler.joinedAt = (s.handlers id).joinedAt) :
    (s.setHandler id handler).earlier id = s.earlier id := by
  rw [earlier, setHandler_self, h]
  rfl

theorem FeedInv.call_lt (h : FeedInv id s) {e : Nat} {call : CallPhase}
    (hcall : s.calls e = some call) : e < s.broadcasts := by
  refine Nat.lt_of_not_ge fun hge => ?_
  rw [h.future e hge] at hcall
  cases hcall

/-- Steps that leave the client's handler, the ring and the calls alone. -/
theorem FeedInv.other (h : FeedInv id s) {s' : Relay}
    (hhandler : s'.handlers id = s.handlers id) (hring : s'.registry.ring = s.registry.ring)
    (hcapacity : s'.registry.ringCapacity = s.registry.ringCapacity)
    (hcalls : s'.calls = s.calls) (hbroadcasts : s'.broadcasts = s.broadcasts)
    (hmem : id ∈ s'.registry.clients → id ∈ s.registry.clients)
    (hkeep : (s.handlers id).phase ≠ .absent → (s.handlers id).isOpen = true →
      id ∈ s.registry.clients → id ∈ s'.registry.clients) : FeedInv id s' where
  ring := by rw [hring, hcapacity, hbroadcasts, h.ring]
  future := by rw [hcalls, hbroadcasts]; exact h.future
  known := by rw [hhandler]; exact fun hin => h.known (hmem hin)
  dead := by rw [hcalls, hhandler]; exact h.dead
  client := by
    rw [hhandler]
    intro hphase hopen
    have hclient := h.client hphase hopen
    have hearlier : s'.earlier id = s.earlier id := by
      rw [earlier, earlier, hhandler, hcapacity]
    exact {
      member := hkeep hphase hopen hclient.member
      joined := by rw [hhandler, hbroadcasts]; exact hclient.joined
      sent := by rw [hhandler, hearlier, hbroadcasts]; exact hclient.sent
      progress := by rw [hhandler, hbroadcasts, hcalls]; exact hclient.progress }

theorem FeedInv.setHandler_other (h : FeedInv id s) {id' : ClientId} (hne : id' ≠ id)
    (handler : Handler) : FeedInv id (s.setHandler id' handler) :=
  h.other (setHandler_of_ne s handler hne.symm) rfl rfl rfl rfl (fun hin => hin)
    fun _ _ hin => hin

theorem FeedInv.setCall (h : FeedInv id s) {e : Event} {before : CallPhase}
    {call : Option CallPhase} (hbefore : s.calls e = some before)
    (hdead : ∀ pending visited dead, call = some (.visiting pending visited dead) →
      id ∈ dead → (s.handlers id).phase ≠ .absent ∧ (s.handlers id).isOpen = false)
    (hprogress : (s.handlers id).phase ≠ .absent → (s.handlers id).isOpen = true →
      id ∈ s.registry.clients →
      Progress id (s.handlers id).sent e (some before) →
      Progress id (s.handlers id).sent e call) : FeedInv id (s.setCall e call) where
  ring := h.ring
  future := by
    intro e' he'
    have hne : e' ≠ e := Nat.ne_of_gt (Nat.lt_of_lt_of_le (h.call_lt hbefore) he')
    rw [setCall_of_ne s call hne]
    exact h.future e' he'
  known := h.known
  dead := by
    intro e' pending visited dead hcall
    rcases eq_or_ne e' e with rfl | hne
    · rw [setCall_self] at hcall
      exact hdead pending visited dead hcall
    · rw [setCall_of_ne s call hne] at hcall
      exact h.dead e' pending visited dead hcall
  client := by
    intro hphase hopen
    have hclient := h.client hphase hopen
    refine ⟨hclient.member, hclient.joined, hclient.sent, fun e' hlow hhigh => ?_⟩
    have hold := hclient.progress e' hlow hhigh
    rcases eq_or_ne e' e with rfl | hne
    · rw [hbefore] at hold
      rw [setCall_self]
      exact hprogress hphase hopen hclient.member hold
    · rw [setCall_of_ne s call hne]
      exact hold

theorem FeedInv.setHandler (h : FeedInv id s) {handler : Handler} (clients : List ClientId)
    (hphase : handler.phase ≠ .absent)
    (hopen : (s.handlers id).phase ≠ .absent → handler.isOpen = true →
      (s.handlers id).isOpen = true)
    (hclient : handler.isOpen = true →
      ClientInv id { s.setHandler id handler with
        registry := { s.registry with clients := clients } }) :
    FeedInv id { s.setHandler id handler with
      registry := { s.registry with clients := clients } } where
  ring := h.ring
  future := h.future
  known := by
    intro _
    rw [setHandler_self]
    exact hphase
  dead := by
    intro e pending visited dead hcall hin
    obtain ⟨hknown, hclosed⟩ := h.dead e pending visited dead hcall hin
    rw [setHandler_self]
    refine ⟨hphase, Bool.eq_false_iff.mpr fun hopen' => ?_⟩
    rw [hopen hknown hopen'] at hclosed
    cases hclosed
  client := by
    intro _ hopen'
    rw [setHandler_self] at hopen'
    exact hclient hopen'

theorem SentInv.succ {handler : Handler} {earlier : List Event} {n : Nat}
    (h : SentInv handler earlier n) (hphase : handler.phase ≠ .registered) :
    SentInv handler earlier (n + 1) := by
  rw [SentInv] at h ⊢
  split at h
  next hregistered => exact absurd hregistered hphase
  · exact h
  · obtain ⟨live, hlive, hnodup, hbounds⟩ := h
    exact ⟨live, hlive, hnodup, fun e he =>
      ⟨(hbounds e he).1, Nat.lt_succ_of_lt (hbounds e he).2⟩⟩
  · cases h

theorem SentInv.visit {handler : Handler} {earlier : List Event} {n e : Nat}
    (h : SentInv handler earlier n) (hphase : handler.phase = .connected)
    (hnew : e ∉ handler.sent) (hlow : handler.joinedAt ≤ e) (hhigh : e < n) :
    SentInv { handler with sent := handler.sent ++ [e] } earlier n := by
  rw [SentInv, hphase] at h ⊢
  obtain ⟨live, hlive, hnodup, hbounds⟩ := h
  refine ⟨live ++ [e], ?_, ?_, fun x hx => ?_⟩
  · rw [hlive, List.append_assoc]
  · rw [List.nodup_append]
    refine ⟨hnodup, List.nodup_singleton e, fun a ha b hb heq => hnew ?_⟩
    rw [hlive, ← List.mem_singleton.mp hb, ← heq]
    exact List.mem_append_right _ ha
  · rcases List.mem_append.mp hx with hx | hx
    · exact hbounds x hx
    · rw [List.mem_singleton.mp hx]
      exact ⟨hlow, hhigh⟩

theorem feedInv_broadcast (h : FeedInv id s) (hok : Undisturbed id s .broadcast) {s' : Relay}
    (hs : s.step .broadcast = some s') : FeedInv id s' := by
  obtain ⟨hempty, hroom⟩ := append_ring h.ring
  rw [step] at hs
  rcases Nat.eq_zero_or_pos s.registry.ringCapacity with hzero | hpos
  · rw [hempty hzero] at hs
    cases hs
    refine ⟨?_, fun e he => h.future e (Nat.le_of_succ_le he), h.known, h.dead, ?_⟩
    · rw [h.ring]
      simp only [hzero, List.rtake_zero]
    · intro hphase hopen
      exact absurd (hok hphase hopen).1 (hzero ▸ Nat.lt_irrefl 0)
  · rw [hroom hpos] at hs
    cases hs
    refine ⟨rfl, ?_, h.known, ?_, ?_⟩
    · intro e he
      rw [setCall_of_ne s _ (Nat.ne_of_gt he)]
      exact h.future e (Nat.le_of_succ_le he)
    · intro e pending visited dead hcall
      rcases eq_or_ne e s.broadcasts with rfl | hne
      · rw [setCall_self] at hcall
        cases hcall
      · rw [setCall_of_ne s _ hne] at hcall
        exact h.dead e pending visited dead hcall
    · intro hphase hopen
      have hclient := h.client hphase hopen
      refine ⟨hclient.member, Nat.le_succ_of_le hclient.joined, ?_, fun e hlow hhigh => ?_⟩
      · exact hclient.sent.succ (hok hphase hopen).2
      · rcases eq_or_ne e s.broadcasts with rfl | hne
        · rw [setCall_self]
          exact fun hmem => Nat.lt_irrefl _ (hclient.sent_lt hmem)
        · rw [setCall_of_ne s _ hne]
          exact hclient.progress e hlow (Nat.lt_of_le_of_ne (Nat.le_of_lt_succ hhigh) hne)

theorem feedInv_enumerate (h : FeedInv id s) {e : Event} {s' : Relay}
    (hs : s.step (.enumerate e) = some s') : FeedInv id s' := by
  rw [step] at hs
  split at hs
  next hcall =>
    cases hs
    refine h.setCall hcall ?_ fun _ _ hmember hnot => .inr ⟨List.not_mem_nil, hmember, hnot⟩
    intro pending visited dead heq hin
    cases heq
    cases hin
  · cases hs

theorem feedInv_visit_other (h : FeedInv id s) {e : Event} {id' : ClientId} (hne : id' ≠ id)
    {s' : Relay} (hs : s.step (.visit e id') = some s') : FeedInv id s' := by
  have hprogress : ∀ {pending visited dead dead' : List ClientId},
      Progress id (s.handlers id).sent e (some (.visiting pending visited dead)) →
      Progress id (s.handlers id).sent e
        (some (.visiting (pending.filter (· ≠ id')) (id' :: visited) dead')) := by
    rintro pending visited dead dead' (⟨hin, hmem⟩ | ⟨hnot, hin, hmem⟩)
    · exact .inl ⟨List.mem_cons_of_mem _ hin, hmem⟩
    · refine .inr ⟨fun hin' => ?_, ?_, hmem⟩
      · exact (List.mem_cons.mp hin').elim (fun heq => hne heq.symm) hnot
      · exact List.mem_filter.mpr ⟨hin, decide_eq_true hne.symm⟩
  rw [step] at hs
  split at hs
  next pending visited dead hcall =>
    obtain ⟨-, hs⟩ | ⟨-, hs⟩ := ite_eq_iff.mp hs
    · obtain ⟨-, hs⟩ | ⟨-, hs⟩ := ite_eq_iff.mp hs
      · cases hs
        refine (h.setHandler_other hne _).setCall hcall ?_ fun _ _ _ => ?_
        · intro _ _ _ heq hin
          cases heq
          rw [setHandler_of_ne s _ hne.symm]
          exact h.dead e pending visited dead hcall hin
        · rw [setHandler_of_ne s _ hne.symm]
          exact hprogress
      · cases hs
        refine h.setCall hcall ?_ fun _ _ _ => hprogress
        intro _ _ _ heq hin
        cases heq
        rcases List.mem_cons.mp hin with heq | hin
        · exact absurd heq.symm hne
        · exact h.dead e pending visited dead hcall hin
    · cases hs
  · cases hs

/-- A visit to the client itself: it has the snapshot, and the event is new to it. -/
theorem feedInv_visit_self (h : FeedInv id s) {e : Event} (hok : Undisturbed id s (.visit e id))
    {s' : Relay} (hs : s.step (.visit e id) = some s') : FeedInv id s' := by
  rw [step] at hs
  split at hs
  next pending visited dead hcall =>
    obtain ⟨⟨hmember, hfresh⟩, hs⟩ | ⟨-, hs⟩ := ite_eq_iff.mp hs
    · have hphase := h.known hmember
      obtain ⟨hopen, hs⟩ | ⟨hclosed, hs⟩ := ite_eq_iff.mp hs
      · cases hs
        obtain ⟨hconnected, hjoined⟩ := hok rfl hopen
        have hclient := h.client hphase hopen
        have he := h.call_lt hcall
        have hnew : e ∉ (s.handlers id).sent := by
          have hold := hclient.progress e hjoined he
          rw [hcall] at hold
          exact hold.elim (fun hin => absurd hin.1 hfresh) fun hin => hin.2.2
        have hsent := hclient.sent.visit hconnected hnew hjoined he
        refine ⟨h.ring, ?_, fun _ => ?_, ?_, fun _ _ => ⟨hmember, ?_, ?_, ?_⟩⟩
        · intro e' he'
          rw [setCall_of_ne _ _ (Nat.ne_of_gt (Nat.lt_of_lt_of_le he he'))]
          exact h.future e' he'
        · exact (setHandler_self s id _).symm ▸ hphase
        · intro e' pending' visited' dead' hcall' hin
          have hclosed : (s.handlers id).isOpen = false := by
            rcases eq_or_ne e' e with rfl | hne
            · rw [setCall_self] at hcall'
              cases hcall'
              exact (h.dead e' pending visited dead hcall hin).2
            · rw [setCall_of_ne _ _ hne] at hcall'
              exact (h.dead e' pending' visited' dead' hcall' hin).2
          rw [hopen] at hclosed
          cases hclosed
        · exact (setHandler_self s id _).symm ▸ hclient.joined
        · show SentInv ((s.setHandler id _).handlers id) ((s.setHandler id _).earlier id) _
          rw [earlier_setHandler, setHandler_self]
          · exact hsent
          · rfl
        · intro e' hlow hhigh
          show Progress id ((s.setHandler id _).handlers id).sent e' _
          rw [setHandler_self]
          rcases eq_or_ne e' e with rfl | hne
          · rw [setCall_self]
            exact .inl ⟨List.mem_cons_self, List.mem_append_right _ List.mem_cons_self⟩
          · rw [setCall_of_ne _ _ hne]
            have hlow' : ((s.setHandler id _).handlers id).joinedAt ≤ e' := hlow
            rw [setHandler_self] at hlow'
            exact progress_congr (mem_append_other hne) _ (hclient.progress e' hlow' hhigh)
      · cases hs
        refine h.setCall hcall (fun _ _ _ _ _ => ⟨hphase, Bool.eq_false_iff.mpr hclosed⟩)
          fun _ hopen => absurd hopen hclosed
    · cases hs
  · cases hs

theorem feedInv_finish (h : FeedInv id s) {e : Event} {s' : Relay}
    (hs : s.step (.finish e) = some s') : FeedInv id s' := by
  rw [step] at hs
  split at hs
  next pending visited dead hcall =>
    obtain ⟨hdone, hs⟩ | ⟨-, hs⟩ := ite_eq_iff.mp hs
    · cases hs
      have hcalled : FeedInv id (s.setCall e none) := by
        refine h.setCall hcall nofun fun _ _ hmember hold => ?_
        rcases hold with ⟨-, hmem⟩ | ⟨-, hpending, -⟩
        · exact hmem
        · exact absurd hmember (hdone id hpending)
      refine hcalled.other rfl rfl rfl rfl rfl (fun hin => List.mem_of_mem_filter hin) ?_
      intro _ hopen hin
      refine List.mem_filter.mpr ⟨hin, decide_eq_true fun hin' => ?_⟩
      have hclosed := (h.dead e pending visited dead hcall hin').2
      rw [show (s.handlers id).isOpen = true from hopen] at hclosed
      cases hclosed
    · cases hs
  · cases hs

theorem feedInv_register (h : FeedInv id s) {id' : ClientId} {s' : Relay}
    (hs : s.step (.register id') = some s') : FeedInv id s' := by
  rw [step] at hs
  obtain ⟨habsent, hs⟩ | ⟨-, hs⟩ := ite_eq_iff.mp hs
  · cases hs
    rcases eq_or_ne id' id with rfl | hne
    · refine h.setHandler (id' :: s.registry.clients) nofun
        (fun hphase => absurd habsent hphase) fun _ => ?_
      refine ⟨List.mem_cons_self, ?_, ?_, ?_⟩
      · exact (setHandler_self s id' _).symm ▸ Nat.le_refl _
      · show SentInv ((s.setHandler id' _).handlers id') _ s.broadcasts
        rw [setHandler_self]
        exact ⟨rfl, rfl⟩
      · intro e hlow hhigh
        have hlow' : ((s.setHandler id' _).handlers id').joinedAt ≤ e := hlow
        rw [setHandler_self] at hlow'
        exact absurd hhigh (Nat.not_lt_of_le hlow')
    · refine h.other (setHandler_of_ne s _ hne.symm) rfl rfl rfl rfl (fun hin => ?_)
        fun _ _ hin => List.mem_cons_of_mem _ hin
      exact (List.mem_cons.mp hin).resolve_left hne.symm
  · cases hs

/-- Steps that change nothing but the phase of the client's handler and what it was sent of
the snapshot. -/
theorem FeedInv.snapshot (h : FeedInv id s) {phase : HandlerPhase} {sent : List Event}
    (hbefore : (s.handlers id).phase ≠ .absent) (hafter : phase ≠ .absent)
    (hmem : ∀ e, (s.handlers id).joinedAt ≤ e → (e ∈ (s.handlers id).sent ↔ e ∈ sent))
    (hsent : (s.handlers id).isOpen = true →
      SentInv { s.handlers id with phase, sent } (s.earlier id) s.broadcasts) :
    FeedInv id (s.setHandler id { s.handlers id with phase, sent }) := by
  refine h.setHandler s.registry.clients hafter (fun _ hopen => hopen) fun hopen => ?_
  have hclient := h.client hbefore hopen
  refine ⟨hclient.member, ?_, ?_, fun e hlow hhigh => ?_⟩
  · exact (setHandler_self s id _).symm ▸ hclient.joined
  · show SentInv ((s.setHandler id _).handlers id) ((s.setHandler id _).earlier id) _
    rw [earlier_setHandler, setHandler_self]
    · exact hsent hopen
    · rfl
  · have hlow' : ((s.setHandler id _).handlers id).joinedAt ≤ e := hlow
    rw [setHandler_self] at hlow'
    show Progress id ((s.setHandler id _).handlers id).sent e _
    rw [setHandler_self]
    exact progress_congr (hmem e hlow') _ (hclient.progress e hlow' hhigh)

/-- What is left of the snapshot after one more send, or after none. -/
theorem sentInv_afterRecent (handler : Handler) {earlier left : List Event} {n : Nat}
    (h : handler.sent ++ left = earlier) :
    SentInv { handler with phase := afterRecent left } earlier n := by
  cases left with
  | nil =>
      rw [List.append_nil] at h
      exact ⟨[], by rw [List.append_nil, h], List.nodup_nil, nofun⟩
  | cons e left => exact ⟨List.cons_ne_nil _ _, h⟩

theorem afterRecent_ne_absent (left : List Event) : afterRecent left ≠ .absent := by
  cases left <;> nofun

theorem feedInv_getRecent (h : FeedInv id s) {id' : ClientId} {s' : Relay}
    (hs : s.step (.getRecent id') = some s') : FeedInv id s' := by
  rw [step] at hs
  obtain ⟨hregistered, hs⟩ | ⟨-, hs⟩ := ite_eq_iff.mp hs
  · cases hs
    rcases eq_or_ne id' id with rfl | hne
    · have hphase : (s.handlers id').phase ≠ .absent := by
        rw [hregistered]
        nofun
      refine h.snapshot hphase (afterRecent_ne_absent _) (fun _ _ => Iff.rfl) fun hopen => ?_
      have hsent := (h.client hphase hopen).sent
      rw [SentInv, hregistered] at hsent
      refine sentInv_afterRecent (s.handlers id') ?_
      rw [hsent.1, List.nil_append, ClientRegistry.getRecent, h.ring, earlier, hsent.2]
    · exact h.setHandler_other hne _
  · cases hs

theorem feedInv_sendRecent (h : FeedInv id s) {id' : ClientId} {s' : Relay}
    (hs : s.step (.sendRecent id') = some s') : FeedInv id s' := by
  rw [step] at hs
  split at hs
  next e recent hsending =>
    obtain ⟨hopen, hs⟩ | ⟨hclosed, hs⟩ := ite_eq_iff.mp hs
    all_goals cases hs
    all_goals rcases eq_or_ne id' id with rfl | hne
    · have hphase : (s.handlers id').phase ≠ .absent := by
        rw [hsending]
        nofun
      have hsent := (h.client hphase hopen).sent
      rw [SentInv, hsending] at hsent
      have hnew : e < (s.handlers id').joinedAt :=
        mem_earlier (s := s) (hsent.2 ▸ List.mem_append_right _ List.mem_cons_self)
      refine h.snapshot hphase (afterRecent_ne_absent _) (fun x hx => ?_) fun _ => ?_
      · exact mem_append_other (Nat.ne_of_gt (Nat.lt_of_lt_of_le hnew hx))
      · refine sentInv_afterRecent { s.handlers id' with sent := (s.handlers id').sent ++ [e] } ?_
        rw [List.append_assoc]
        exact hsent.2
    · exact h.setHandler_other hne _
    · have hphase : (s.handlers id').phase ≠ .absent := by
        rw [hsending]
        nofun
      exact h.snapshot hphase nofun (fun _ _ => Iff.rfl) fun hopen => absurd hopen hclosed
    · exact h.setHandler_other hne _
  · cases hs

theorem feedInv_close (h : FeedInv id s) {id' : ClientId} {s' : Relay}
    (hs : s.step (.close id') = some s') : FeedInv id s' := by
  rw [step] at hs
  obtain ⟨hphase, hs⟩ | ⟨-, hs⟩ := ite_eq_iff.mp hs
  · cases hs
    rcases eq_or_ne id' id with rfl | hne
    · exact h.setHandler s.registry.clients hphase nofun nofun
    · exact h.setHandler_other hne _
  · cases hs

theorem feedInv_unregister (h : FeedInv id s) {id' : ClientId} {s' : Relay}
    (hs : s.step (.unregister id') = some s') : FeedInv id s' := by
  rw [step] at hs
  obtain ⟨⟨-, hclosed⟩, hs⟩ | ⟨-, hs⟩ := ite_eq_iff.mp hs
  · cases hs
    rcases eq_or_ne id' id with rfl | hne
    · exact h.setHandler _ nofun (fun _ hopen => hopen) fun hopen => by
        rw [show (s.handlers id').isOpen = true from hopen] at hclosed
        cases hclosed
    · refine h.other (setHandler_of_ne s _ hne.symm) rfl rfl rfl rfl
        (fun hin => List.mem_of_mem_filter hin) fun _ _ hin => ?_
      exact List.mem_filter.mpr ⟨hin, decide_eq_true hne.symm⟩
  · cases hs

theorem feedInv_step (id : ClientId) (s : Relay) (a : Action) (s' : Relay) (h : FeedInv id s)
    (hok : Undisturbed id s a) (hs : s.step a = some s') : FeedInv id s' := by
  cases a with
  | broadcast => exact feedInv_broadcast h hok hs
  | enumerate e => exact feedInv_enumerate h hs
  | visit e id' =>
      rcases eq_or_ne id' id with rfl | hne
      · exact feedInv_visit_self h hok hs
      · exact feedInv_visit_other h hne hs
  | finish e => exact feedInv_finish h hs
  | register id' => exact feedInv_register h hs
  | getRecent id' => exact feedInv_getRecent h hs
  | sendRecent id' => exact feedInv_sendRecent h hs
  | close id' => exact feedInv_close h hs
  | unregister id' => exact feedInv_unregister h hs

theorem feedInv_start (id : ClientId) (ringCapacity : Nat) :
    FeedInv id (start ringCapacity) where
  ring := by
    rw [start, List.range_zero, List.rtake_nil]
  future := fun _ _ => rfl
  known := nofun
  dead := nofun
  client := fun hphase => absurd rfl hphase

/-! ## Runs -/

/-- Whatever the capacity and whatever the order of the steps: as long as they
leave a client undisturbed, it sees every event once. -/
theorem seesOnce_along (ringCapacity : Nat) (id : ClientId) (as : List Action)
    (h : Run.Along step (Undisturbed id) (start ringCapacity) as) :
    Run.Always step (SeesOnce id) (start ringCapacity) as :=
  (Run.always_of_along (feedInv_step id) (feedInv_start id ringCapacity) h).mono
    fun _ hinv => hinv.seesOnce

/-- Two events, one from before the client joined and one from after it has its copy. -/
def joinedOnce : List Action :=
  [.broadcast, .enumerate 0, .finish 0, .register 7, .getRecent 7, .sendRecent 7,
    .broadcast, .enumerate 1, .visit 1 7, .finish 1]

theorem joinedOnce_sees : Run.Always step (SeesOnce 7) (start 1) joinedOnce :=
  seesOnce_along 1 7 joinedOnce
    (.cons rfl (fun hphase => absurd rfl hphase) <| .cons rfl trivial <| .cons rfl trivial <|
      .cons rfl trivial <| .cons rfl trivial <| .cons rfl trivial <|
      .cons rfl (fun _ _ => ⟨Nat.one_pos, nofun⟩) <| .cons rfl trivial <|
      .cons rfl (fun _ _ => ⟨rfl, Nat.le_refl 1⟩) <| .cons rfl trivial trivial)

/-- The event is in the copy of the ring, and its broadcast finds the client registered. -/
def joinedTwice : List Action :=
  [.register 7, .broadcast, .getRecent 7, .sendRecent 7, .enumerate 0, .visit 0 7]

/-- The broadcast throws before it has sent anything. -/
def capacityZero : List Action := [.register 7, .getRecent 7, .broadcast]

theorem seesOnce_not_always :
    (∃ s, Run.exec step (start 4) joinedTwice = some s ∧ (s.handlers 7).sent = [0, 0] ∧
      ¬ SeesOnce 7 s) ∧
    ∃ s, Run.exec step (start 0) capacityZero = some s ∧ (s.handlers 7).sent = [] ∧
      ¬ SeesOnce 7 s := by
  refine ⟨⟨_, rfl, rfl, fun h => ?_⟩, ⟨_, rfl, rfl, fun h => ?_⟩⟩
  · have hnodup : [0, 0].Nodup := (h nofun rfl).1
    exact absurd hnodup (by decide)
  · have hmem : 0 ∈ ([] : List Event) := (h nofun rfl).2.1 0 (Nat.le_refl 0) Nat.one_pos trivial
    cases hmem

end Relay

end LiveFeed

end DogeConnect
