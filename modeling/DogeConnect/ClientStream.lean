/-
`validateData` of the pools' stratum clients: lines out of data events.

An event's text is appended to what is left of the earlier ones; then the length of
the whole is tested, and only then are the complete messages taken out.  So a burst
of short messages in one event floods the server, and a message is lost just when
the event that completes one does not fit beside what is unterminated:

    validateData_short   an event that fits hands over its lines and keeps the rest
    receive_iff          what any events do to a stream of messages and a tail
    receive_framed_iff   framing does not depend on the events as long as they fit
    burst_flooded        a burst in one event is dropped as a whole

`JSON.parse` is a parameter, and so is whether `validateMessages` returns or throws,
which may depend on the calls before.
-/
import DogeConnect.StratumRecv
import DogeConnect.JsonText

namespace DogeConnect

namespace StratumClient

/-! ## The code -/

/-- `Buffer.byteLength(text, 'utf8')`. -/
def byteLength (text : Str) : Nat := (text.map Char.utf8Size).sum

/-- What became of the messages and the socket. -/
structure Handled (J : Type) where
  /-- The arguments of the calls of `validateMessages`. -/
  validated : List J
  malformed : Bool
  flooded : Bool
  /-- `socket.destroy()` was called. -/
  destroyed : Bool
  deriving DecidableEq, Repr

structure Client (J : Type) where
  messages : Str
  handled : Handled J
  deriving DecidableEq, Repr

section
variable {J : Type} (jsonParse : Str → Option J) (returns : List J → J → Bool)

/-- The body of the `forEach`. -/
def handleMessage (handled : Handled J) (message : Str) : Handled J :=
  if message = [] then handled
  else match jsonParse message with
    | none => { handled with malformed := true, destroyed := true }
    | some value =>
      if returns handled.validated value then
        { handled with validated := handled.validated ++ [value] }
      else
        { handled with
          validated := handled.validated ++ [value], malformed := true, destroyed := true }

def validateData (client : Client J) (data : Str) : Client J :=
  let messages := client.messages ++ data
  if byteLength messages > 10240 then
    ⟨messages, { client.handled with flooded := true, destroyed := true }⟩
  else if messages.contains '\n' then
    let lines := messages.splitOn '\n'
    if messages.getLast? = some '\n' then
      ⟨[], lines.foldl (handleMessage jsonParse returns) client.handled⟩
    else
      ⟨lines.getLastD [], lines.dropLast.foldl (handleMessage jsonParse returns) client.handled⟩
  else ⟨messages, client.handled⟩

/-- A destroyed socket has no more data events. -/
def deliver (client : Client J) (data : Str) : Client J :=
  if client.handled.destroyed then client else validateData jsonParse returns client data

def receive (client : Client J) (events : List Str) : Client J :=
  events.foldl (deliver jsonParse returns) client

end

def connected (J : Type) : Client J := ⟨[], ⟨[], false, false, false⟩⟩

/-! ## What is to become of a stream -/

/-- The messages, each with its newline. -/
def stream (messages : List Str) : Str := messages.flatMap (· ++ ['\n'])

/-- A line that `JSON.parse` and `validateMessages` get along with. -/
structure WellFormed {J : Type} (jsonParse : Str → Option J) (returns : List J → J → Bool)
    (message : Str) : Prop where
  nonempty : message ≠ []
  line : '\n' ∉ message
  parsed : ∃ value, jsonParse message = some value ∧
    ∀ validated, returns validated value = true

/-- Every message was handed over once and in order, and the socket was destroyed, for
flooding, exactly for a long tail. -/
def Framed {J : Type} (jsonParse : Str → Option J) (messages : List Str) (tail : Str)
    (client : Client J) : Prop :=
  messages.map jsonParse = client.handled.validated.map some ∧
  (client.handled.flooded = true ↔ 10240 < byteLength tail) ∧
  (client.handled.destroyed = true ↔ 10240 < byteLength tail)

theorem stream_cons (m : Str) (messages : List Str) :
    stream (m :: messages) = m ++ '\n' :: stream messages := by
  rw [stream, List.flatMap_cons, List.append_assoc, List.singleton_append, ← stream]

/-- Every event that completes a message fits beside what is unterminated before it. -/
def CompletionsFit : Str → List Str → Prop
  | _, [] => True
  | rest, data :: events =>
    ('\n' ∈ data → byteLength (rest ++ data) ≤ 10240) ∧
      CompletionsFit (cutLines (rest ++ data)).2 events

/-! ## Lines -/

theorem byteLength_append (s t : Str) : byteLength (s ++ t) = byteLength s + byteLength t := by
  rw [byteLength, List.map_append, List.sum_append, byteLength, byteLength]

@[elab_as_elim]
theorem lines_induction {P : Str → Prop} (rest : ∀ s, '\n' ∉ s → P s)
    (line : ∀ l s, '\n' ∉ l → P s → P (l ++ '\n' :: s)) (s : Str) : P s := by
  induction s using lineFramer.drain_induction with
  | rest s h => exact rest s (lineFramer_next_none h)
  | frame s n h ih =>
      obtain ⟨l, t, hl, rfl, rfl⟩ := lineFramer_next_some h
      refine line l t hl ?_
      rw [List.drop_append, List.drop_eq_nil_of_le (Nat.le_succ _), Nat.add_sub_cancel_left] at ih
      exact ih

theorem splitOn_newline (s : Str) : s.splitOn '\n' = (cutLines s).1 ++ [(cutLines s).2] := by
  induction s using lines_induction with
  | rest s h => rw [cutLines_of_not_mem h, List.splitOn_eq_singleton h, List.nil_append]
  | line l s hl ih =>
      rw [List.splitOn_append_cons_self, List.splitOn_eq_singleton hl, ih,
        cutLines_append_newline hl]
      rfl

theorem stream_cutLines (s : Str) : stream (cutLines s).1 ++ (cutLines s).2 = s := by
  induction s using lines_induction with
  | rest s h =>
      rw [cutLines_of_not_mem h]
      rfl
  | line l s hl ih =>
      rw [cutLines_append_newline hl, stream_cons, List.append_assoc, List.cons_append, ih]

theorem newline_not_mem_rest (s : Str) : '\n' ∉ (cutLines s).2 := by
  rw [cutLines_eq]
  exact lineFramer_next_none (lineFramer.drain_rest _)

theorem cutLines_stream (messages : List Str) {tail : Str}
    (hlines : ∀ m ∈ messages, '\n' ∉ m) (htail : '\n' ∉ tail) :
    cutLines (stream messages ++ tail) = (messages, tail) := by
  induction messages with
  | nil => exact cutLines_of_not_mem htail
  | cons m messages ih =>
      have ih := ih fun m' hm' => hlines m' (List.mem_cons_of_mem _ hm')
      rw [stream_cons, List.append_assoc, List.cons_append,
        cutLines_append_newline (hlines m List.mem_cons_self), ih]

theorem rest_of_ended {s : Str} (h : s.getLast? = some '\n') : (cutLines s).2 = [] := by
  by_contra hne
  have hlast : (cutLines s).2.getLast? = some '\n' := by
    rw [← h, ← stream_cutLines s, List.getLast?_append_of_ne_nil _ hne, stream_cutLines s]
  exact newline_not_mem_rest s (List.mem_of_getLast? hlast)

/-- An event without newlines, before something with them, is part of the first line. -/
theorem byteLength_le_of_line {buffer more m rest : Str} (h : buffer ++ more = m ++ '\n' :: rest)
    (hbuffer : '\n' ∉ buffer) : byteLength buffer ≤ byteLength m := by
  rcases List.append_eq_append_iff.mp h with ⟨mid, hm, -⟩ | ⟨mid, hbuf, hmid⟩
  · rw [hm, byteLength_append]
    exact Nat.le_add_right _ _
  · cases mid with
    | nil => rw [hbuf, List.append_nil]
    | cons c mid =>
        rw [List.cons_append, List.cons.injEq] at hmid
        rw [hbuf, ← hmid.1] at hbuffer
        exact absurd (List.mem_append_right _ List.mem_cons_self) hbuffer

/-! ## One event -/

section
variable {J : Type} {jsonParse : Str → Option J} {returns : List J → J → Bool}

theorem handleMessage_nil (handled : Handled J) :
    handleMessage jsonParse returns handled [] = handled := if_pos rfl

theorem WellFormed.handled {message : Str} (h : WellFormed jsonParse returns message) {value : J}
    (hvalue : jsonParse message = some value) (handled : Handled J) :
    handleMessage jsonParse returns handled message
      = { handled with validated := handled.validated ++ [value] } := by
  obtain ⟨value', hvalue', hreturns⟩ := h.parsed
  rw [hvalue] at hvalue'
  cases hvalue'
  rw [handleMessage, if_neg h.nonempty, hvalue]
  exact if_pos (hreturns _)

theorem foldl_handleMessage {messages : List Str} {values : List J}
    (hwell : ∀ m ∈ messages, WellFormed jsonParse returns m)
    (hvalues : messages.map jsonParse = values.map some) (handled : Handled J) :
    messages.foldl (handleMessage jsonParse returns) handled
      = { handled with validated := handled.validated ++ values } := by
  induction messages generalizing values handled with
  | nil =>
      rw [List.map_nil] at hvalues
      rw [List.map_eq_nil_iff.mp hvalues.symm, List.append_nil]
      rfl
  | cons m messages ih =>
      cases values with
      | nil => cases hvalues
      | cons value values =>
          rw [List.map_cons, List.map_cons, List.cons.injEq] at hvalues
          rw [List.foldl_cons, (hwell m List.mem_cons_self).handled hvalues.1,
            ih (fun m' hm' => hwell m' (List.mem_cons_of_mem _ hm')) hvalues.2,
            List.append_assoc, List.singleton_append]

/-- An event that fits hands over its lines and keeps what is unterminated. -/
theorem validateData_short {client : Client J} {data : Str}
    (h : byteLength (client.messages ++ data) ≤ 10240) :
    validateData jsonParse returns client data
      = ⟨(cutLines (client.messages ++ data)).2,
          (cutLines (client.messages ++ data)).1.foldl (handleMessage jsonParse returns)
            client.handled⟩ := by
  rw [validateData]
  generalize client.messages ++ data = buffer at h ⊢
  dsimp only
  rw [if_neg (Nat.not_lt.mpr h)]
  split
  next hnewline =>
    rw [splitOn_newline]
    split
    next hended =>
      rw [rest_of_ended hended, List.foldl_append, List.foldl_cons, List.foldl_nil,
        handleMessage_nil]
    next => rw [List.getLastD_concat, List.dropLast_concat]
  next hnewline =>
    have hline : '\n' ∉ buffer := fun hmem => hnewline (List.contains_iff_mem.mpr hmem)
    rw [cutLines_of_not_mem hline]
    rfl

theorem validateData_long {client : Client J} {data : Str}
    (h : 10240 < byteLength (client.messages ++ data)) :
    validateData jsonParse returns client data
      = ⟨client.messages ++ data,
          { client.handled with flooded := true, destroyed := true }⟩ := if_pos h

theorem receive_destroyed {client : Client J} (h : client.handled.destroyed = true)
    (events : List Str) : receive jsonParse returns client events = client := by
  induction events with
  | nil => rfl
  | cons data events ih =>
      have hdeliver : deliver jsonParse returns client data = client := if_pos h
      rw [receive, List.foldl_cons, hdeliver]
      exact ih

theorem receive_cons {client : Client J} (h : client.handled.destroyed = false) (data : Str)
    (events : List Str) :
    receive jsonParse returns client (data :: events)
      = receive jsonParse returns (validateData jsonParse returns client data) events := by
  rw [receive, List.foldl_cons, deliver, h]
  rfl

/-! ## A stream of events -/

theorem completionsFit_of_line {events : List Str} (rest : Str) (h : '\n' ∉ events.flatten) :
    CompletionsFit rest events := by
  induction events generalizing rest with
  | nil => trivial
  | cons data events ih =>
      rw [List.flatten_cons, List.mem_append, not_or] at h
      exact ⟨fun hdata => absurd hdata h.1, ih _ h.2⟩

/-- An event that does not fit though it completes nothing can only be part of the tail. -/
theorem messages_nil_of_long {rest data more : Str} {messages : List Str} {tail : Str}
    (hshort : ∀ m ∈ messages, byteLength m < 10240) (hline : '\n' ∉ rest ++ data)
    (hlong : 10240 < byteLength (rest ++ data))
    (hstream : rest ++ data ++ more = stream messages ++ tail) : messages = [] := by
  cases messages with
  | nil => rfl
  | cons m messages =>
      rw [stream_cons, List.append_assoc m, List.cons_append] at hstream
      have hle := byteLength_le_of_line hstream hline
      have hlt := hshort m List.mem_cons_self
      omega

/-- What the events of a stream of messages and a tail are to do. -/
def Handled.Framed (before : Handled J) (values : List J) (tail : Str) (after : Handled J) : Prop :=
  after.validated = before.validated ++ values ∧
  (after.flooded = true ↔ 10240 < byteLength tail) ∧
  (after.destroyed = true ↔ 10240 < byteLength tail)

theorem framed_long_iff {client : Client J} {data : Str} {events messages : List Str}
    {values : List J} {tail : Str} (hlong : 10240 < byteLength (client.messages ++ data))
    (hrest : '\n' ∉ client.messages) (hshort : ∀ m ∈ messages, byteLength m < 10240)
    (hvalues : messages.map jsonParse = values.map some) (htail : '\n' ∉ tail)
    (hstream : client.messages ++ data ++ events.flatten = stream messages ++ tail) :
    client.handled.Framed values tail { client.handled with flooded := true, destroyed := true } ↔
      CompletionsFit client.messages (data :: events) := by
  by_cases hdata : '\n' ∈ data
  · refine iff_of_false ?_ fun hfit => absurd (hfit.1 hdata) (Nat.not_le.mpr hlong)
    rintro ⟨hvalidated, -⟩
    -- the message that the event completes is not handed over
    have hempty : values = [] := List.self_eq_append_right.mp hvalidated
    rw [hempty, List.map_nil, List.map_eq_nil_iff] at hvalues
    rw [hvalues] at hstream
    refine htail ?_
    have htotal : client.messages ++ data ++ events.flatten = tail := hstream
    rw [← htotal]
    exact List.mem_append_left _ (List.mem_append_right _ hdata)
  · have hline : '\n' ∉ client.messages ++ data := by
      rw [List.mem_append, not_or]
      exact ⟨hrest, hdata⟩
    have hnil := messages_nil_of_long hshort hline hlong hstream
    subst hnil
    have hempty : values = [] := List.map_eq_nil_iff.mp hvalues.symm
    have htotal : client.messages ++ data ++ events.flatten = tail := hstream
    have hlongTail : 10240 < byteLength tail := by
      rw [← htotal, byteLength_append]
      exact Nat.lt_add_right _ hlong
    have hevents : '\n' ∉ (data :: events).flatten := by
      intro hmem
      refine htail ?_
      rw [← htotal, List.append_assoc]
      exact List.mem_append_right _ hmem
    refine iff_of_true ⟨?_, iff_of_true rfl hlongTail, iff_of_true rfl hlongTail⟩
      (completionsFit_of_line _ hevents)
    rw [hempty, List.append_nil]

/-- The events of a stream of messages and a tail, from a client that keeps the beginning. -/
theorem receive_iff (events : List Str) (client : Client J) {messages : List Str}
    {values : List J} {tail : Str} (hrest : '\n' ∉ client.messages)
    (hkept : byteLength client.messages ≤ 10240) (hflooded : client.handled.flooded = false)
    (hdestroyed : client.handled.destroyed = false)
    (hwell : ∀ m ∈ messages, WellFormed jsonParse returns m)
    (hshort : ∀ m ∈ messages, byteLength m < 10240)
    (hvalues : messages.map jsonParse = values.map some) (htail : '\n' ∉ tail)
    (hstream : client.messages ++ events.flatten = stream messages ++ tail) :
    client.handled.Framed values tail (receive jsonParse returns client events).handled ↔
      CompletionsFit client.messages events := by
  induction events generalizing client messages values with
  | nil =>
      rw [List.flatten_nil, List.append_nil] at hstream
      have hcut := cutLines_stream messages (fun m hm => (hwell m hm).line) htail
      rw [← hstream, cutLines_of_not_mem hrest, Prod.mk.injEq] at hcut
      obtain ⟨hnil, hkeep⟩ := hcut
      subst hnil hkeep
      have hempty : values = [] := List.map_eq_nil_iff.mp hvalues.symm
      have hnot : ¬ 10240 < byteLength client.messages := Nat.not_lt.mpr hkept
      refine iff_of_true ⟨?_, iff_of_false ?_ hnot, iff_of_false ?_ hnot⟩ trivial
      · rw [hempty, List.append_nil]
        rfl
      · exact ne_true_of_eq_false hflooded
      · exact ne_true_of_eq_false hdestroyed
  | cons data events ih =>
      rw [List.flatten_cons, ← List.append_assoc] at hstream
      rw [receive_cons hdestroyed]
      rcases Nat.lt_or_ge 10240 (byteLength (client.messages ++ data)) with hlong | hfits
      · rw [validateData_long hlong, receive_destroyed rfl]
        exact framed_long_iff hlong hrest hshort hvalues htail hstream
      · rw [validateData_short hfits, CompletionsFit]
        generalize hbuffer : client.messages ++ data = buffer at hfits hstream ⊢
        have hcut := cutLines_stream messages (fun m hm => (hwell m hm).line) htail
        rw [← hstream, cutLines_append, Prod.mk.injEq] at hcut
        obtain ⟨hmessages, hend⟩ := hcut
        subst hmessages
        rw [List.map_append] at hvalues
        obtain ⟨done, todo, hparts, hdone, htodo⟩ := List.map_eq_append_iff.mp hvalues.symm
        rw [foldl_handleMessage (fun m hm => hwell m (List.mem_append_left _ hm)) hdone.symm]
        have hsplit := stream_cutLines ((cutLines buffer).2 ++ events.flatten)
        rw [hend] at hsplit
        have hkept' : byteLength (cutLines buffer).2 ≤ 10240 := by
          refine Nat.le_trans ?_ hfits
          conv_rhs => rw [← stream_cutLines buffer, byteLength_append]
          exact Nat.le_add_left _ _
        have ih := ih
          ⟨(cutLines buffer).2,
            { client.handled with validated := client.handled.validated ++ done }⟩
          (newline_not_mem_rest buffer) hkept' hflooded hdestroyed
          (fun m hm => hwell m (List.mem_append_right _ hm))
          (fun m hm => hshort m (List.mem_append_right _ hm)) htodo.symm hsplit.symm
        rw [hparts, and_iff_right (fun _ => hfits), ← ih, Handled.Framed, Handled.Framed,
          List.append_assoc]

theorem values_of_wellFormed {messages : List Str}
    (h : ∀ m ∈ messages, WellFormed jsonParse returns m) :
    ∃ values : List J, messages.map jsonParse = values.map some := by
  induction messages with
  | nil => exact ⟨[], rfl⟩
  | cons m messages ih =>
      obtain ⟨value, hvalue, -⟩ := (h m List.mem_cons_self).parsed
      obtain ⟨values, hvalues⟩ := ih fun m' hm' => h m' (List.mem_cons_of_mem _ hm')
      exact ⟨value :: values, by rw [List.map_cons, hvalue, hvalues, List.map_cons]⟩

/-- However the bytes of well-formed short messages and of a last, unterminated one are
grouped: every message is handed over once and in order, and only a long last one floods the
server, exactly where every event that completes a message fits. -/
theorem receive_framed_iff (jsonParse : Str → Option J) (returns : List J → J → Bool)
    (messages : List Str) (tail : Str) (events : List Str)
    (hwell : ∀ m ∈ messages, WellFormed jsonParse returns m)
    (hshort : ∀ m ∈ messages, byteLength m < 10240) (htail : '\n' ∉ tail)
    (hevents : events.flatten = stream messages ++ tail) :
    Framed jsonParse messages tail (receive jsonParse returns (connected J) events) ↔
      CompletionsFit [] events := by
  obtain ⟨values, hvalues⟩ := values_of_wellFormed hwell
  have hiff := receive_iff events (connected J) List.not_mem_nil (Nat.zero_le _) rfl rfl hwell
    hshort hvalues htail hevents
  have hsome : ∀ l : List J, values.map some = l.map some ↔ l = [] ++ values := fun l => by
    rw [List.nil_append]
    exact ⟨fun h => (List.map_injective_iff.mpr (Option.some_injective J) h).symm,
      fun h => by rw [h]⟩
  rw [Framed, hvalues, hsome]
  exact hiff

end

/-- What the dispatcher sends for a share. -/
def submit : Str :=
  "\x7b\"id\":3,\"method\":\"mining.submit\",\"params\":[\"w\",\"1\",".toList ++
    "\"0000000000000001\",\"65f0a1b2\",\"0badc0de\"]\x7d".toList

def submitJson : Json :=
  .object [("id".toList, .unsigned 3), ("method".toList, .string "mining.submit".toList),
    ("params".toList, .array [.string "w".toList, .string "1".toList,
      .string "0000000000000001".toList, .string "65f0a1b2".toList, .string "0badc0de".toList])]

def parseSubmit : Str → Option Json := tableParse [(submit, submitJson)]

theorem submit_wellFormed : WellFormed parseSubmit (fun _ _ => true) submit :=
  ⟨by decide, by decide, submitJson, rfl, fun _ => rfl⟩

theorem submit_short : byteLength submit < 10240 := by decide +kernel

/-- Two shares, with an event that ends inside the second. -/
theorem twoShares_framed :
    Framed parseSubmit [submit, submit] []
      (receive parseSubmit (fun _ _ => true) (connected Json)
        [submit ++ '\n' :: submit.take 20, submit.drop 20 ++ ['\n']]) :=
  (receive_framed_iff parseSubmit (fun _ _ => true) [submit, submit] []
    [submit ++ '\n' :: submit.take 20, submit.drop 20 ++ ['\n']]
    (List.forall_mem_cons.mpr
      ⟨submit_wellFormed, List.forall_mem_cons.mpr ⟨submit_wellFormed, nofun⟩⟩)
    (List.forall_mem_cons.mpr ⟨submit_short, List.forall_mem_cons.mpr ⟨submit_short, nofun⟩⟩)
    List.not_mem_nil (by decide +kernel)).mpr
    ⟨fun _ => by decide +kernel, fun _ => by decide +kernel, trivial⟩

theorem byteLength_stream (messages : List Str) :
    byteLength (stream messages) = (messages.map fun m => byteLength m + 1).sum := by
  induction messages with
  | nil => rfl
  | cons m messages ih =>
      have hnewline : Char.utf8Size '\n' = 1 := by decide
      have hcons : byteLength ('\n' :: stream messages)
          = Char.utf8Size '\n' + byteLength (stream messages) := List.sum_cons
      rw [stream_cons, byteLength_append, List.map_cons, List.sum_cons,
        ← ih, hcons, hnewline, Nat.add_assoc]

/-- So many shares in one event are 120 * 94 bytes. -/
def burst : List Str := List.replicate 120 submit

theorem burst_flooded :
    (∀ m ∈ burst, WellFormed parseSubmit (fun _ _ => true) m ∧ byteLength m < 10240) ∧
    (receive parseSubmit (fun _ _ => true) (connected Json) [stream burst]).handled
      = ⟨[], false, true, true⟩ ∧
    ¬ Framed parseSubmit burst []
      (receive parseSubmit (fun _ _ => true) (connected Json) [stream burst]) := by
  have hlong : 10240 < byteLength ((connected Json).messages ++ stream burst) := by
    have hsubmit : byteLength submit = 93 := by decide +kernel
    rw [connected, List.nil_append, byteLength_stream, burst, List.map_replicate, List.sum_replicate, hsubmit]
    decide
  have hreceive : receive parseSubmit (fun _ _ => true) (connected Json) [stream burst]
      = ⟨(connected Json).messages ++ stream burst, ⟨[], false, true, true⟩⟩ := by
    rw [receive_cons rfl, validateData_long hlong]
    rfl
  refine ⟨fun m hm => ?_, by rw [hreceive], fun h => ?_⟩
  · obtain rfl : m = submit := List.eq_of_mem_replicate hm
    exact ⟨submit_wellFormed, submit_short⟩
  · rw [hreceive] at h
    have hflooded := h.2.1.mp rfl
    exact absurd hflooded (by decide)

end StratumClient

end DogeConnect
