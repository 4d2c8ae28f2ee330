/-
`stratumReceiveLoop` over the life of the process: many reads, many connections.

A read brings between 1 and 256 bytes, or nothing, which ends the connection:
the buffer is cleared and the pool is asked again until `initStratumProtocol`
succeeds.  The messages which that function pushes to the same queue are kept
apart here from those the loop pushes itself.

The invariant is that the buffer holds no newline between two reads, so it is
what the lines of the connection so far leave over; the connection's stream is
cut into lines once, whatever the reads were.

    lineLoop_eq                  the inner loop cuts the buffer into lines
    exec_loopPushed              a run pushes what the lines of its streams hold
    LineStream.text_injective    a stream has one division into lines
-/
import DogeConnect.StratumRecv
import DogeConnect.Lib.Run

namespace DogeConnect

/-! ## The loop -/

/-- What a successful `read` into the temporary buffer brings. -/
structure Chunk where
  bytes : Str
  nonempty : bytes ≠ []
  length_le : bytes.length ≤ 256

/-- One round of the reconnect loop. -/
inductive ReconnectAttempt
  /-- `openConnection` fails. -/
  | closed
  /-- It succeeds, and the handshake reads these. -/
  | opened (subscribeResponse responseString : Str)

/-- What `receiveResponse` returns to the loop; a lost connection comes with the
attempts to replace it. -/
inductive ReadResult
  | data (chunk : Chunk)
  | lost (attempts : List ReconnectAttempt)

/-- A message in the queue, with the function that pushed it. -/
inductive Pushed
  | byLoop (msg : Json)
  | byHandshake (msg : Json)

structure LoopState where
  networkBuffer : Str
  queue : List Pushed
  extraNonce1 : List UInt8

namespace LoopState

def initial (extraNonce1 : List UInt8) : LoopState := ⟨[], [], extraNonce1⟩

/-- The values the loop itself has pushed, in order. -/
def loopPushed (st : LoopState) : List Json :=
  st.queue.filterMap fun
    | .byLoop msg => some msg
    | .byHandshake _ => none

end LoopState

section
variable (parse : Str → Option Json)

/-- The loop over the newlines of the buffer: cut a line, push what it parses
to, erase it. -/
def lineLoop (networkBuffer : Str) : List Json × Str :=
  match _h : networkBuffer.findIdx? (· = '\n') with
  | none => ([], networkBuffer)
  | some pos =>
    let line := networkBuffer.take pos
    let (pushed, rest) := lineLoop (networkBuffer.drop (pos + 1))
    (receiveLine parse line ++ pushed, rest)
termination_by networkBuffer.length
decreasing_by
  have hpos := (List.findIdx?_eq_some_iff_getElem.mp _h).1
  rw [List.length_drop]
  omega

/-- The reconnect loop up to its first success; without one the loop is left
when the thread is asked to stop, or by an exception. -/
def reconnect (st : LoopState) : List ReconnectAttempt → Option LoopState
  | [] => none
  | .closed :: attempts => reconnect st attempts
  | .opened subscribeResponse responseString :: attempts =>
    let init := initStratumProtocol parse st.extraNonce1 subscribeResponse responseString
    let st := { st with
      queue := st.queue ++ init.pushed.map Pushed.byHandshake
      extraNonce1 := init.extraNonce1 }
    match init.outcome with
    | .ok true => if attempts.isEmpty then some st else none
    | .ok false => reconnect st attempts
    | .error _ => none

/-- One round of the loop. -/
def receiveRound (st : LoopState) : ReadResult → Option LoopState
  | .data chunk =>
    let (pushed, rest) := lineLoop parse (st.networkBuffer ++ chunk.bytes)
    some { st with networkBuffer := rest, queue := st.queue ++ pushed.map Pushed.byLoop }
  | .lost attempts => reconnect parse { st with networkBuffer := [] } attempts

theorem lineLoop_eq (buf : Str) :
    lineLoop parse buf = ((cutLines buf).1.flatMap (receiveLine parse), (cutLines buf).2) := by
  induction buf using lineFramer.drain_induction with
  | rest buf h =>
      have hnone : buf.findIdx? (· = '\n') = none := Option.map_eq_none_iff.mp h
      rw [cutLines_of_not_mem (lineFramer_next_none h), lineLoop]
      split
      · rfl
      next pos hsome =>
        rw [hnone] at hsome
        cases hsome
  | frame buf n h ih =>
      obtain ⟨line, rest, hline, rfl, rfl⟩ := lineFramer_next_some h
      obtain ⟨pos, hpos, hlen⟩ := Option.map_eq_some_iff.mp h
      have hpos' : pos = line.length := Nat.succ.inj hlen
      subst hpos'
      have hdrop : (line ++ '\n' :: rest).drop (line.length + 1) = rest := by simp
      rw [hdrop] at ih
      rw [cutLines_append_newline hline, lineLoop]
      split
      next hnone =>
        rw [hnone] at hpos
        cases hpos
      next pos hsome =>
        rw [hpos] at hsome
        cases hsome
        rw [hdrop, ih]
        simp

end

/-! ## Lines of a stream -/

/-- A stream divided into complete lines and what follows the last newline. -/
structure LineStream where
  lines : List Str
  rest : Str
  lines_ok : ∀ line ∈ lines, '\n' ∉ line
  rest_ok : '\n' ∉ rest

namespace LineStream

def text (s : LineStream) : Str := s.lines.flatMap (· ++ ['\n']) ++ s.rest

end LineStream

theorem cutLines_flatMap_append : ∀ {lines : List Str} {rest : Str},
    (∀ line ∈ lines, '\n' ∉ line) → '\n' ∉ rest →
    cutLines (lines.flatMap (· ++ ['\n']) ++ rest) = (lines, rest)
  | [], rest, _, hrest => by simpa using cutLines_of_not_mem hrest
  | line :: lines, rest, hlines, hrest => by
      have hline := hlines line List.mem_cons_self
      have htail := cutLines_flatMap_append (fun l hl => hlines l (List.mem_cons_of_mem _ hl)) hrest
      have hcat : (line :: lines).flatMap (· ++ ['\n']) ++ rest
          = line ++ '\n' :: (lines.flatMap (· ++ ['\n']) ++ rest) := by simp
      rw [hcat, cutLines_append_newline hline, htail]

theorem cutLines_text (s : LineStream) : cutLines s.text = (s.lines, s.rest) :=
  cutLines_flatMap_append s.lines_ok s.rest_ok

theorem LineStream.text_injective : Function.Injective LineStream.text := by
  intro s t h
  have hcut := cutLines_text s
  rw [h, cutLines_text t] at hcut
  obtain ⟨hlines, hrest⟩ := Prod.mk.inj hcut
  cases s
  cases t
  cases hlines
  cases hrest
  rfl

theorem LineStream.exists_text (text : Str) : ∃ s : LineStream, s.text = text := by
  induction text using lineFramer.drain_induction with
  | rest buf h => exact ⟨⟨[], buf, by simp, lineFramer_next_none h⟩, rfl⟩
  | frame buf n h ih =>
      obtain ⟨line, rest, hline, rfl, rfl⟩ := lineFramer_next_some h
      have hdrop : (line ++ '\n' :: rest).drop (line.length + 1) = rest := by simp
      rw [hdrop] at ih
      obtain ⟨s, rfl⟩ := ih
      refine ⟨⟨line :: s.lines, s.rest, ?_, s.rest_ok⟩, by simp [LineStream.text]⟩
      intro l hl
      rcases List.mem_cons.mp hl with rfl | hl
      · exact hline
      · exact s.lines_ok l hl

/-! ## Runs -/

/-- The streams of the connections a run of reads goes through, the one it is in
having brought `current` so far. -/
def streamsFrom (current : Str) : List ReadResult → List Str
  | [] => [current]
  | .data chunk :: results => streamsFrom (current ++ chunk.bytes) results
  | .lost _ :: results => current :: streamsFrom [] results

def connectionStreams (results : List ReadResult) : List Str := streamsFrom [] results

section
variable (parse : Str → Option Json)

/-- What the complete lines of a stream are worth. -/
def streamValues (stream : Str) : List Json := (cutLines stream).1.flatMap (receiveLine parse)

theorem streamValues_append (a b : Str) : streamValues parse (a ++ b)
    = streamValues parse a ++ streamValues parse ((cutLines a).2 ++ b) := by
  rw [streamValues, cutLines_append, List.flatMap_append]
  rfl

theorem streamValues_text (s : LineStream) :
    streamValues parse s.text = (s.lines.filter (· ≠ [])).filterMap parse := by
  rw [streamValues, cutLines_text]
  induction s.lines with
  | nil => rfl
  | cons line lines ih =>
      rw [List.flatMap_cons, ih]
      by_cases hline : line = []
      · simp [hline, receiveLine]
      · rw [List.filter_cons_of_pos (by simp [hline]), List.filterMap_cons, receiveLine,
          if_neg hline]
        cases parse line <;> rfl

variable {parse}

theorem loopPushed_byLoop {st : LoopState} (pushed : List Json) (buffer : Str) :
    LoopState.loopPushed { st with
      networkBuffer := buffer
      queue := st.queue ++ pushed.map Pushed.byLoop } = st.loopPushed ++ pushed := by
  simp only [LoopState.loopPushed, List.filterMap_append, List.filterMap_map]
  congr 1
  exact List.filterMap_some

/-- The handshake's pushes are not the loop's, and it leaves the buffer alone. -/
theorem reconnect_frame : ∀ (attempts : List ReconnectAttempt) {st st' : LoopState},
    reconnect parse st attempts = some st' →
    st'.networkBuffer = st.networkBuffer ∧ st'.loopPushed = st.loopPushed
  | [], st, st', h => by cases h
  | .closed :: attempts, st, st', h => reconnect_frame attempts h
  | .opened sub auth :: attempts, st, st', h => by
      have hpushed : ∀ (nonce : List UInt8) (msgs : List Json),
          LoopState.loopPushed { st with
            queue := st.queue ++ msgs.map Pushed.byHandshake
            extraNonce1 := nonce } = st.loopPushed := by
        intro nonce msgs
        have hnone : msgs.filterMap (fun _ => (none : Option Json)) = [] := by simp
        simp only [LoopState.loopPushed, List.filterMap_append, List.filterMap_map]
        exact (congrArg _ hnone).trans (List.append_nil _)
      simp only [reconnect] at h
      split at h
      · split at h
        · cases h
          exact ⟨rfl, hpushed _ _⟩
        · cases h
      · obtain ⟨hbuffer, hloop⟩ := reconnect_frame _ h
        exact ⟨hbuffer, hloop.trans (hpushed _ _)⟩
      · cases h

/-- The buffer is what the connection's stream leaves over, and the loop has
pushed what its complete lines are worth, after `earlier`. -/
structure InStream (parse : Str → Option Json) (earlier : List Json) (current : Str)
    (st : LoopState) : Prop where
  buffer : st.networkBuffer = (cutLines current).2
  pushed : st.loopPushed = earlier ++ streamValues parse current

theorem InStream.data {earlier : List Json} {current : Str} {st st' : LoopState}
    (h : InStream parse earlier current st) {chunk : Chunk}
    (hstep : receiveRound parse st (.data chunk) = some st') :
    InStream parse earlier (current ++ chunk.bytes) st' := by
  rw [receiveRound, lineLoop_eq] at hstep
  cases hstep
  constructor
  · rw [cutLines_append current, ← h.buffer]
  · rw [loopPushed_byLoop, h.pushed, streamValues_append, ← h.buffer, List.append_assoc]
    rfl

theorem InStream.lost {earlier : List Json} {current : Str} {st st' : LoopState}
    (h : InStream parse earlier current st) {attempts : List ReconnectAttempt}
    (hstep : receiveRound parse st (.lost attempts) = some st') :
    InStream parse (earlier ++ streamValues parse current) [] st' := by
  obtain ⟨hbuffer, hloop⟩ := reconnect_frame _ hstep
  constructor
  · exact hbuffer
  · rw [hloop]
    exact h.pushed.trans (List.append_nil _).symm

theorem exec_loopPushed : ∀ {results : List ReadResult} {earlier : List Json} {current : Str}
    {st st' : LoopState}, InStream parse earlier current st →
    Run.exec (receiveRound parse) st results = some st' →
    st'.loopPushed = earlier ++ (streamsFrom current results).flatMap (streamValues parse)
  | [], earlier, current, st, st', h, hrun => by
      cases hrun
      rw [h.pushed]
      simp [streamsFrom]
  | .data chunk :: results, earlier, current, st, st', h, hrun => by
      obtain ⟨mid, hstep, hrest⟩ := Option.bind_eq_some_iff.mp hrun
      rw [exec_loopPushed (h.data hstep) hrest]
      rfl
  | .lost attempts :: results, earlier, current, st, st', h, hrun => by
      obtain ⟨mid, hstep, hrest⟩ := Option.bind_eq_some_iff.mp hrun
      rw [exec_loopPushed (h.lost hstep) hrest, List.append_assoc]
      rfl

/-- **Steady-state framing.**  Each connection's stream has one division into
complete lines and a rest, and the loop pushes the values of the non-empty lines
that parse, in order: nothing of a rest, and nothing across two connections. -/
theorem stratumReceiveLoop_lines (parse : Str → Option Json) (extraNonce1 : List UInt8)
    (results : List ReadResult) (st : LoopState)
    (hrun : Run.exec (receiveRound parse) (.initial extraNonce1) results = some st) :
    (∃ connections : List LineStream,
      connections.map LineStream.text = connectionStreams results) ∧
    ∀ connections : List LineStream,
      connections.map LineStream.text = connectionStreams results →
      st.loopPushed
        = connections.flatMap fun c => (c.lines.filter (· ≠ [])).filterMap parse := by
  have hstart : InStream parse [] [] (LoopState.initial extraNonce1) := ⟨rfl, rfl⟩
  constructor
  · obtain ⟨connections, hmem⟩ := Classical.skolem.mp LineStream.exists_text
    refine ⟨(connectionStreams results).map connections, ?_⟩
    rw [List.map_map]
    exact (List.map_congr_left fun s _ => hmem s).trans (List.map_id _)
  · intro connections hstreams
    have hpushed := exec_loopPushed hstart hrun
    rw [List.nil_append] at hpushed
    rw [hpushed, ← connectionStreams, ← hstreams, List.flatMap_map]
    exact List.flatMap_congr fun c _ => streamValues_text parse c

end

/-- A parser for the reply to `mining.subscribe` and two notifications. -/
def sampleParse (text : Str) : Option Json :=
  if text = "S".toList then
    some (.object [("id".toList, .unsigned 1), ("error".toList, .null),
      ("result".toList, .array [.null, .string "0a0b".toList, .unsigned 8])])
  else if text = "job 1".toList ∨ text = "job 2".toList then some (.string text)
  else none

/-- A line over two reads, an empty one, one that does not parse, and a line cut
by a disconnect. -/
def sampleReads : List ReadResult :=
  [.data ⟨"jo".toList, by decide, by decide⟩,
   .data ⟨"b 1\n\n\x7b\njob".toList, by decide, by decide⟩,
   .lost [.closed, .opened "S".toList []],
   .data ⟨" 2\njob 2\n".toList, by decide, by decide⟩]

def sampleStreams : List LineStream :=
  [⟨["job 1".toList, [], "\x7b".toList], "job".toList, by decide, by decide⟩,
   ⟨[" 2".toList, "job 2".toList], [], by decide, by decide⟩]

theorem stratumReceiveLoop_lines_sample :
    ∃ st, Run.exec (receiveRound sampleParse) (.initial []) sampleReads = some st ∧
      st.loopPushed = [.string "job 1".toList, .string "job 2".toList] := by
  have hlast : ∃ st, Run.exec (receiveRound sampleParse) (.initial []) sampleReads = some st := by
    simp only [sampleReads, Run.exec, receiveRound, lineLoop_eq, Option.bind_some]
    exact ⟨_, rfl⟩
  obtain ⟨st, hrun⟩ := hlast
  have hstreams : sampleStreams.map LineStream.text = connectionStreams sampleReads := rfl
  refine ⟨st, hrun, ?_⟩
  rw [(stratumReceiveLoop_lines sampleParse [] sampleReads st hrun).2 sampleStreams hstreams]
  rfl

end DogeConnect
