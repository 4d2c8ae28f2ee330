/-
`stratum_recv_thread.cpp`: the handshake with the pool and the receive loop.

`initStratumProtocol` reads twice, once after each of its two messages, and
takes what a read returns for a whole response: the first as one JSON value,
the second cut at the newlines.  `stratumReceiveLoop` keeps what follows the
last newline for the next read.  A read is a parameter of either, and so is
`json::parse`.

    cutLines_eq        the line loop is the drain of the newline framer
    receiveAll_eq      the receive loop does not depend on the reads
-/
import DogeConnect.Json
import DogeConnect.Lib.Framing

namespace DogeConnect

/-! ## Lines -/

/-- The lines that a newline ends, and what follows the last of them. -/
def cutLines : Str → List Str × Str
  | [] => ([], [])
  | c :: rest =>
    let (lines, last) := cutLines rest
    if c = '\n' then ([] :: lines, last)
    else match lines with
      | [] => ([], c :: last)
      | line :: lines => ((c :: line) :: lines, last)

theorem cutLines_append_newline : ∀ {line : Str}, '\n' ∉ line → ∀ rest : Str,
    cutLines (line ++ '\n' :: rest) = (line :: (cutLines rest).1, (cutLines rest).2)
  | [], _, rest => by simp [cutLines]
  | c :: line, h, rest => by
      rw [List.mem_cons, not_or] at h
      rw [List.cons_append, cutLines, cutLines_append_newline h.2 rest]
      simp [Ne.symm h.1]

theorem cutLines_of_not_mem : ∀ {s : Str}, '\n' ∉ s → cutLines s = ([], s)
  | [], _ => rfl
  | c :: s, h => by
      rw [List.mem_cons, not_or] at h
      rw [cutLines, cutLines_of_not_mem h.2]
      simp [Ne.symm h.1]

/-- A line, its newline included, is a frame. -/
def lineFramer : Framer Char where
  next buf := (buf.findIdx? (· = '\n')).map (· + 1)
  next_pos := by
    intro buf n h
    obtain ⟨i, -, rfl⟩ := Option.map_eq_some_iff.mp h
    exact Nat.succ_pos i
  next_le := by
    intro buf n h
    obtain ⟨i, hi, rfl⟩ := Option.map_eq_some_iff.mp h
    exact (List.findIdx?_eq_some_iff_getElem.mp hi).1
  next_append := by
    intro buf n more h
    obtain ⟨i, hi, rfl⟩ := Option.map_eq_some_iff.mp h
    rw [List.findIdx?_append, hi]
    rfl

theorem lineFramer_next_some {buf : Str} {n : Nat} (h : lineFramer.next buf = some n) :
    ∃ line rest, '\n' ∉ line ∧ buf = line ++ '\n' :: rest ∧ n = line.length + 1 := by
  obtain ⟨i, hi, rfl⟩ := Option.map_eq_some_iff.mp h
  obtain ⟨hlt, hnewline, hbefore⟩ := List.findIdx?_eq_some_iff_getElem.mp hi
  refine ⟨buf.take i, buf.drop (i + 1), ?_, ?_, ?_⟩
  · intro hmem
    obtain ⟨j, hj, hget⟩ := List.mem_iff_getElem.mp hmem
    rw [List.length_take] at hj
    rw [List.getElem_take] at hget
    exact hbefore j (by omega) (decide_eq_true hget)
  · rw [← of_decide_eq_true hnewline, List.cons_getElem_drop_succ, List.take_append_drop]
  · rw [List.length_take]
    omega

theorem lineFramer_next_none {buf : Str} (h : lineFramer.next buf = none) : '\n' ∉ buf := by
  intro hmem
  have hnone : buf.findIdx? (· = '\n') = none := Option.map_eq_none_iff.mp h
  exact absurd (List.findIdx?_eq_none_iff.mp hnone '\n' hmem) (by decide)

theorem cutLines_eq (buf : Str) :
    cutLines buf = ((lineFramer.drain buf).1.map List.dropLast, (lineFramer.drain buf).2) := by
  induction buf using lineFramer.drain_induction with
  | rest buf h => rw [cutLines_of_not_mem (lineFramer_next_none h), lineFramer.drain_none h]; rfl
  | frame buf n h ih =>
      obtain ⟨line, rest, hline, rfl, rfl⟩ := lineFramer_next_some h
      have hsplit : line ++ '\n' :: rest = (line ++ ['\n']) ++ rest := by simp
      have hlen : line.length + 1 = (line ++ ['\n']).length := by simp
      rw [hlen, hsplit, List.drop_left] at ih
      rw [cutLines_append_newline hline, ih, lineFramer.drain_some h, hlen, hsplit, List.drop_left,
        List.take_left, List.map_cons, List.dropLast_concat]

theorem cutLines_append (a b : Str) :
    cutLines (a ++ b) = ((cutLines a).1 ++ (cutLines ((cutLines a).2 ++ b)).1,
      (cutLines ((cutLines a).2 ++ b)).2) := by
  simp only [cutLines_eq, lineFramer.drain_append a b, List.map_append]

/-! ## `initStratumProtocol` -/

/-- What a thread can die of while it reads messages. -/
inductive StratumError
  /-- `json::parse` throws. -/
  | parseError
  | access (e : JsonError)
  deriving DecidableEq, Repr

/-- What the non-constant `operator[](key)` leaves of a value it does not throw
on. -/
def Json.withKey : Json → Str → Json
  | .object fields, key =>
    if (find? fields key).isSome then .object fields else .object (fields ++ [(key, .null)])
  | .null, key => .object [(key, .null)]
  | v, _ => v

inductive SubscribeReply
  | rejected
  /-- The first nonce and the size of the second. -/
  | subscribed (extraNonce1 : List UInt8) (extraNonce2NumBytes : UInt32)
  deriving DecidableEq, Repr

/-- The checks on the response to `mining.subscribe`. -/
def readSubscribeResponse (response : Json) : Except JsonError SubscribeReply := do
  if !(← response.field "id".toList).eqInt 1 then return .rejected
  if !(← response.field "error".toList).isNull then return .rejected
  let result ← response.field "result".toList
  let extraNonce1String ← (← result.constIndex 1).getString
  let extraNonce2NumBytes ← (← result.constIndex 2).getUInt32
  return .subscribed (hexToBytes extraNonce1String .BigEndian) extraNonce2NumBytes

/-- What a line of the second response asks for. -/
inductive AuthorizeLine
  | nothing
  | refused
  /-- To be pushed to the queue. -/
  | message (msg : Json)

def readAuthorizeLine (response : Json) : Except JsonError AuthorizeLine := do
  let id ← response.field "id".toList
  if id.eqInt 2 then
    if (← response.field "result".toList).eqBool false then return .refused
    if !(← response.field "error".toList).isNull then return .refused
    return .nothing
  else if id.isNull then return .message (response.withKey "id".toList)
  else return .nothing

section
variable (parse : Str → Option Json)

/-- The loop over the lines of the second response, with what is pushed so far. -/
def authorizeLines : List Str → List Json → Except StratumError Bool × List Json
  | [], pushed => (.ok true, pushed)
  | line :: lines, pushed =>
    if line = [] then authorizeLines lines pushed
    else match parse line with
      | none => (.error .parseError, pushed)
      | some response =>
        match readAuthorizeLine response with
        | .error e => (.error (.access e), pushed)
        | .ok .nothing => authorizeLines lines pushed
        | .ok .refused => (.ok false, pushed)
        | .ok (.message msg) => authorizeLines lines (pushed ++ [msg])

/-- The lines of a response; here the last needs no newline. -/
def responseLines (responseString : Str) : List Str :=
  (cutLines responseString).1 ++ [(cutLines responseString).2]

structure InitResult where
  /-- An exception, or the value returned. -/
  outcome : Except StratumError Bool
  extraNonce1 : List UInt8
  /-- The messages pushed to the queue. -/
  pushed : List Json

/-- `initStratumProtocol`, given what its two reads return. -/
def initStratumProtocol (extraNonce1 : List UInt8) (subscribeResponse responseString : Str) :
    InitResult :=
  if subscribeResponse = [] then ⟨.ok false, extraNonce1, []⟩
  else match parse subscribeResponse with
    | none => ⟨.error .parseError, extraNonce1, []⟩
    | some response =>
      match readSubscribeResponse response with
      | .error e => ⟨.error (.access e), extraNonce1, []⟩
      | .ok .rejected => ⟨.ok false, extraNonce1, []⟩
      | .ok (.subscribed nonce extraNonce2NumBytes) =>
        if extraNonce2NumBytes ≠ 8 then ⟨.ok false, nonce, []⟩
        else
          let (outcome, pushed) := authorizeLines parse (responseLines responseString) []
          ⟨outcome, nonce, pushed⟩

/-! ## `stratumReceiveLoop` -/

/-- What the loop pushes for a line; exceptions are caught. -/
def receiveLine (line : Str) : List Json := if line = [] then [] else (parse line).toList

structure ReceiveState where
  networkBuffer : Str
  pushed : List Json

/-- One read of the loop. -/
def receiveChunk (st : ReceiveState) (chunk : Str) : ReceiveState :=
  let (lines, rest) := cutLines (st.networkBuffer ++ chunk)
  ⟨rest, st.pushed ++ lines.flatMap (receiveLine parse)⟩

/-- The reads of a connection by the loop. -/
def receiveAll (chunks : List Str) : ReceiveState := chunks.foldl (receiveChunk parse) ⟨[], []⟩

theorem foldl_receiveChunk : ∀ (chunks : List Str) (st : ReceiveState), '\n' ∉ st.networkBuffer →
    chunks.foldl (receiveChunk parse) st =
      ⟨(cutLines (st.networkBuffer ++ chunks.flatten)).2,
        st.pushed ++ (cutLines (st.networkBuffer ++ chunks.flatten)).1.flatMap (receiveLine parse)⟩
  | [], st, h => by
      rw [List.flatten_nil, List.append_nil, cutLines_of_not_mem h]
      simp
  | c :: cs, st, h => by
      have hrest : '\n' ∉ (cutLines (st.networkBuffer ++ c)).2 := by
        rw [cutLines_eq]
        exact lineFramer_next_none (lineFramer.drain_rest _)
      rw [List.foldl_cons, foldl_receiveChunk cs _ hrest, List.flatten_cons, ← List.append_assoc,
        cutLines_append (st.networkBuffer ++ c)]
      simp [receiveChunk]

/-- Any reads push what the lines of their concatenation are worth. -/
theorem receiveAll_eq (chunks : List Str) :
    (receiveAll parse chunks).pushed = (cutLines chunks.flatten).1.flatMap (receiveLine parse) := by
  rw [receiveAll, foldl_receiveChunk parse chunks ⟨[], []⟩ List.not_mem_nil]
  simp

end

end DogeConnect
