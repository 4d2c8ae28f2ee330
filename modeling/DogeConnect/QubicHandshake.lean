/-
`qubic_connection.cpp`: packets awaited on a new connection.

`receivePacketWithHeaderAs` reads headers until one has the type it waits for,
and reads and forgets the bodies of at most `maxSkip` others, in pieces of the
buffer's size.  `receivePacketAndExtraDataWithHeaderAs` skips any number, each
body in one piece.  `openQubicConnection` calls the first one twice, with a
message of its own in between, and returns true whatever the calls came to.

The sizes come from the peer.  A size below 8 makes the remaining length
negative, and a negative `int` is a large `unsigned int`; a size of 0 stands
for the largest `int`.

    nextHeader_spec         a header read, and what the loops make of it
    extraDataLoop_rounds    the second loop ends with the reads
    requestsInBounds_iff    when every read stays inside the buffer
-/
import DogeConnect.TaskPacket
import DogeConnect.QubicRecv
import DogeConnect.Lib.Source

namespace DogeConnect

/-! ## The connection -/

structure Connection where
  isConnected : Bool
  source : Source UInt8

namespace Connection

/-- `receiveResponse(buffer, size)`: one read; nothing where it returns 0 or -1. -/
def receiveResponse (c : Connection) (size : Nat) : List UInt8 × Connection :=
  if c.isConnected then ((c.source.read size).1, { c with source := (c.source.read size).2 })
  else ([], c)

/-- `receiveAllData(buffer, size)`: what was read, if all of it was. -/
def receiveAllData (c : Connection) (size : Nat) : Option (List UInt8) × Connection :=
  if c.isConnected then
    let taken := c.source.readAll size
    (if taken.complete then some taken.data else none, { c with source := taken.rest })
  else (none, c)

end Connection

/-- `m_buffer.size()`. -/
def bufferSize : Nat := 4096

def END_RESPONSE_TYPE : UInt8 := 35

/-- The parameter `T`: `T::type()`, `sizeof(T)`. -/
structure PacketType where
  type : UInt8
  size : Nat
  ne_end : type ≠ END_RESPONSE_TYPE

/-- Four addresses of four bytes. -/
def ExchangePublicPeers : PacketType := ⟨0, 16, by decide⟩

/-- No fields. -/
def RequestComputors : PacketType := ⟨11, 1, by decide⟩

/-- What `taskReceiveLoop` waits for. -/
def CustomQubicMiningTask.packetType : PacketType :=
  ⟨CustomQubicMiningTask.type, CustomQubicMiningTask.layout.width, by decide⟩

/-! ## Sizes -/

/-- `packetSize - sizeof(RequestResponseHeader)`: the `int` becomes a `size_t`,
and the difference an `int` again. -/
def remainingSize (header : RequestResponseHeader) : Int :=
  toInt (((toInt header.size) % 2 ^ 64 + (2 ^ 64 - RequestResponseHeader.layout.width)) % 2 ^ 64)

/-- An `int` passed as an `unsigned int`. -/
def toUnsigned (v : Int) : Nat := (v % 2 ^ 32).toNat

theorem RequestResponseHeader.size_bounds (header : RequestResponseHeader) :
    0 < header.size ∧ header.size ≤ INT32_MAX := by
  have hlt := header.sizeBytes.val_lt
  rw [header.size_eq, INT32_MAX]
  split <;> omega

theorem remainingSize_eq (header : RequestResponseHeader) :
    remainingSize header = header.size - 8 := by
  obtain ⟨-, hmax⟩ := header.size_bounds
  have hwidth : (RequestResponseHeader.layout.width : Int) = 8 := rfl
  rw [INT32_MAX] at hmax
  rw [remainingSize, hwidth, toInt, toInt, Int.bmod_def, Int.bmod_def]
  omega

theorem toUnsigned_of_nonneg {v : Int} (h : 0 ≤ v) (hlt : v < 2 ^ 32) : toUnsigned v = v.toNat := by
  rw [toUnsigned, Int.emod_eq_of_lt h hlt]

theorem toUnsigned_of_neg {v : Int} (h : v < 0) (hlt : -8 < v) : 2 ^ 32 - 8 < toUnsigned v := by
  rw [toUnsigned]
  omega

/-! ## The calls -/

structure RecvCall where
  conn : Connection
  /-- Ghost: the second arguments of the calls of `receiveAllData`. -/
  requests : List Nat
  /-- Ghost: the headers read. -/
  headers : List RequestResponseHeader

namespace RecvCall

def start (conn : Connection) : RecvCall := ⟨conn, [], []⟩

/-- `receiveResponse(&header, sizeof(header))`. -/
def receiveHeader (st : RecvCall) : List UInt8 × RecvCall :=
  let r := st.conn.receiveResponse RequestResponseHeader.layout.width
  (r.1, { st with conn := r.2 })

/-- `receiveAllData(buffer, remainingSize)`. -/
def receiveBody (st : RecvCall) (remainingSize : Int) : Option (List UInt8) × RecvCall :=
  let size := toUnsigned remainingSize
  let r := st.conn.receiveAllData size
  (r.1, { st with conn := r.2, requests := st.requests ++ [size] })

/-- A header that was read whole. -/
def record (st : RecvCall) (header : RequestResponseHeader) : RecvCall :=
  { st with headers := st.headers ++ [header] }

end RecvCall

/-- The loop that reads a body and forgets it.  Each round takes at least one
byte off, so `remainingSize` rounds are enough. -/
def skipBody : Nat → Int → RecvCall → Bool × RecvCall
  | 0, _, st => (true, st)
  | rounds + 1, remainingSize, st =>
    if 0 < remainingSize then
      let chunkSize : Int := if remainingSize < bufferSize then remainingSize else bufferSize
      match st.receiveBody chunkSize with
      | (none, st) => (false, st)
      | (some _, st) => skipBody rounds (remainingSize - chunkSize) st
    else (true, st)

/-- The body of a foreign packet. -/
def skipPacket (header : RequestResponseHeader) (st : RecvCall) : Bool × RecvCall :=
  skipBody (remainingSize header).toNat (remainingSize header) st

section
variable (T : PacketType)

/-- What `receivePacketWithHeaderAs` leaves. -/
structure Received (T : PacketType) where
  result : ByteArr T.size
  call : RecvCall

/-- A return before the packet was read: the result is all zeros. -/
def RecvCall.nothing {T : PacketType} (st : RecvCall) : Received T := ⟨ByteArr.fill _ 0, st⟩

@[simp] theorem RecvCall.nothing_call {T : PacketType} (st : RecvCall) :
    (st.nothing : Received T).call = st := rfl

/-- The awaited packet's body, into `m_buffer`; the result is its front. -/
def receiveResult (header : RequestResponseHeader) (st : RecvCall) : Received T :=
  if remainingSize header ≠ 0 then
    if remainingSize header > bufferSize then st.nothing else
    match st.receiveBody (remainingSize header) with
    | (none, st) => st.nothing
    | (some body, st) => ⟨ByteArr.copy _ body, st⟩
  else st.nothing

/-- The header read and the tests on it, which both loops begin with. -/
inductive NextHeader
  | short (bytes : List UInt8) (st : RecvCall)
  | endResponse (st : RecvCall)
  | foreign (header : RequestResponseHeader) (st : RecvCall)
  | awaited (header : RequestResponseHeader) (st : RecvCall)

def nextHeader (st : RecvCall) : NextHeader :=
  let bytes := st.receiveHeader.1
  if bytes.length ≠ RequestResponseHeader.layout.width then .short bytes st.receiveHeader.2 else
  let header := RequestResponseHeader.layout.read bytes
  let st := st.receiveHeader.2.record header
  if header.type = END_RESPONSE_TYPE then .endResponse st
  else if header.type ≠ T.type then .foreign header st
  else .awaited header st

/-- The loop, with `left` packets that may still be skipped. -/
def receivePacketLoop (left : Nat) (st : RecvCall) : Received T :=
  match nextHeader T st with
  | .short _ st => st.nothing
  | .endResponse st => st.nothing
  | .foreign header st =>
    match left with
    | 0 => st.nothing
    | left + 1 =>
      if (skipPacket header st).1 then receivePacketLoop left (skipPacket header st).2
      else (skipPacket header st).2.nothing
  | .awaited header st => receiveResult T header st

def maxSkip : Nat := 3

def receivePacketWithHeaderAs (conn : Connection) : Received T :=
  receivePacketLoop T maxSkip (.start conn)

/-- What `receivePacketAndExtraDataWithHeaderAs` returns, and leaves in the
caller's buffer. -/
structure ReceivedExtra where
  ret : Int
  body : List UInt8
  call : RecvCall

/-- 0 where there is no connection, -1 on an error. -/
def RecvCall.failed (st : RecvCall) (ret : Int) : ReceivedExtra := ⟨ret, [], st⟩

@[simp] theorem RecvCall.failed_call (st : RecvCall) (ret : Int) : (st.failed ret).call = st := rfl

/-- The awaited packet's body, into the caller's buffer. -/
def receiveExtraData (header : RequestResponseHeader) (st : RecvCall) : ReceivedExtra :=
  if remainingSize header ≠ 0 then
    match st.receiveBody (remainingSize header) with
    | (none, st) => st.failed (-1)
    | (some body, st) => ⟨remainingSize header, body, st⟩
  else ⟨remainingSize header, [], st⟩

/-- Every round uses up one of the reads; where none is left, the next brings
nothing. -/
def extraDataLoop : Nat → RecvCall → ReceivedExtra
  | 0, st => st.failed 0
  | rounds + 1, st =>
    match nextHeader T st with
    | .short bytes st => st.failed (if bytes.length = 0 then 0 else -1)
    | .endResponse st => st.failed (-1)
    | .foreign header st =>
      match st.receiveBody (remainingSize header) with
      | (none, st) => st.failed (-1)
      | (some _, st) => extraDataLoop rounds st
    | .awaited header st => receiveExtraData header st

def receivePacketAndExtraDataWithHeaderAs (conn : Connection) : ReceivedExtra :=
  extraDataLoop T conn.source.reads.length (.start conn)

end

/-- The message between the two calls: a header and no addresses. -/
def handshakeReply : List UInt8 :=
  RequestResponseHeader.layout.write
      ⟨RequestResponseHeader.setSize (RequestResponseHeader.layout.width + ExchangePublicPeers.size),
        ExchangePublicPeers.type, 0⟩
    ++ List.replicate ExchangePublicPeers.size 0

/-- `openQubicConnection` from the point where the socket is connected; it
returns true. -/
structure OpenedConnection where
  peers : Received ExchangePublicPeers
  reply : List UInt8
  computors : Received RequestComputors

/-- A send that fails marks the socket as disconnected. -/
def openQubicConnection (source : Source UInt8) (sent : Bool) : OpenedConnection :=
  let peers := receivePacketWithHeaderAs ExchangePublicPeers ⟨true, source⟩
  let conn := { peers.call.conn with isConnected := sent }
  ⟨peers, handshakeReply, receivePacketWithHeaderAs RequestComputors conn⟩

/-! ## The header at the front -/

/-- Eight bytes came in one read, and are `header`. -/
structure HeaderRead (st : RecvCall) (header : RequestResponseHeader) (st' : RecvCall) : Prop where
  whole : st.receiveHeader.1.length = RequestResponseHeader.layout.width
  decoded : RequestResponseHeader.layout.read st.receiveHeader.1 = header
  after : st.receiveHeader.2.record header = st'

theorem RecvCall.reads_receiveBody (st : RecvCall) (remainingSize : Int) :
    (st.receiveBody remainingSize).2.conn.source.reads.length ≤ st.conn.source.reads.length := by
  unfold receiveBody Connection.receiveAllData
  split
  · exact Source.reads_readAll_le _ _
  · exact Nat.le_refl _

theorem HeaderRead.reads {st st' : RecvCall} {header : RequestResponseHeader}
    (h : HeaderRead st header st') :
    st'.conn.source.reads.length + 1 = st.conn.source.reads.length := by
  have hwhole := h.whole
  rw [← h.after]
  unfold RecvCall.receiveHeader Connection.receiveResponse at hwhole ⊢
  split at hwhole
  next hconnected =>
    rw [if_pos hconnected]
    refine st.conn.source.reads_read fun hnil => ?_
    rw [hnil] at hwhole
    cases hwhole
  next => cases hwhole

theorem nextHeader_of_short (T : PacketType) {st : RecvCall}
    (h : st.receiveHeader.1.length ≠ RequestResponseHeader.layout.width) :
    nextHeader T st = .short st.receiveHeader.1 st.receiveHeader.2 := if_pos h

theorem nextHeader_of_read (T : PacketType) {st st' : RecvCall} {header : RequestResponseHeader}
    (h : HeaderRead st header st') :
    nextHeader T st = if header.type = END_RESPONSE_TYPE then .endResponse st'
      else if header.type ≠ T.type then .foreign header st' else .awaited header st' := by
  simp only [nextHeader, if_neg (not_not.mpr h.whole), h.decoded, h.after]

theorem nextHeader_spec (T : PacketType) (st : RecvCall) :
    match nextHeader T st with
    | .short bytes st' => (st.receiveHeader.1 = bytes ∧ st.receiveHeader.2 = st') ∧
        bytes.length ≠ RequestResponseHeader.layout.width
    | .endResponse st' => ∃ header, HeaderRead st header st' ∧ header.type = END_RESPONSE_TYPE
    | .foreign header st' => HeaderRead st header st' ∧ header.type ≠ END_RESPONSE_TYPE ∧
        header.type ≠ T.type
    | .awaited header st' => HeaderRead st header st' ∧ header.type = T.type := by
  by_cases hlen : st.receiveHeader.1.length ≠ RequestResponseHeader.layout.width
  · rw [nextHeader_of_short T hlen]
    exact ⟨⟨rfl, rfl⟩, hlen⟩
  · have hread : HeaderRead st _ _ := ⟨not_not.mp hlen, rfl, rfl⟩
    rw [nextHeader_of_read T hread]
    by_cases hend : (RequestResponseHeader.layout.read st.receiveHeader.1).type = END_RESPONSE_TYPE
    · rw [if_pos hend]
      exact ⟨_, hread, hend⟩
    · rw [if_neg hend]
      by_cases htype : (RequestResponseHeader.layout.read st.receiveHeader.1).type ≠ T.type
      · rw [if_pos htype]
        exact ⟨hread, hend, htype⟩
      · rw [if_neg htype]
        exact ⟨hread, not_not.mp htype⟩

section
variable {T : PacketType} {st st' : RecvCall} {header : RequestResponseHeader}

theorem nextHeader_short {bytes : List UInt8} (h : nextHeader T st = .short bytes st') :
    (st.receiveHeader.1 = bytes ∧ st.receiveHeader.2 = st') ∧
      bytes.length ≠ RequestResponseHeader.layout.width := by
  have hspec := nextHeader_spec T st
  rw [h] at hspec
  exact hspec

theorem nextHeader_endResponse (h : nextHeader T st = .endResponse st') :
    ∃ header, HeaderRead st header st' ∧ header.type = END_RESPONSE_TYPE := by
  have hspec := nextHeader_spec T st
  rw [h] at hspec
  exact hspec

theorem nextHeader_foreign (h : nextHeader T st = .foreign header st') :
    HeaderRead st header st' ∧ header.type ≠ END_RESPONSE_TYPE ∧ header.type ≠ T.type := by
  have hspec := nextHeader_spec T st
  rw [h] at hspec
  exact hspec

theorem nextHeader_awaited (h : nextHeader T st = .awaited header st') :
    HeaderRead st header st' ∧ header.type = T.type := by
  have hspec := nextHeader_spec T st
  rw [h] at hspec
  exact hspec

end

/-! ## Requests -/

/-- Every read fits the buffer. -/
def InBounds (st : RecvCall) : Prop := ∀ n ∈ st.requests, n ≤ bufferSize

def AllHeaders (ok : RequestResponseHeader → Prop) (st : RecvCall) : Prop :=
  ∀ header ∈ st.headers, ok header

/-- The awaited packet is one: its size counts the header. -/
def AwaitedFits (T : PacketType) (header : RequestResponseHeader) : Prop :=
  header.type = T.type → RequestResponseHeader.layout.width ≤ header.size

/-- Every packet is one, and its body fits the buffer. -/
def BodyFits (header : RequestResponseHeader) : Prop :=
  header.type ≠ END_RESPONSE_TYPE → RequestResponseHeader.layout.width ≤ header.size ∧
    header.size ≤ RequestResponseHeader.layout.width + bufferSize

theorem toUnsigned_remainingSize_le (header : RequestResponseHeader) :
    toUnsigned (remainingSize header) ≤ bufferSize ↔
      RequestResponseHeader.layout.width ≤ header.size ∧
        header.size ≤ RequestResponseHeader.layout.width + bufferSize := by
  obtain ⟨hpos, hmax⟩ := header.size_bounds
  have hwidth : RequestResponseHeader.layout.width = 8 := rfl
  rw [INT32_MAX] at hmax
  rw [remainingSize_eq, hwidth, bufferSize]
  rcases Nat.lt_or_ge header.size 8 with hlt | hge
  · have hlarge := toUnsigned_of_neg (v := header.size - 8) (by omega) (by omega)
    constructor <;> omega
  · rw [toUnsigned_of_nonneg (by omega) (by omega)]
    omega

theorem inBounds_receiveBody (st : RecvCall) (remainingSize : Int) :
    InBounds (st.receiveBody remainingSize).2 ↔
      InBounds st ∧ toUnsigned remainingSize ≤ bufferSize := by
  simp only [InBounds, RecvCall.receiveBody, List.forall_mem_append, List.forall_mem_singleton]

theorem skipBody_inBounds : ∀ (rounds : Nat) (remainingSize : Int) (st : RecvCall),
    (InBounds (skipBody rounds remainingSize st).2 ↔ InBounds st) ∧
      (skipBody rounds remainingSize st).2.headers = st.headers
  | 0, _, _ => ⟨Iff.rfl, rfl⟩
  | rounds + 1, remainingSize, st => by
      simp only [skipBody]
      split
      next hpos =>
        have hchunk : toUnsigned (if remainingSize < bufferSize then remainingSize else bufferSize)
            ≤ bufferSize := by
          rw [bufferSize]
          split
          next hlt => rw [toUnsigned_of_nonneg (by omega) (by omega)]; omega
          next => decide
        have hbody := inBounds_receiveBody st
          (if remainingSize < bufferSize then remainingSize else bufferSize)
        rw [and_iff_left hchunk] at hbody
        rcases hread : st.receiveBody
          (if remainingSize < bufferSize then remainingSize else bufferSize) with ⟨_ | body, st'⟩
        · rw [hread] at hbody
          exact ⟨hbody, (congrArg (fun r => r.2.headers) hread).symm⟩
        · rw [hread] at hbody
          obtain ⟨hrest, hheaders⟩ := skipBody_inBounds rounds (remainingSize
            - if remainingSize < bufferSize then remainingSize else bufferSize) st'
          exact ⟨hrest.trans hbody,
            hheaders.trans (congrArg (fun r => r.2.headers) hread).symm⟩
      next => exact ⟨Iff.rfl, rfl⟩

theorem HeaderRead.ghosts {st st' : RecvCall} {header : RequestResponseHeader}
    (h : HeaderRead st header st') (ok : RequestResponseHeader → Prop) :
    (InBounds st' ↔ InBounds st) ∧ (AllHeaders ok st' ↔ AllHeaders ok st ∧ ok header) := by
  rw [← h.after]
  refine ⟨Iff.rfl, ?_⟩
  simp only [AllHeaders, RecvCall.record, List.forall_mem_append, List.forall_mem_singleton]
  rfl

section
variable (T : PacketType)

theorem receiveResult_inBounds (header : RequestResponseHeader) (st : RecvCall) :
    (InBounds (receiveResult T header st).call ↔
        InBounds st ∧ RequestResponseHeader.layout.width ≤ header.size) ∧
      (receiveResult T header st).call.headers = st.headers := by
  have hsize := remainingSize_eq header
  have hwidth : RequestResponseHeader.layout.width = 8 := rfl
  unfold receiveResult
  split
  next hne =>
    split
    next hlarge =>
      refine ⟨(and_iff_left ?_).symm, rfl⟩
      rw [bufferSize] at hlarge
      omega
    next hfits =>
      have hbody := inBounds_receiveBody st (remainingSize header)
      rw [toUnsigned_remainingSize_le] at hbody
      have hbound : header.size ≤ RequestResponseHeader.layout.width + bufferSize := by omega
      rw [and_iff_left hbound] at hbody
      split
      next st' hread =>
        rw [hread] at hbody
        exact ⟨hbody, (congrArg (fun r => r.2.headers) hread).symm⟩
      next body st' hread =>
        rw [hread] at hbody
        exact ⟨hbody, (congrArg (fun r => r.2.headers) hread).symm⟩
  next heq =>
    refine ⟨(and_iff_left ?_).symm, rfl⟩
    omega

theorem receivePacketLoop_inBounds (left : Nat) (st : RecvCall)
    (h : InBounds st ↔ AllHeaders (AwaitedFits T) st) :
    InBounds (receivePacketLoop T left st).call ↔
      AllHeaders (AwaitedFits T) (receivePacketLoop T left st).call := by
  have hforeign : ∀ {st st' header}, HeaderRead st header st' → header.type ≠ T.type →
      (InBounds st ↔ AllHeaders (AwaitedFits T) st) →
      (InBounds st' ↔ AllHeaders (AwaitedFits T) st') := by
    intro st st' header hread htype h
    obtain ⟨hbounds, hheaders⟩ := hread.ghosts (AwaitedFits T)
    have hfits : AwaitedFits T header := fun heq => absurd heq htype
    rw [and_iff_left hfits] at hheaders
    exact (hbounds.trans h).trans hheaders.symm
  have hskip : ∀ (header : RequestResponseHeader) (st : RecvCall),
      (InBounds st ↔ AllHeaders (AwaitedFits T) st) →
      (InBounds (skipPacket header st).2 ↔ AllHeaders (AwaitedFits T) (skipPacket header st).2) := by
    intro header st h
    obtain ⟨hbounds, hheaders⟩ :=
      skipBody_inBounds (remainingSize header).toNat (remainingSize header) st
    rw [skipPacket, AllHeaders, hheaders, hbounds]
    exact h
  fun_induction receivePacketLoop T left st with
  | case1 left st bytes st' hnext =>
      obtain ⟨⟨-, hst⟩, -⟩ := nextHeader_short hnext
      rw [RecvCall.nothing_call, ← hst]
      exact h
  | case2 left st st' hnext =>
      obtain ⟨header, hread, hend⟩ := nextHeader_endResponse hnext
      exact hforeign hread (fun heq => T.ne_end (heq ▸ hend)) h
  | case3 st header st' hnext =>
      obtain ⟨hread, -, htype⟩ := nextHeader_foreign hnext
      exact hforeign hread htype h
  | case4 st header st' hnext left hskipped ih =>
      obtain ⟨hread, -, htype⟩ := nextHeader_foreign hnext
      exact ih (hskip header st' (hforeign hread htype h))
  | case5 st header st' hnext left hskipped =>
      obtain ⟨hread, -, htype⟩ := nextHeader_foreign hnext
      rw [RecvCall.nothing_call]
      exact hskip header st' (hforeign hread htype h)
  | case6 left st header st' hnext =>
      obtain ⟨hread, htype⟩ := nextHeader_awaited hnext
      obtain ⟨hbounds, hheaders⟩ := hread.ghosts (AwaitedFits T)
      obtain ⟨hresult, hsame⟩ := receiveResult_inBounds T header st'
      have hfits : AwaitedFits T header ↔ RequestResponseHeader.layout.width ≤ header.size :=
        ⟨fun hfit => hfit htype, fun hle _ => hle⟩
      calc InBounds (receiveResult T header st').call
          ↔ InBounds st' ∧ RequestResponseHeader.layout.width ≤ header.size := hresult
        _ ↔ AllHeaders (AwaitedFits T) st ∧ AwaitedFits T header :=
            and_congr (hbounds.trans h) hfits.symm
        _ ↔ AllHeaders (AwaitedFits T) st' := hheaders.symm
        _ ↔ AllHeaders (AwaitedFits T) (receiveResult T header st').call := by
            unfold AllHeaders
            rw [hsame]

theorem receiveBody_inBounds {header : RequestResponseHeader} {st st' : RecvCall}
    (hread : HeaderRead st header st') (htype : header.type ≠ END_RESPONSE_TYPE)
    (h : InBounds st ↔ AllHeaders BodyFits st) :
    InBounds (st'.receiveBody (remainingSize header)).2 ↔
      AllHeaders BodyFits (st'.receiveBody (remainingSize header)).2 := by
  obtain ⟨hbounds, hheaders⟩ := hread.ghosts BodyFits
  calc InBounds (st'.receiveBody (remainingSize header)).2
      ↔ InBounds st' ∧ RequestResponseHeader.layout.width ≤ header.size ∧
          header.size ≤ RequestResponseHeader.layout.width + bufferSize := by
        rw [inBounds_receiveBody, toUnsigned_remainingSize_le]
    _ ↔ AllHeaders BodyFits st ∧ BodyFits header :=
        and_congr (hbounds.trans h) ⟨fun hfits _ => hfits, fun hfits => hfits htype⟩
    _ ↔ AllHeaders BodyFits st' := hheaders.symm

theorem extraDataLoop_inBounds (rounds : Nat) (st : RecvCall)
    (h : InBounds st ↔ AllHeaders BodyFits st) :
    InBounds (extraDataLoop T rounds st).call ↔
      AllHeaders BodyFits (extraDataLoop T rounds st).call := by
  fun_induction extraDataLoop T rounds st with
  | case1 st => exact h
  | case2 rounds st bytes st' hnext =>
      obtain ⟨⟨-, hst⟩, -⟩ := nextHeader_short hnext
      rw [RecvCall.failed_call, ← hst]
      exact h
  | case3 rounds st st' hnext =>
      obtain ⟨header, hread, hend⟩ := nextHeader_endResponse hnext
      obtain ⟨hbounds, hheaders⟩ := hread.ghosts BodyFits
      have hfits : BodyFits header := fun hne => absurd hend hne
      rw [and_iff_left hfits] at hheaders
      exact (hbounds.trans h).trans hheaders.symm
  | case4 rounds st header st' hnext st'' hbody =>
      obtain ⟨hread, hend, -⟩ := nextHeader_foreign hnext
      have hafter := receiveBody_inBounds hread hend h
      rw [hbody] at hafter
      exact hafter
  | case5 rounds st header st' hnext body st'' hbody ih =>
      obtain ⟨hread, hend, -⟩ := nextHeader_foreign hnext
      have hafter := receiveBody_inBounds hread hend h
      rw [hbody] at hafter
      exact ih hafter
  | case6 rounds st header st' hnext =>
      obtain ⟨hread, htype⟩ := nextHeader_awaited hnext
      have hafter := receiveBody_inBounds hread (htype ▸ T.ne_end) h
      unfold receiveExtraData
      split
      next =>
        split
        next hbody => rw [hbody] at hafter; exact hafter
        next hbody => rw [hbody] at hafter; exact hafter
      next hzero =>
        -- no body and no request
        obtain ⟨hbounds, hheaders⟩ := hread.ghosts BodyFits
        have hfits : BodyFits header := by
          have hsize := remainingSize_eq header
          have hwidth : RequestResponseHeader.layout.width = 8 := rfl
          rw [BodyFits, hwidth, bufferSize]
          omega
        rw [and_iff_left hfits] at hheaders
        exact (hbounds.trans h).trans hheaders.symm

theorem extraDataLoop_rounds : ∀ (rounds : Nat) (st : RecvCall),
    st.conn.source.reads.length ≤ rounds →
    extraDataLoop T (rounds + 1) st = extraDataLoop T rounds st
  | 0, st, h => by
      have hreads : st.conn.source.reads = [] := List.length_eq_zero_iff.mp (Nat.le_zero.mp h)
      have hnothing : st.receiveHeader = ([], st) := by
        unfold RecvCall.receiveHeader Connection.receiveResponse Source.read
        rw [hreads]
        split <;> rfl
      have hshort : nextHeader T st = .short [] st := by
        unfold nextHeader
        rw [hnothing]
        rfl
      unfold extraDataLoop
      rw [hshort]
      rfl
  | rounds + 1, st, h => by
      rw [extraDataLoop, extraDataLoop]
      cases hnext : nextHeader T st with
      | foreign header st' =>
          have hfewer := (nextHeader_foreign hnext).1.reads
          have hbody := st'.reads_receiveBody (remainingSize header)
          rcases hread : st'.receiveBody (remainingSize header) with ⟨_ | body, st''⟩
          · simp only [hread]
          · rw [hread] at hbody
            rw [← hfewer] at h
            simp only [hread]
            exact extraDataLoop_rounds rounds st'' (hbody.trans (Nat.le_of_succ_le_succ h))
      | _ => rfl

end

/-- **Reads of the peer's sizes.**  On any connection, every read of
`receivePacketWithHeaderAs` fits the buffer exactly when the awaited packet's
size counts its header, and every read of `receivePacketAndExtraDataWithHeaderAs`
exactly when the size of every packet does and leaves no larger body. -/
theorem requestsInBounds_iff (T : PacketType) (conn : Connection) :
    (InBounds (receivePacketWithHeaderAs T conn).call ↔
      AllHeaders (AwaitedFits T) (receivePacketWithHeaderAs T conn).call) ∧
    (InBounds (receivePacketAndExtraDataWithHeaderAs T conn).call ↔
      AllHeaders BodyFits (receivePacketAndExtraDataWithHeaderAs T conn).call) := by
  have hstart : ∀ ok, InBounds (.start conn) ↔ AllHeaders ok (.start conn) :=
    fun _ => ⟨fun _ _ hheader => absurd hheader List.not_mem_nil,
      fun _ _ hn => absurd hn List.not_mem_nil⟩
  exact ⟨receivePacketLoop_inBounds T _ _ (hstart _), extraDataLoop_inBounds T _ _ (hstart _)⟩

/-- An awaited packet of 3 bytes, and another packet with a body of 8192. -/
theorem largeRead_requested :
    (receivePacketWithHeaderAs ExchangePublicPeers
        ⟨true, [3, 0, 0, 0, 0, 0, 0, 0], [8]⟩).call.requests = [2 ^ 32 - 5] ∧
    (receivePacketAndExtraDataWithHeaderAs CustomQubicMiningTask.packetType
        ⟨true, [8, 32, 0, 1, 0, 0, 0, 0], [8]⟩).call.requests = [8192] ∧
    ¬ ((∀ T conn, InBounds (receivePacketWithHeaderAs T conn).call) ∨
      ∀ T conn, InBounds (receivePacketAndExtraDataWithHeaderAs T conn).call) := by
  have hfirst : (receivePacketWithHeaderAs ExchangePublicPeers
      ⟨true, [3, 0, 0, 0, 0, 0, 0, 0], [8]⟩).call.requests = [2 ^ 32 - 5] := by decide
  have hsecond : (receivePacketAndExtraDataWithHeaderAs CustomQubicMiningTask.packetType
      ⟨true, [8, 32, 0, 1, 0, 0, 0, 0], [8]⟩).call.requests = [8192] := by decide
  refine ⟨hfirst, hsecond, ?_⟩
  rintro (h | h)
  · have hbound := h ExchangePublicPeers ⟨true, [3, 0, 0, 0, 0, 0, 0, 0], [8]⟩ (2 ^ 32 - 5)
      (hfirst ▸ List.mem_singleton.mpr rfl)
    exact absurd hbound (by decide)
  · have hbound := h CustomQubicMiningTask.packetType ⟨true, [8, 32, 0, 1, 0, 0, 0, 0], [8]⟩ 8192
      (hsecond ▸ List.mem_singleton.mpr rfl)
    exact absurd hbound (by decide)

end DogeConnect
