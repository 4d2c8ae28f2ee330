/-
`qubic_recv_thread.cpp`, the receiving side: from reads to solutions.

Each peer has a stream buffer.  A read is appended to it and
`processRecvBuffer` takes complete packets off its front, by a position that is
a 32-bit `unsigned int` in a loop that leaves early in three ways: the header
is incomplete, the header is broken, the body is incomplete.

What the loop computes is a `Framer`; the only thing to show about the code is
that on buffers that can occur the loop *is* the framer's `drain`, with no
wrap-around, and then the reassembly does not depend on the reads.

    recvLoop_eq        one call is one drain, and its sums stay below 2^32
    receiveReads_eq    any sequence of reads is one drain of their concatenation
    receiveReads_packets   for a stream of packets: exactly the packets, in order

The handler of a packet is a parameter, so that the result holds of
`processSolution` and equally of the list of its calls.
-/
import DogeConnect.Structs
import DogeConnect.Concurrency
import DogeConnect.Lib.Framing

namespace DogeConnect

/-! ## `processSolution` -/

/-- The only size a solution packet can have. -/
def requiredSize : Nat :=
  RequestResponseHeader.layout.width + CustomQubicMiningSolution.layout.width
    + QubicDogeMiningSolution.layout.width + SIGNATURE_SIZE

section
variable (kangarooTwelve : List UInt8 → ByteArr 32)
  (verify : ByteArr 32 → ByteArr 32 → List UInt8 → Bool)

/-- The solution in a packet, if every check passes. -/
def readSolution (recvData : List UInt8) : Option DispatcherMiningSolution :=
  if recvData.length ≠ requiredSize then none else
  let header := RequestResponseHeader.layout.read recvData
  if header.type ≠ CustomQubicMiningSolution.type then none else
  let payload := recvData.drop RequestResponseHeader.layout.width
  let qubicSol := CustomQubicMiningSolution.layout.read payload
  if qubicSol.customMiningType ≠ DOGE then none else
  -- the signature covers what stands between the header and itself
  let messageSize := payload.length
  let digest := kangarooTwelve (payload.take (messageSize - SIGNATURE_SIZE))
  if verify qubicSol.sourcePublicKey digest (payload.drop (messageSize - SIGNATURE_SIZE)) = false then
    none
  else
    let dogeSol := QubicDogeMiningSolution.layout.read
      (payload.drop CustomQubicMiningSolution.layout.width)
    some {
      jobId := qubicSol.jobId
      nTime := dogeSol.nTime
      nonce := dogeSol.nonce
      merkleRoot := dogeSol.merkleRoot
      extraNonce2 := dogeSol.extraNonce2
      sourcePublicKey := qubicSol.sourcePublicKey }

def processSolution (recvData : List UInt8) (queue : ConcurrentQueue DispatcherMiningSolution) :
    ConcurrentQueue DispatcherMiningSolution :=
  match readSolution kangarooTwelve verify recvData with
  | none => queue
  | some dispSol => queue.push dispSol

/-- The body of the packet loop around `processSolution`. -/
def handlePacket (st : ConcurrentQueue DispatcherMiningSolution × PeerStats)
    (recvData : List UInt8) : ConcurrentQueue DispatcherMiningSolution × PeerStats :=
  let ps := { st.2 with packetsReceived := st.2.packetsReceived + 1 }
  let queue := processSolution kangarooTwelve verify recvData st.1
  (queue, if queue.size > st.1.size then { ps with solutionsReceived := ps.solutionsReceived + 1 }
    else ps)

/-- What a stream of packets leaves: the solutions in it, each counted. -/
theorem foldl_handlePacket : ∀ (packets : List (List UInt8))
    (st : ConcurrentQueue DispatcherMiningSolution × PeerStats),
    packets.foldl (handlePacket kangarooTwelve verify) st =
      (⟨st.1.items ++ packets.filterMap (readSolution kangarooTwelve verify)⟩,
        { st.2 with
          packetsReceived := st.2.packetsReceived + packets.length
          solutionsReceived := st.2.solutionsReceived
            + (packets.filterMap (readSolution kangarooTwelve verify)).length })
  | [], st => by simp
  | p :: ps, st => by
      rw [List.foldl_cons, foldl_handlePacket ps]
      cases h : readSolution kangarooTwelve verify p with
      | none =>
          simp [handlePacket, processSolution, h, Nat.add_comm, Nat.add_left_comm]
      | some sol =>
          simp [handlePacket, processSolution, h, ConcurrentQueue.push, ConcurrentQueue.size,
            Nat.add_comm, Nat.add_left_comm]

end

/-! ## `processRecvBuffer` -/

/-- The sanity bound on a header's size field. -/
def maxPacketSize : Nat := 10 * 1024 * 1024

/-- `readBuf.size()`, the most one read returns. -/
def readBufSize : Nat := 4096

/-- `header->size()` of the header at the front. -/
def headerSize (buf : List UInt8) : Nat := (RequestResponseHeader.layout.read buf).size

/-- One pass of `processRecvBuffer`. -/
structure RecvResult (σ : Type) where
  state : σ
  buffer : List UInt8
  /-- The operands of every `pos + packetSize`. -/
  sums : List (Nat × Nat)

section
variable {σ : Type} (onPacket : σ → List UInt8 → σ)

/-- The loop, from a position and with what is done so far; `none` when the
fuel runs out.  `pos + packetSize` is a sum of two `unsigned int`s. -/
def recvLoop (buf : List UInt8) : Nat → Nat → σ → List (Nat × Nat) → Option (RecvResult σ)
  | 0, _, _, _ => none
  | fuel + 1, pos, s, sums =>
      if pos + RequestResponseHeader.layout.width ≤ buf.length then
        let packetSize := headerSize (buf.drop pos)
        if packetSize < RequestResponseHeader.layout.width ∨ packetSize > maxPacketSize then
          some ⟨s, [], sums⟩
        else if (pos + packetSize) % 2 ^ 32 > buf.length then
          some ⟨s, buf.drop pos, sums ++ [(pos, packetSize)]⟩
        else
          recvLoop buf fuel ((pos + packetSize) % 2 ^ 32)
            (onPacket s ((buf.drop pos).take packetSize)) (sums ++ [(pos, packetSize)])
      else some ⟨s, buf.drop pos, sums⟩

/-- Each round but the last consumes at least a byte. -/
def processRecvBuffer (buf : List UInt8) (s : σ) : Option (RecvResult σ) :=
  recvLoop onPacket buf (buf.length + 1) 0 s []

/-- One read of `qubicReceiveLoop`: append, then take packets. -/
def receiveRead (r : RecvResult σ) (chunk : List UInt8) : Option (RecvResult σ) :=
  (processRecvBuffer onPacket (r.buffer ++ chunk) r.state).map fun r' =>
    { r' with sums := r.sums ++ r'.sums }

/-- All reads of a connection, from an empty buffer. -/
def receiveReads (s : σ) (reads : List (List UInt8)) : Option (RecvResult σ) :=
  reads.foldlM (receiveRead onPacket) ⟨s, [], []⟩

end

/-! ## The framer -/

/-- A header the loop accepts stands at the front. -/
def GoodHeader (buf : List UInt8) : Prop :=
  RequestResponseHeader.layout.width ≤ headerSize buf ∧ headerSize buf ≤ maxPacketSize

instance (buf : List UInt8) : Decidable (GoodHeader buf) :=
  inferInstanceAs (Decidable (_ ∧ _))

theorem headerSize_append {buf : List UInt8} (more : List UInt8)
    (h : RequestResponseHeader.layout.width ≤ buf.length) :
    headerSize (buf ++ more) = headerSize buf := by
  rw [headerSize, RequestResponseHeader.layout.read_append buf more h]
  rfl

theorem goodHeader_append {buf : List UInt8} (more : List UInt8)
    (h : RequestResponseHeader.layout.width ≤ buf.length) :
    GoodHeader (buf ++ more) ↔ GoodHeader buf := by
  rw [GoodHeader, headerSize_append more h]
  rfl

/-- The frames of the Qubic stream: a good header and the bytes it declares. -/
def packetFramer : Framer UInt8 where
  next buf :=
    if RequestResponseHeader.layout.width ≤ buf.length ∧ GoodHeader buf
      ∧ headerSize buf ≤ buf.length then some (headerSize buf) else none
  next_pos := by
    intro buf n h
    split at h
    next hb =>
      cases h
      exact lt_of_lt_of_le (by decide) hb.2.1.1
    next => cases h
  next_le := by
    intro buf n h
    split at h
    next hb => cases h; exact hb.2.2
    next => cases h
  next_append := by
    intro buf n more h
    split at h
    next hb =>
      cases h
      rw [if_pos, headerSize_append more hb.1]
      rw [goodHeader_append more hb.1, headerSize_append more hb.1, List.length_append]
      exact ⟨by omega, hb.2.1, by omega⟩
    next => cases h

theorem next_packet {buf : List UInt8} {n : Nat} (h : packetFramer.next buf = some n) :
    RequestResponseHeader.layout.width ≤ buf.length ∧ GoodHeader buf ∧ headerSize buf = n ∧
      n ≤ buf.length := by
  simp only [packetFramer] at h
  split at h
  next hb => cases h; exact ⟨hb.1, hb.2.1, rfl, hb.2.2⟩
  next => cases h

/-- A header, if there is one, is good: what `processRecvBuffer` must find in
front of it when it has taken every packet. -/
def GoodRest (rest : List UInt8) : Prop :=
  RequestResponseHeader.layout.width ≤ rest.length → GoodHeader rest

/-- With no packet at the front, what is there is shorter than the size its
header declares. -/
theorem rest_short {rest : List UInt8} (hnext : packetFramer.next rest = none)
    (hgood : GoodRest rest) :
    rest.length < RequestResponseHeader.layout.width
      ∨ (GoodHeader rest ∧ rest.length < headerSize rest) := by
  by_cases hlen : RequestResponseHeader.layout.width ≤ rest.length
  · refine .inr ⟨hgood hlen, ?_⟩
    by_contra hfull
    simp only [packetFramer] at hnext
    rw [if_pos ⟨hlen, hgood hlen, by omega⟩] at hnext
    cases hnext
  · exact .inl (by omega)

theorem rest_lt_maxPacketSize {rest : List UInt8} (hnext : packetFramer.next rest = none)
    (hgood : GoodRest rest) : rest.length < maxPacketSize := by
  rcases rest_short hnext hgood with h | ⟨⟨-, hmax⟩, h⟩
  · exact h.trans (by decide)
  · omega

/-! ## The loop drains -/

section
variable {σ : Type} (onPacket : σ → List UInt8 → σ)

/-- No sum of two `unsigned int`s left 32 bits. -/
def NoWrap (sums : List (Nat × Nat)) : Prop := ∀ x ∈ sums, x.1 + x.2 < 2 ^ 32

theorem recvLoop_eq {buf : List UInt8} (hsmall : buf.length + maxPacketSize < 2 ^ 32) :
    ∀ (fuel pos : Nat) (s : σ) (sums : List (Nat × Nat)), pos ≤ buf.length →
      buf.length - pos < fuel → GoodRest (packetFramer.drain (buf.drop pos)).2 →
      ∃ more, recvLoop onPacket buf fuel pos s sums
          = some ⟨(packetFramer.drain (buf.drop pos)).1.foldl onPacket s,
              (packetFramer.drain (buf.drop pos)).2, sums ++ more⟩ ∧ NoWrap more
  | 0, _, _, _, _, hfuel, _ => absurd hfuel (Nat.not_lt_zero _)
  | fuel + 1, pos, s, sums, hpos, hfuel, hgood => by
      have hlen : (buf.drop pos).length = buf.length - pos := List.length_drop
      cases hnext : packetFramer.next (buf.drop pos) with
      | some n =>
          obtain ⟨hheader, hok, hn, hle⟩ := next_packet hnext
          have hpositive := packetFramer.next_pos hnext
          have hmax : n ≤ maxPacketSize := hn ▸ hok.2
          have hsum : (pos + n) % 2 ^ 32 = pos + n := Nat.mod_eq_of_lt (by omega)
          rw [packetFramer.drain_some hnext, List.drop_drop] at hgood ⊢
          obtain ⟨more, hrec, hmore⟩ := recvLoop_eq hsmall fuel (pos + n)
            (onPacket s ((buf.drop pos).take n)) (sums ++ [(pos, n)]) (by omega) (by omega) hgood
          refine ⟨(pos, n) :: more, ?_, ?_⟩
          · rw [recvLoop, if_pos (by omega)]
            simp only [hn, hsum]
            rw [if_neg (by have := hok.1; omega), if_neg (by omega), hrec, List.append_assoc]
            rfl
          · intro x hx
            rcases List.mem_cons.mp hx with rfl | hx
            · dsimp only
              omega
            · exact hmore x hx
      | none =>
          rw [packetFramer.drain_none hnext] at hgood ⊢
          rcases rest_short hnext hgood with hshort | ⟨hok, hshort⟩
          · exact ⟨[], by rw [recvLoop, if_neg (by omega), List.append_nil]; rfl,
              fun x hx => absurd hx List.not_mem_nil⟩
          · have hmax := hok.2
            have hsum : (pos + headerSize (buf.drop pos)) % 2 ^ 32
                = pos + headerSize (buf.drop pos) := Nat.mod_eq_of_lt (by omega)
            by_cases hheader : pos + RequestResponseHeader.layout.width ≤ buf.length
            · refine ⟨[(pos, headerSize (buf.drop pos))], ?_, ?_⟩
              · rw [recvLoop, if_pos hheader]
                simp only [hsum]
                rw [if_neg (by have := hok.1; omega), if_pos (by omega)]
                rfl
              · intro x hx
                rw [List.mem_singleton.mp hx]
                dsimp only
                omega
            · exact ⟨[], by rw [recvLoop, if_neg hheader, List.append_nil]; rfl,
                fun x hx => absurd hx List.not_mem_nil⟩

/-- The loop returns whatever stands in the buffer, broken headers included,
and leaves less than the largest packet. -/
theorem recvLoop_returns {buf : List UInt8} (hsmall : buf.length + maxPacketSize < 2 ^ 32) :
    ∀ (fuel pos : Nat) (s : σ) (sums : List (Nat × Nat)), pos ≤ buf.length →
      buf.length - pos < fuel →
      ∃ r, recvLoop onPacket buf fuel pos s sums = some r ∧ r.buffer.length < maxPacketSize
  | 0, _, _, _, _, hfuel => absurd hfuel (Nat.not_lt_zero _)
  | fuel + 1, pos, s, sums, hpos, hfuel => by
      have hlen : (buf.drop pos).length = buf.length - pos := List.length_drop
      rw [recvLoop]
      split
      next hheader =>
        dsimp only
        split
        next => exact ⟨_, rfl, by simp [maxPacketSize]⟩
        next hgood =>
          rw [not_or, Nat.not_lt, Nat.not_lt] at hgood
          obtain ⟨hmin, hmax⟩ := hgood
          have hpositive : 0 < headerSize (buf.drop pos) := lt_of_lt_of_le (by decide) hmin
          rw [Nat.mod_eq_of_lt (by omega)]
          split
          next => exact ⟨_, rfl, by dsimp only; omega⟩
          next => exact recvLoop_returns hsmall fuel _ _ _ (by omega) (by omega)
      next hheader =>
        have hwidth : RequestResponseHeader.layout.width ≤ maxPacketSize := by decide
        exact ⟨_, rfl, by dsimp only; omega⟩

theorem processRecvBuffer_returns {buf : List UInt8}
    (hsmall : buf.length < maxPacketSize + readBufSize) (s : σ) :
    ∃ r, processRecvBuffer onPacket buf s = some r ∧ r.buffer.length < maxPacketSize := by
  have hwrap : buf.length + maxPacketSize < 2 ^ 32 := by
    simp only [maxPacketSize, readBufSize] at hsmall ⊢
    omega
  exact recvLoop_returns onPacket hwrap _ 0 s [] (Nat.zero_le _) (by omega)

/-- A sequence of reads drains the concatenation of what it brings. -/
theorem receiveReads_eq : ∀ (reads : List (List UInt8)) (r : RecvResult σ),
    packetFramer.next r.buffer = none → NoWrap r.sums →
    (∀ c ∈ reads, c.length ≤ readBufSize) →
    (∀ pre post, reads = pre ++ post →
      GoodRest (packetFramer.drain (r.buffer ++ pre.flatten)).2) →
    ∃ r', reads.foldlM (receiveRead onPacket) r = some r' ∧
      r'.state = (packetFramer.drain (r.buffer ++ reads.flatten)).1.foldl onPacket r.state ∧
      r'.buffer = (packetFramer.drain (r.buffer ++ reads.flatten)).2 ∧ NoWrap r'.sums
  | [], r, hnext, hwrap, _, _ => by
      refine ⟨r, rfl, ?_⟩
      simp only [List.flatten_nil, List.append_nil, packetFramer.drain_none hnext, List.foldl_nil]
      exact ⟨trivial, trivial, hwrap⟩
  | c :: cs, r, hnext, hwrap, hsize, hgood => by
      have hrest : GoodRest r.buffer := by
        simpa [packetFramer.drain_none hnext] using hgood [] (c :: cs) rfl
      have hlen := rest_lt_maxPacketSize hnext hrest
      have hc := hsize c List.mem_cons_self
      have hsmall : (r.buffer ++ c).length + maxPacketSize < 2 ^ 32 := by
        rw [List.length_append]
        simp only [maxPacketSize, readBufSize] at hlen hc ⊢
        omega
      have hfirst : GoodRest (packetFramer.drain (r.buffer ++ c)).2 := by
        simpa using hgood [c] cs rfl
      obtain ⟨more, hloop, hmore⟩ := recvLoop_eq onPacket hsmall ((r.buffer ++ c).length + 1) 0
        r.state [] (Nat.zero_le _) (by omega) hfirst
      rw [List.drop_zero, List.nil_append] at hloop
      have hwrap' : NoWrap (r.sums ++ more) := by
        intro x hx
        rcases List.mem_append.mp hx with hx | hx
        · exact hwrap x hx
        · exact hmore x hx
      have hread : receiveRead onPacket r c
          = some ⟨(packetFramer.drain (r.buffer ++ c)).1.foldl onPacket r.state,
              (packetFramer.drain (r.buffer ++ c)).2, r.sums ++ more⟩ := by
        rw [receiveRead, processRecvBuffer, hloop]
        rfl
      -- the later reads start from what this one left
      have hlater : ∀ pre post, cs = pre ++ post →
          GoodRest (packetFramer.drain
            ((packetFramer.drain (r.buffer ++ c)).2 ++ pre.flatten)).2 := by
        intro pre post hcs
        have := hgood (c :: pre) post (by rw [hcs]; rfl)
        rwa [List.flatten_cons, ← List.append_assoc, packetFramer.drain_append] at this
      obtain ⟨r', hrun, hstate, hbuffer, hwrap''⟩ := receiveReads_eq cs
        ⟨_, (packetFramer.drain (r.buffer ++ c)).2, r.sums ++ more⟩ (packetFramer.drain_rest _)
        hwrap' (fun d hd => hsize d (List.mem_cons_of_mem _ hd)) hlater
      refine ⟨r', ?_, ?_, ?_, hwrap''⟩
      · rw [List.foldlM_cons, hread]
        exact hrun
      · rw [hstate, List.flatten_cons, ← List.append_assoc, packetFramer.drain_append (r.buffer ++ c),
          List.foldl_append]
      · rw [hbuffer, List.flatten_cons, ← List.append_assoc, packetFramer.drain_append (r.buffer ++ c)]

/-! ## A stream of packets -/

/-- A whole packet: its size field is in range and is its length. -/
def IsPacket (p : List UInt8) : Prop :=
  RequestResponseHeader.layout.width ≤ p.length ∧ p.length ≤ maxPacketSize ∧
    headerSize p = p.length

/-- The beginning of a packet, the empty one included. -/
def IncompletePacket (tail : List UInt8) : Prop :=
  tail.length < RequestResponseHeader.layout.width
    ∨ (GoodHeader tail ∧ tail.length < headerSize tail)

theorem next_of_isPacket {p : List UInt8} (h : IsPacket p) : packetFramer.next p = some p.length := by
  obtain ⟨hmin, hmax, hsize⟩ := h
  simp only [packetFramer, GoodHeader, hsize]
  rw [if_pos ⟨hmin, ⟨hmin, hmax⟩, le_rfl⟩]

theorem next_of_incomplete {tail : List UInt8} (h : IncompletePacket tail) :
    packetFramer.next tail = none := by
  simp only [packetFramer]
  rw [if_neg]
  rintro ⟨hlen, -, hfull⟩
  rcases h with h | ⟨-, h⟩ <;> omega

/-- Every beginning of a stream of packets drains to some of them and the
beginning of a packet. -/
theorem drain_prefix {packets : List (List UInt8)} {tail pre : List UInt8} (post : List UInt8)
    (hpackets : ∀ p ∈ packets, IsPacket p) (htail : IncompletePacket tail)
    (hstream : pre ++ post = packets.flatten ++ tail) :
    (packetFramer.drain pre).1 = packets.take (packetFramer.drain pre).1.length ∧
      GoodRest (packetFramer.drain pre).2 := by
  have hwhole : packetFramer.drain (pre ++ post) = (packets, tail) := by
    rw [hstream]
    exact packetFramer.drain_flatten_append (fun p hp => next_of_isPacket (hpackets p hp))
      (next_of_incomplete htail)
  rw [packetFramer.drain_append] at hwhole
  obtain ⟨hframes, hrest⟩ := Prod.mk.inj hwhole
  constructor
  · rw [← hframes, List.take_left]
  · intro hlen
    -- the header at the front of the rest is that of the next packet, or of the tail
    rw [← goodHeader_append post hlen]
    cases hnext : packetFramer.next ((packetFramer.drain pre).2 ++ post) with
    | some n => exact (next_packet hnext).2.1
    | none =>
        rw [packetFramer.drain_none hnext] at hrest
        dsimp only at hrest
        rw [hrest]
        rcases htail with h | ⟨h, -⟩
        · rw [← hrest, List.length_append] at h
          omega
        · exact h

/-- **Reassembly does not depend on the reads.**  After any of the reads, the
packets that are complete have been handled, once each and in order, and the
buffer holds the beginning of the next one; in the end all have been handled
and the buffer holds the incomplete one.  No position wraps. -/
theorem receiveReads_packets {packets reads : List (List UInt8)} {tail : List UInt8}
    (hpackets : ∀ p ∈ packets, IsPacket p) (htail : IncompletePacket tail)
    (hreads : reads.flatten = packets.flatten ++ tail)
    (hsize : ∀ c ∈ reads, c.length ≤ readBufSize) (s : σ) :
    (∀ pre post, reads = pre ++ post → ∃ k r, receiveReads onPacket s pre = some r ∧
      r.state = (packets.take k).foldl onPacket s ∧
      pre.flatten = (packets.take k).flatten ++ r.buffer ∧
      IncompletePacket r.buffer ∧ r.buffer.length < maxPacketSize ∧ NoWrap r.sums) ∧
    ∃ r, receiveReads onPacket s reads = some r ∧ r.state = packets.foldl onPacket s ∧
      r.buffer = tail := by
  have hbegin : ∀ pre post, reads = pre ++ post →
      (packetFramer.drain pre.flatten).1 = packets.take (packetFramer.drain pre.flatten).1.length ∧
        GoodRest (packetFramer.drain pre.flatten).2 := by
    intro pre post hsplit
    refine drain_prefix post.flatten hpackets htail ?_
    rw [← hreads, hsplit, List.flatten_append]
  have hempty : packetFramer.next [] = none := next_of_incomplete (.inl (by decide))
  have hrun : ∀ pre post, reads = pre ++ post → ∃ r, receiveReads onPacket s pre = some r ∧
      r.state = (packetFramer.drain pre.flatten).1.foldl onPacket s ∧
      r.buffer = (packetFramer.drain pre.flatten).2 ∧ NoWrap r.sums := by
    intro pre post hsplit
    refine receiveReads_eq onPacket pre ⟨s, [], []⟩ hempty (fun x hx => absurd hx List.not_mem_nil)
      (fun c hc => hsize c (hsplit ▸ List.mem_append_left _ hc)) ?_
    intro pre' post' hpre
    exact (hbegin pre' (post' ++ post) (by rw [hsplit, hpre, List.append_assoc])).2
  constructor
  · intro pre post hsplit
    obtain ⟨r, hr, hstate, hbuffer, hwrap⟩ := hrun pre post hsplit
    obtain ⟨htake, hgood⟩ := hbegin pre post hsplit
    have hnext := packetFramer.drain_rest pre.flatten
    rw [← hbuffer] at hgood hnext
    refine ⟨_, r, hr, htake ▸ hstate, ?_, rest_short hnext hgood, rest_lt_maxPacketSize hnext hgood,
      hwrap⟩
    rw [← htake, hbuffer, packetFramer.drain_flatten]
  · obtain ⟨r, hr, hstate, hbuffer, -⟩ := hrun reads [] (List.append_nil _).symm
    have hwhole : packetFramer.drain reads.flatten = (packets, tail) := by
      rw [hreads]
      exact packetFramer.drain_flatten_append (fun p hp => next_of_isPacket (hpackets p hp))
        (next_of_incomplete htail)
    rw [hwhole] at hstate hbuffer
    exact ⟨r, hr, hstate, hbuffer⟩

end

/-- Two packets and two bytes of a third, cut inside a header, inside a body
and across packets. -/
theorem receiveReads_packets_cut :
    ∃ r, receiveReads (fun calls p => calls ++ [p]) ([] : List (List UInt8))
        [[9, 0], [0, 69, 0, 0, 0], [0, 42, 8, 0, 0, 1, 0, 0, 0], [0, 10, 0]] = some r ∧
      r.state = [[9, 0, 0, 69, 0, 0, 0, 0, 42], [8, 0, 0, 1, 0, 0, 0, 0]] ∧ r.buffer = [10, 0] := by
  have hpackets : ∀ p ∈ [[9, 0, 0, 69, 0, 0, 0, 0, 42], [8, 0, 0, 1, 0, 0, 0, 0]], IsPacket p := by
    simp only [IsPacket]
    decide
  have htail : IncompletePacket [10, 0] := .inl (by decide)
  exact (receiveReads_packets _ hpackets htail (by decide) (by decide) []).2

end DogeConnect
