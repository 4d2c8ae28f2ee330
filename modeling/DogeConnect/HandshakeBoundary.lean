/-
Where the handshake stops reading.

A node sends whole packets; the reads cut them as they like.  `awaitPacket` is
what a call of `receivePacketWithHeaderAs` would be if it could only take whole
packets, and fails where the call leaves one begun:

    a header of which a part has come
    an END_RESPONSE, or a fourth foreign packet, that has a body
    an awaited packet that is larger than the buffer
    a body that does not arrive

Apart from these the call is `awaitPacket`, and the stream that is left to
`processRecvBuffer` starts with a header.

    receivePacketLoop_refines    a call takes whole packets, or stops inside one
    openQubicConnection_iff      when both calls stop between packets
-/
import DogeConnect.QubicHandshake

namespace DogeConnect

/-! ## What a node sends -/

/-- A packet: its size field is its length. -/
structure NodePacket where
  bytes : List UInt8
  size_le : RequestResponseHeader.layout.width ≤ bytes.length
  size_eq : (RequestResponseHeader.layout.read bytes).sizeBytes.val = bytes.length

namespace NodePacket

variable (p : NodePacket)

def header : RequestResponseHeader := RequestResponseHeader.layout.read p.bytes

def body : List UInt8 := p.bytes.drop RequestResponseHeader.layout.width

/-- A header and no body. -/
def Bare : Prop := p.body = []

instance : Decidable p.Bare := inferInstanceAs (Decidable (p.body = []))

theorem header_size : p.header.size = p.bytes.length := by
  have hle : 8 ≤ p.bytes.length := p.size_le
  have heq : p.header.sizeBytes.val = p.bytes.length := p.size_eq
  rw [RequestResponseHeader.size_eq, heq, if_neg (by omega)]

theorem remainingSize_header : remainingSize p.header = p.body.length := by
  have hle : 8 ≤ p.bytes.length := p.size_le
  have hwidth : RequestResponseHeader.layout.width = 8 := rfl
  rw [remainingSize_eq, p.header_size, body, List.length_drop, hwidth]
  omega

theorem body_length_lt : p.body.length < 2 ^ 32 := by
  have hlt := (RequestResponseHeader.layout.read p.bytes).sizeBytes.val_lt
  rw [p.size_eq] at hlt
  rw [body, List.length_drop]
  omega

end NodePacket

def streamOf (packets : List NodePacket) : List UInt8 := (packets.map NodePacket.bytes).flatten

/-! ## Whole packets only -/

/-- A call that waits for `T`, with `left` packets that may still be skipped: the
packets and the reads it leaves. -/
def awaitPacket (T : PacketType) : Nat → List NodePacket → List Nat →
    Option (List NodePacket × List Nat)
  | _, packets, [] => some (packets, [])
  | _, [], _ :: reads => some ([], reads)
  | left, p :: packets, k :: reads =>
    if k = 0 then some (p :: packets, reads)
    else if k < RequestResponseHeader.layout.width then none
    else if p.header.type = END_RESPONSE_TYPE then
      if p.Bare then some (packets, reads) else none
    else if p.header.type ≠ T.type then
      match left with
      | 0 => if p.Bare then some (packets, reads) else none
      | left + 1 =>
        (Source.arriveEach (Source.pieces bufferSize p.body.length) reads).bind
          (awaitPacket T left packets)
    else if bufferSize < p.body.length then none
    else (Source.arrive p.body.length reads).map fun reads => (packets, reads)

theorem awaitPacket_nil (T : PacketType) (left : Nat) : ∀ (reads : List Nat),
    awaitPacket T left [] reads = some ([], reads.tail)
  | [] => by rw [awaitPacket, List.tail_nil]
  | _ :: _ => by rw [awaitPacket, List.tail_cons]

theorem awaitPacket_noReads (T : PacketType) (left : Nat) : ∀ (packets : List NodePacket),
    awaitPacket T left packets [] = some (packets, [])
  | [] => by rw [awaitPacket]
  | _ :: _ => by rw [awaitPacket]

theorem awaitPacket_begin (T : PacketType) (left : Nat) (p : NodePacket)
    (packets : List NodePacket) {k : Nat} (reads : List Nat)
    (hk : k < RequestResponseHeader.layout.width) :
    awaitPacket T left (p :: packets) (k :: reads)
      = if k = 0 then some (p :: packets, reads) else none := by
  unfold awaitPacket
  rw [if_pos hk]

theorem awaitPacket_read (T : PacketType) (left : Nat) (p : NodePacket)
    (packets : List NodePacket) {k : Nat} (reads : List Nat)
    (hk : RequestResponseHeader.layout.width ≤ k) :
    awaitPacket T left (p :: packets) (k :: reads)
      = if p.header.type = END_RESPONSE_TYPE then
          if p.Bare then some (packets, reads) else none
        else if p.header.type ≠ T.type then
          match left with
          | 0 => if p.Bare then some (packets, reads) else none
          | left + 1 =>
            (Source.arriveEach (Source.pieces bufferSize p.body.length) reads).bind
              (awaitPacket T left packets)
        else if bufferSize < p.body.length then none
        else (Source.arrive p.body.length reads).map fun reads => (packets, reads) := by
  have hzero : k ≠ 0 := by
    rintro rfl
    exact absurd hk (by decide)
  conv_lhs => unfold awaitPacket
  rw [if_neg hzero, if_neg (Nat.not_lt.mpr hk)]

/-- Both calls; a failed send leaves the second without a connection. -/
def handshakePackets (sent : Bool) (packets : List NodePacket) (reads : List Nat) :
    Option (List NodePacket × List Nat) :=
  (awaitPacket ExchangePublicPeers maxSkip packets reads).bind fun left =>
    if sent then awaitPacket RequestComputors maxSkip left.1 left.2 else some left

/-! ## One read, one body -/

/-- The connection is open, with these bytes and reads to come. -/
def RecvCall.At (st : RecvCall) (pending : List UInt8) (reads : List Nat) : Prop :=
  st.conn = ⟨true, ⟨pending, reads⟩⟩

/-- A body was begun and did not arrive. -/
def StopsInside (front back : List UInt8) (st : RecvCall) : Prop :=
  ∃ got left, front = got ++ left ∧ left ≠ [] ∧ st.conn.source.pending = left ++ back

theorem StopsInside.behind {front back : List UInt8} {st : RecvCall}
    (h : StopsInside front back st) (taken : List UInt8) :
    StopsInside (taken ++ front) back st := by
  obtain ⟨got, left, hfront, hleft, hpending⟩ := h
  exact ⟨taken ++ got, left, by rw [hfront, List.append_assoc], hleft, hpending⟩

theorem StopsInside.before {front more back : List UInt8} {st : RecvCall}
    (h : StopsInside front (more ++ back) st) : StopsInside (front ++ more) back st := by
  obtain ⟨got, left, hfront, hleft, hpending⟩ := h
  refine ⟨got, left ++ more, by rw [hfront, List.append_assoc], ?_, ?_⟩
  · exact fun hnil => hleft (List.append_eq_nil_iff.mp hnil).1
  · rw [hpending, List.append_assoc]

theorem receiveBody_spec {st : RecvCall} {front back : List UInt8} {reads : List Nat}
    (hst : st.At (front ++ back) reads) (hlt : front.length < 2 ^ 32) :
    (∃ reads', Source.arrive front.length reads = some reads' ∧
      (st.receiveBody front.length).1 = some front ∧
      (st.receiveBody front.length).2.At back reads') ∨
    (Source.arrive front.length reads = none ∧ (st.receiveBody front.length).1 = none ∧
      StopsInside front back (st.receiveBody front.length).2) := by
  have hsize : toUnsigned front.length = front.length :=
    toUnsigned_of_nonneg (Int.natCast_nonneg _) (by omega)
  have hconn : st.conn = ⟨true, ⟨front ++ back, reads⟩⟩ := hst
  simp only [RecvCall.receiveBody, Connection.receiveAllData, hsize, hconn, if_true]
  rcases Source.readAll_spec reads front back with
    ⟨reads', harrive, hread⟩ | ⟨harrive, got, left, reads', hfront, hleft, hread⟩
  · refine .inl ⟨reads', harrive, ?_⟩
    simp only [hread, if_true]
    exact ⟨trivial, rfl⟩
  · refine .inr ⟨harrive, ?_⟩
    simp only [hread]
    exact ⟨rfl, got, left, hfront, hleft, rfl⟩

theorem skipBody_zero : ∀ (rounds : Nat) (st : RecvCall), skipBody rounds 0 st = (true, st)
  | 0, _ => rfl
  | _ + 1, _ => rfl

theorem skipBody_succ (rounds : Nat) (remainingSize chunkSize : Int) (st : RecvCall)
    (hpos : 0 < remainingSize)
    (hchunk : (if remainingSize < bufferSize then remainingSize else bufferSize) = chunkSize) :
    skipBody (rounds + 1) remainingSize st
      = if (st.receiveBody chunkSize).1.isSome then
          skipBody rounds (remainingSize - chunkSize) (st.receiveBody chunkSize).2
        else (false, (st.receiveBody chunkSize).2) := by
  rw [skipBody, if_pos hpos]
  simp only [hchunk]
  rcases st.receiveBody chunkSize with ⟨_ | body, st'⟩ <;> rfl

theorem skipBody_empty (rounds : Nat) {st : RecvCall} {back : List UInt8} {reads : List Nat}
    (hst : st.At back reads) :
    Source.arriveEach (Source.pieces bufferSize 0) reads = some reads ∧
      (skipBody rounds 0 st).1 = true ∧ (skipBody rounds 0 st).2.At back reads := by
  rw [Source.pieces_of_lt (by decide), Source.arriveEach_singleton, skipBody_zero]
  exact ⟨Source.arrive_zero reads, rfl, hst⟩

theorem skipBody_spec : ∀ (rounds : Nat) (st : RecvCall) (front back : List UInt8)
    (reads : List Nat), st.At (front ++ back) reads → front.length ≤ rounds →
    front.length < 2 ^ 32 →
    (∃ reads', Source.arriveEach (Source.pieces bufferSize front.length) reads = some reads' ∧
      (skipBody rounds front.length st).1 = true ∧
      (skipBody rounds front.length st).2.At back reads') ∨
    (Source.arriveEach (Source.pieces bufferSize front.length) reads = none ∧
      (skipBody rounds front.length st).1 = false ∧
      StopsInside front back (skipBody rounds front.length st).2) := by
  intro rounds
  induction rounds with
  | zero =>
      intro st front back reads hst hrounds _
      have hnil : front = [] := List.length_eq_zero_iff.mp (Nat.le_zero.mp hrounds)
      subst hnil
      exact .inl ⟨reads, skipBody_empty 0 hst⟩
  | succ rounds ih =>
      intro st front back reads hst hrounds hlt
      rcases Nat.eq_zero_or_pos front.length with hzero | hpos
      · have hnil : front = [] := List.length_eq_zero_iff.mp hzero
        subst hnil
        exact .inl ⟨reads, skipBody_empty (rounds + 1) hst⟩
      rcases Nat.lt_or_ge front.length bufferSize with hsmall | hlarge
      · -- the last piece
        rw [skipBody_succ rounds front.length front.length st (by omega) (if_pos (by omega)),
          Source.pieces_of_lt hsmall, Source.arriveEach_singleton, Int.sub_self, skipBody_zero]
        rcases receiveBody_spec hst hlt with
          ⟨reads', harrive, hread, hat⟩ | ⟨harrive, hread, hstops⟩
        · rw [hread, Option.isSome_some, if_pos rfl]
          exact .inl ⟨reads', harrive, rfl, hat⟩
        · rw [hread, Option.isSome_none, if_neg Bool.false_ne_true]
          exact .inr ⟨harrive, rfl, hstops⟩
      · -- a whole chunk, and the rest
        obtain ⟨chunk, rest, hsplit, hchunk⟩ :
            ∃ chunk rest, front = chunk ++ rest ∧ chunk.length = bufferSize :=
          ⟨front.take bufferSize, front.drop bufferSize, (List.take_append_drop _ _).symm,
            List.length_take_of_le hlarge⟩
        have hlength : front.length = bufferSize + rest.length := by
          rw [hsplit, List.length_append, hchunk]
        have hbuffer : 0 < bufferSize := by decide
        rw [skipBody_succ rounds front.length chunk.length st (by omega)
            (by rw [if_neg (by omega), hchunk]),
          Source.pieces_of_le hbuffer hlarge, Source.arriveEach_cons]
        have hrest : (front.length : Int) - chunk.length = rest.length := by omega
        have hpieces : front.length - bufferSize = rest.length := by omega
        rw [hrest, hpieces]
        rw [hsplit, List.append_assoc] at hst
        rcases receiveBody_spec hst (by omega) with
          ⟨reads', harrive, hread, hat⟩ | ⟨harrive, hread, hstops⟩
        · rw [hchunk] at harrive
          rw [hread, Option.isSome_some, if_pos rfl, harrive, Option.bind_some]
          rcases ih _ rest back reads' hat (by omega) (by omega) with
            hdone | ⟨hnone, hfalse, hstops⟩
          · exact .inl hdone
          · exact .inr ⟨hnone, hfalse, hsplit ▸ hstops.behind chunk⟩
        · rw [hchunk] at harrive
          rw [hread, Option.isSome_none, if_neg Bool.false_ne_true, harrive, Option.bind_none]
          exact .inr ⟨rfl, rfl, hsplit ▸ hstops.before⟩

theorem skipPacket_spec {p : NodePacket} {st : RecvCall} {back : List UInt8} {reads : List Nat}
    (hst : st.At (p.body ++ back) reads) :
    (∃ reads', Source.arriveEach (Source.pieces bufferSize p.body.length) reads = some reads' ∧
      (skipPacket p.header st).1 = true ∧ (skipPacket p.header st).2.At back reads') ∨
    (Source.arriveEach (Source.pieces bufferSize p.body.length) reads = none ∧
      (skipPacket p.header st).1 = false ∧
      StopsInside p.body back (skipPacket p.header st).2) := by
  rw [skipPacket, p.remainingSize_header, Int.toNat_natCast]
  exact skipBody_spec p.body.length st p.body back reads hst le_rfl p.body_length_lt

/-! ## The header -/

theorem NodePacket.bytes_eq (p : NodePacket) :
    p.bytes.take RequestResponseHeader.layout.width ++ p.body = p.bytes :=
  List.take_append_drop _ _

theorem receiveHeader_at {st : RecvCall} {front back : List UInt8} {k : Nat} {reads : List Nat}
    (hst : st.At (front ++ back) (k :: reads))
    (hle : RequestResponseHeader.layout.width ≤ front.length) :
    st.receiveHeader.1 = front.take (min k RequestResponseHeader.layout.width) ∧
      st.receiveHeader.2.At (front.drop (min k RequestResponseHeader.layout.width) ++ back)
        reads := by
  have hmin : min k RequestResponseHeader.layout.width ≤ front.length :=
    (Nat.min_le_right _ _).trans hle
  have hconn : st.conn = ⟨true, ⟨front ++ back, k :: reads⟩⟩ := hst
  simp only [RecvCall.receiveHeader, Connection.receiveResponse, Source.read, hconn, if_true,
    RecvCall.At, List.take_append_of_le_length hmin, List.drop_append_of_le_length hmin]
  exact ⟨trivial, trivial⟩

theorem receiveHeader_nil {st : RecvCall} {reads : List Nat} (hst : st.At [] reads) :
    st.receiveHeader.1 = [] ∧ st.receiveHeader.2.At [] reads.tail := by
  have hconn : st.conn = ⟨true, ⟨[], reads⟩⟩ := hst
  simp only [RecvCall.receiveHeader, Connection.receiveResponse, Source.read, hconn, if_true,
    RecvCall.At]
  cases reads with
  | nil => exact ⟨rfl, rfl⟩
  | cons k reads => simp

theorem receiveHeader_noReads {st : RecvCall} {pending : List UInt8} (hst : st.At pending []) :
    st.receiveHeader.1 = [] ∧ st.receiveHeader.2.At pending [] := by
  have hconn : st.conn = ⟨true, ⟨pending, []⟩⟩ := hst
  simp only [RecvCall.receiveHeader, Connection.receiveResponse, Source.read, hconn, if_true,
    RecvCall.At]
  exact ⟨trivial, trivial⟩

theorem headerRead_at {st : RecvCall} {p : NodePacket} {back : List UInt8} {k : Nat}
    {reads : List Nat} (hst : st.At (p.bytes ++ back) (k :: reads))
    (hk : RequestResponseHeader.layout.width ≤ k) :
    ∃ st', HeaderRead st p.header st' ∧ st'.At (p.body ++ back) reads := by
  obtain ⟨hbytes, hat⟩ := receiveHeader_at hst p.size_le
  rw [Nat.min_eq_right hk] at hbytes hat
  have hlength : st.receiveHeader.1.length = RequestResponseHeader.layout.width := by
    rw [hbytes, List.length_take_of_le p.size_le]
  refine ⟨_, ⟨hlength, ?_, rfl⟩, hat⟩
  rw [hbytes, NodePacket.header, ← RequestResponseHeader.layout.read_append _ p.body
    (List.length_take_of_le p.size_le).ge, p.bytes_eq]

/-- A packet of which the header and a part of the body were taken. -/
theorem inside_of_body {p : NodePacket} {packets : List NodePacket} {got left : List UInt8}
    (hbody : p.body = got ++ left) (hleft : left ≠ []) :
    Source.Inside ((p :: packets).map NodePacket.bytes) (left ++ streamOf packets) := by
  have hbytes : p.bytes = (p.bytes.take RequestResponseHeader.layout.width ++ got) ++ left := by
    rw [List.append_assoc, ← hbody, p.bytes_eq]
  have hfront : p.bytes.take RequestResponseHeader.layout.width ++ got ≠ [] := by
    intro hnil
    have hlength := congrArg List.length (List.append_eq_nil_iff.mp hnil).1
    rw [List.length_take_of_le p.size_le] at hlength
    cases hlength
  rw [List.map_cons, hbytes]
  exact Source.Inside.head _ hfront hleft

/-! ## A call -/

/-- The connection is left with whole packets, or inside one. -/
def EndsAs (packets : List NodePacket) (st : RecvCall) :
    Option (List NodePacket × List Nat) → Prop
  | some (rest, reads) => st.conn.source = ⟨streamOf rest, reads⟩ ∧ rest <:+ packets
  | none => Source.Inside (packets.map NodePacket.bytes) st.conn.source.pending

theorem EndsAs.behind {packets : List NodePacket} {st : RecvCall}
    {outcome : Option (List NodePacket × List Nat)} (h : EndsAs packets st outcome) :
    ∀ taken, EndsAs (taken ++ packets) st outcome := by
  intro taken
  induction taken with
  | nil => exact h
  | cons p taken ih =>
      cases outcome with
      | none => exact Source.Inside.cons p.bytes ih
      | some left => exact ⟨ih.1, ih.2.trans (List.suffix_cons p (taken ++ packets))⟩

theorem RecvCall.At.source {st : RecvCall} {pending : List UInt8} {reads : List Nat}
    (h : st.At pending reads) : st.conn.source = ⟨pending, reads⟩ := by
  rw [show st.conn = _ from h]

theorem endsAs_header {p : NodePacket} {packets : List NodePacket} {st : RecvCall}
    {reads : List Nat} (hst : st.At (p.body ++ streamOf packets) reads) :
    EndsAs (p :: packets) st (if p.Bare then some (packets, reads) else none) := by
  by_cases hbare : p.Bare
  · have hbody : p.body = [] := hbare
    rw [hbody] at hst
    rw [if_pos hbare]
    exact ⟨hst.source, List.suffix_cons p packets⟩
  · have hpending : st.conn.source.pending = p.body ++ streamOf packets := by
      rw [hst.source]
    rw [if_neg hbare, EndsAs, hpending]
    exact inside_of_body (List.nil_append p.body).symm hbare

theorem endsAs_inside {p : NodePacket} {packets : List NodePacket} {st : RecvCall}
    (h : StopsInside p.body (streamOf packets) st) : EndsAs (p :: packets) st none := by
  obtain ⟨got, left, hbody, hleft, hpending⟩ := h
  rw [EndsAs, hpending]
  exact inside_of_body hbody hleft

section
variable (T : PacketType)

theorem receiveResult_refines {p : NodePacket} {packets : List NodePacket} {st : RecvCall}
    {reads : List Nat} (hst : st.At (p.body ++ streamOf packets) reads) :
    EndsAs (p :: packets) (receiveResult T p.header st).call
      (if bufferSize < p.body.length then none
        else (Source.arrive p.body.length reads).map fun reads => (packets, reads)) := by
  unfold receiveResult
  rw [p.remainingSize_header]
  by_cases hbare : p.Bare
  · -- no body
    have hbody : p.body = [] := hbare
    rw [hbody] at hst ⊢
    rw [if_neg (by simp), if_neg (by simp), List.length_nil, Source.arrive_zero]
    exact ⟨hst.source, List.suffix_cons p packets⟩
  · have hpos : 0 < p.body.length := List.length_pos_of_ne_nil hbare
    rw [if_pos (by omega)]
    by_cases hlarge : bufferSize < p.body.length
    · have hends := endsAs_header hst
      rw [if_neg hbare] at hends
      rw [if_pos (by omega), if_pos hlarge]
      exact hends
    · rw [if_neg (by omega), if_neg hlarge]
      rcases receiveBody_spec hst p.body_length_lt with
        ⟨reads', harrive, hread, hat⟩ | ⟨harrive, hread, hstops⟩
      · rcases hbody : st.receiveBody p.body.length with ⟨_ | body, st'⟩
        · rw [hbody] at hread
          cases hread
        · rw [hbody] at hat
          rw [harrive]
          exact ⟨hat.source, List.suffix_cons p packets⟩
      · rcases hbody : st.receiveBody p.body.length with ⟨_ | body, st'⟩
        · rw [hbody] at hstops
          rw [harrive]
          exact endsAs_inside hstops
        · rw [hbody] at hread
          cases hread

theorem receivePacketLoop_short {left : Nat} {st : RecvCall}
    (h : st.receiveHeader.1.length ≠ RequestResponseHeader.layout.width) :
    (receivePacketLoop T left st).call = st.receiveHeader.2 := by
  unfold receivePacketLoop
  rw [nextHeader_of_short T h, RecvCall.nothing_call]

theorem receivePacketLoop_begin {left : Nat} {p : NodePacket} {packets : List NodePacket} {k : Nat}
    {reads : List Nat} {st : RecvCall} (hst : st.At (streamOf (p :: packets)) (k :: reads))
    (hk : k < RequestResponseHeader.layout.width) :
    EndsAs (p :: packets) (receivePacketLoop T left st).call
      (if k = 0 then some (p :: packets, reads) else none) := by
  obtain ⟨hbytes, hat⟩ := receiveHeader_at hst p.size_le
  rw [Nat.min_eq_left hk.le] at hbytes hat
  have hk' : k < p.bytes.length := hk.trans_le p.size_le
  have hlength : st.receiveHeader.1.length = k := by
    rw [hbytes, List.length_take_of_le hk'.le]
  rw [receivePacketLoop_short T (by omega)]
  by_cases hzero : k = 0
  · subst hzero
    rw [if_pos rfl]
    exact ⟨hat.source, List.suffix_refl _⟩
  · have hpending : st.receiveHeader.2.conn.source.pending = p.bytes.drop k ++ streamOf packets := by
      rw [hat.source]
      rfl
    have hinside : Source.Inside ((p.bytes.take k ++ p.bytes.drop k) :: packets.map NodePacket.bytes)
        (p.bytes.drop k ++ streamOf packets) := by
      refine Source.Inside.head _ ?_ ?_
      · intro hnil
        rw [← hbytes] at hnil
        rw [hnil] at hlength
        exact hzero hlength.symm
      · exact List.drop_eq_nil_iff.not.mpr (by omega)
    rw [if_neg hzero, EndsAs, hpending]
    rwa [List.take_append_drop] at hinside

/-- **One call.**  It takes whole packets, as `awaitPacket` does, or stops inside
one. -/
theorem receivePacketLoop_refines : ∀ (packets : List NodePacket) (left : Nat) (reads : List Nat)
    (st : RecvCall), st.At (streamOf packets) reads →
    EndsAs packets (receivePacketLoop T left st).call (awaitPacket T left packets reads) := by
  intro packets
  induction packets with
  | nil =>
      intro left reads st hst
      obtain ⟨hbytes, hat⟩ := receiveHeader_nil hst
      rw [receivePacketLoop_short T (by rw [hbytes]; decide), awaitPacket_nil]
      exact ⟨hat.source, List.suffix_refl _⟩
  | cons p packets ih =>
      intro left reads st hst
      cases reads with
      | nil =>
          obtain ⟨hbytes, hat⟩ := receiveHeader_noReads hst
          rw [receivePacketLoop_short T (by rw [hbytes]; decide), awaitPacket_noReads]
          exact ⟨hat.source, List.suffix_refl _⟩
      | cons k reads =>
          rcases Nat.lt_or_ge k RequestResponseHeader.layout.width with hk | hk
          · rw [awaitPacket_begin T left p packets reads hk]
            exact receivePacketLoop_begin T hst hk
          · obtain ⟨st', hread, hat⟩ := headerRead_at hst hk
            have hnext := nextHeader_of_read T hread
            rw [awaitPacket_read T left p packets reads hk]
            unfold receivePacketLoop
            by_cases hend : p.header.type = END_RESPONSE_TYPE
            · rw [if_pos hend] at hnext
              rw [hnext, if_pos hend]
              exact endsAs_header hat
            · rw [if_neg hend] at hnext
              rw [if_neg hend]
              by_cases htype : p.header.type ≠ T.type
              · rw [if_pos htype] at hnext
                rw [hnext, if_pos htype]
                cases left with
                | zero => exact endsAs_header hat
                | succ left =>
                    dsimp only
                    rcases skipPacket_spec hat with
                      ⟨reads', harrive, hdone, hat'⟩ | ⟨harrive, hdone, hstops⟩
                    · rw [if_pos hdone, harrive, Option.bind_some]
                      exact (ih left reads' _ hat').behind [p]
                    · have hfalse : ¬ (skipPacket p.header st').1 = true := by
                        rw [hdone]
                        exact Bool.false_ne_true
                      rw [if_neg hfalse, RecvCall.nothing_call, harrive, Option.bind_none]
                      exact endsAs_inside hstops
              · rw [if_neg htype] at hnext
                rw [hnext, if_neg htype]
                exact receiveResult_refines T hat

end

/-! ## The handshake -/

theorem EndsAs.atBoundary_iff {packets : List NodePacket} {st : RecvCall}
    {outcome : Option (List NodePacket × List Nat)} (h : EndsAs packets st outcome) :
    Source.AtBoundary (packets.map NodePacket.bytes) st.conn.source.pending ↔ outcome.isSome := by
  cases outcome with
  | none =>
      constructor
      · intro hboundary
        exact absurd hboundary (Source.Inside.not_atBoundary h)
      · intro hsome
        cases hsome
  | some left =>
      obtain ⟨hat, taken, htaken⟩ := h
      refine ⟨fun _ => rfl, fun _ => ⟨taken.map NodePacket.bytes, left.1.map NodePacket.bytes, ?_, ?_⟩⟩
      · rw [← htaken, List.map_append]
      · rw [hat]
        rfl

theorem openQubicConnection_refines (packets : List NodePacket) (reads : List Nat) (sent : Bool) :
    EndsAs packets (openQubicConnection ⟨streamOf packets, reads⟩ sent).peers.call
        (awaitPacket ExchangePublicPeers maxSkip packets reads) ∧
      ∀ left, awaitPacket ExchangePublicPeers maxSkip packets reads = some left →
        EndsAs packets (openQubicConnection ⟨streamOf packets, reads⟩ sent).computors.call
          (if sent then awaitPacket RequestComputors maxSkip left.1 left.2 else some left) := by
  have hpeers := receivePacketLoop_refines ExchangePublicPeers packets maxSkip reads
    (.start ⟨true, streamOf packets, reads⟩) rfl
  refine ⟨hpeers, fun left hleft => ?_⟩
  rw [hleft] at hpeers
  obtain ⟨hsource, taken, htaken⟩ := hpeers
  have hconn : { (openQubicConnection ⟨streamOf packets, reads⟩ sent).peers.call.conn with
      isConnected := sent } = (⟨sent, streamOf left.1, left.2⟩ : Connection) :=
    congrArg (Connection.mk sent) hsource
  have hcomputors : (openQubicConnection ⟨streamOf packets, reads⟩ sent).computors
      = receivePacketWithHeaderAs RequestComputors ⟨sent, streamOf left.1, left.2⟩ :=
    congrArg (receivePacketWithHeaderAs RequestComputors) hconn
  rw [hcomputors, ← htaken]
  refine EndsAs.behind ?_ taken
  cases sent with
  | true => exact receivePacketLoop_refines RequestComputors left.1 maxSkip left.2 _ rfl
  | false =>
      have hnothing : (RecvCall.start ⟨false, streamOf left.1, left.2⟩).receiveHeader.1 = [] := rfl
      rw [receivePacketWithHeaderAs, receivePacketLoop_short _ (by rw [hnothing]; decide)]
      exact ⟨rfl, List.suffix_refl _⟩

/-- **The end of the handshake.**  For every sequence of packets, every
segmentation and timing of the reads and either outcome of the send: both calls
stop between packets exactly when each takes whole packets only, and then what
is left of the stream is the packets that were not taken. -/
theorem openQubicConnection_iff (packets : List NodePacket) (reads : List Nat) (sent : Bool) :
    ((Source.AtBoundary (packets.map NodePacket.bytes)
        (openQubicConnection ⟨streamOf packets, reads⟩ sent).peers.call.conn.source.pending ∧
      Source.AtBoundary (packets.map NodePacket.bytes)
        (openQubicConnection ⟨streamOf packets, reads⟩ sent).computors.call.conn.source.pending) ↔
      (handshakePackets sent packets reads).isSome) ∧
    ∀ rest reads', handshakePackets sent packets reads = some (rest, reads') →
      (openQubicConnection ⟨streamOf packets, reads⟩ sent).computors.call.conn.source
        = ⟨streamOf rest, reads'⟩ ∧ rest <:+ packets := by
  obtain ⟨hpeers, hcomputors⟩ := openQubicConnection_refines packets reads sent
  cases hleft : awaitPacket ExchangePublicPeers maxSkip packets reads with
  | none =>
      have hnone : handshakePackets sent packets reads = none := by
        rw [handshakePackets, hleft, Option.bind_none]
      rw [hpeers.atBoundary_iff, hleft, hnone]
      refine ⟨⟨fun h => h.1, fun h => (Bool.false_ne_true h).elim⟩, ?_⟩
      intro rest reads' h
      cases h
  | some left =>
      have hsecond := hcomputors left hleft
      have hsome : handshakePackets sent packets reads
          = if sent then awaitPacket RequestComputors maxSkip left.1 left.2 else some left := by
        rw [handshakePackets, hleft, Option.bind_some]
      rw [← hsome] at hsecond
      rw [hpeers.atBoundary_iff, hsecond.atBoundary_iff, hleft]
      refine ⟨⟨fun h => h.2, fun h => ⟨rfl, h⟩⟩, ?_⟩
      intro rest reads' h
      rw [h] at hsecond
      exact hsecond

/-- The peers and the request for computors, each in one piece. -/
def plainPackets : List NodePacket :=
  [⟨[24, 0, 0, 0, 0, 0, 0, 0] ++ List.replicate 16 0, by decide, by decide⟩,
    ⟨[8, 0, 0, 11, 0, 0, 0, 0], by decide, by decide⟩]

theorem openQubicConnection_iff_plain :
    (openQubicConnection ⟨streamOf plainPackets, [8, 16, 8]⟩ true).computors.call.conn.source
      = ⟨[], []⟩ :=
  ((openQubicConnection_iff plainPackets [8, 16, 8] true).2 [] [] rfl).1

theorem drain_streamOf {packets : List NodePacket}
    (hsize : ∀ p ∈ packets, p.bytes.length ≤ maxPacketSize) :
    packetFramer.drain (streamOf packets) = (packets.map NodePacket.bytes, []) := by
  have hpackets : ∀ bytes ∈ packets.map NodePacket.bytes,
      packetFramer.next bytes = some bytes.length := by
    intro bytes hbytes
    obtain ⟨p, hp, rfl⟩ := List.mem_map.mp hbytes
    exact next_of_isPacket ⟨p.size_le, hsize p hp, p.header_size⟩
  have hempty : packetFramer.next [] = none := next_of_incomplete (.inl (by decide))
  have hdrain := packetFramer.drain_flatten_append hpackets hempty
  rw [List.append_nil] at hdrain
  exact hdrain

/-- A node that begins with four packets nobody waits for. -/
def foreignPackets : List NodePacket :=
  [⟨[24, 0, 0, 0, 0, 0, 0, 0] ++ List.replicate 16 0, by decide, by decide⟩] ++
    List.replicate 4 ⟨[12, 0, 0, 1, 0, 0, 0, 0, 1, 2, 3, 4], by decide, by decide⟩

/-- Each header and each body comes in one read. -/
def foreignReads : List Nat := [8, 16, 8, 4, 8, 4, 8, 4, 8]

/-- The body of the fourth is left behind its header. -/
theorem fourthForeign_misaligned :
    (openQubicConnection ⟨streamOf foreignPackets, foreignReads⟩ true).computors.call.conn.source
      = ⟨[1, 2, 3, 4], []⟩ ∧
    ¬ Source.AtBoundary (foreignPackets.map NodePacket.bytes)
      (openQubicConnection ⟨streamOf foreignPackets, foreignReads⟩ true).computors.call.conn.source.pending := by
  have hsource : (openQubicConnection ⟨streamOf foreignPackets, foreignReads⟩
      true).computors.call.conn.source = ⟨[1, 2, 3, 4], []⟩ := by rfl
  refine ⟨hsource, ?_⟩
  rw [hsource]
  refine Source.Inside.not_atBoundary ?_
  exact ⟨(foreignPackets.take 4).map NodePacket.bytes, [12, 0, 0, 1, 0, 0, 0, 0], [1, 2, 3, 4], [],
    rfl, by decide, by decide, rfl⟩

end DogeConnect
