/-
The solution packet, from its two senders to `processSolution`.

The layout of a solution is written down three times: in `structs.h`, by the
test miner's `miningLoop`, which fills a buffer through casts, and by the C#
`DogeSolutionSender`, which marshals structs of its own.  The receiver casts
again and verifies a signature over what stands between the header and the last
64 bytes.

    readSolution_eq         the checks, byte by byte, and where each field comes from
    minerPacket_eq          the miner's packet
    demoPacket_eq           the C# sender's packet
    processSolution_spec    accepted exactly when authentic, and read as it was sent

Hashing, signing and verifying are parameters.
-/
import DogeConnect.QubicRecv
import DogeConnect.TaskPacket

namespace DogeConnect

open Writes

/-! ## What a solution packet consists of -/

/-- The body of a solution packet: the two structs, one behind the other. -/
def solutionBody (sol : DispatcherMiningSolution) : List UInt8 :=
  CustomQubicMiningSolution.layout.write ⟨sol.sourcePublicKey, sol.jobId, DOGE⟩
    ++ QubicDogeMiningSolution.layout.write ⟨sol.nTime, sol.nonce, sol.merkleRoot, sol.extraNonce2⟩

/-- The header in front of it. -/
def solutionHeader : RequestResponseHeader where
  sizeBytes := RequestResponseHeader.setSize requiredSize
  type := CustomQubicMiningSolution.type
  dejavu := 0

@[simp] theorem solutionBody_length (sol : DispatcherMiningSolution) :
    (solutionBody sol).length = 89 := by
  rw [solutionBody, List.length_append, Layout.length_write, Layout.length_write]
  rfl

/-! ## The test miner -/

/-- `computorId` of the test miner. -/
def computorId : Nat := 337

/-- The computor most significant byte first, then the counter as it lies in
memory. -/
def minerExtraNonce2 (extraNonce2Low : UInt32) : ByteArr 8 :=
  ⟨(List.range 4).map (fun b => UInt8.ofNat ((computorId >>> ((3 - b) * 8)) &&& 0xFF))
    ++ u32.write extraNonce2Low, by simp [u32, Layout.map, arr]⟩

/-- The `memcpy`s into `header`, and the nonce byte by byte. -/
def headerWrites (task : InternalMiningTask) (merkleRoot : ByteArr 32) (nonce : UInt32) :
    List (Nat × List UInt8) :=
  [(0, task.partialHeader1.toList), (36 + 32, task.partialHeader2.toList),
    (36, merkleRoot.toList),
    (76, [UInt8.ofNat (nonce.toNat &&& 0xFF)]),
    (77, [UInt8.ofNat ((nonce.toNat >>> 8) &&& 0xFF)]),
    (78, [UInt8.ofNat ((nonce.toNat >>> 16) &&& 0xFF)]),
    (79, [UInt8.ofNat ((nonce.toNat >>> 24) &&& 0xFF)])]

/-- `header` when the nonce is tried. -/
def minerHeader (header : ByteArr 80) (task : InternalMiningTask) (merkleRoot : ByteArr 32)
    (nonce : UInt32) : List UInt8 :=
  (headerWrites task merkleRoot nonce).foldl writeAt header.toList

section
variable (sign : List UInt8 → ByteArr 64)

/-- The fields written through the casts of `solutionBuffer`: the header's size
behind its dejavu, then field by field from the end of the header. -/
def solutionWrites (publicKey : ByteArr 32) (jobId : UInt64) (header : List UInt8)
    (merkleRoot : ByteArr 32) (extraNonce2 : ByteArr 8) : List (Nat × List UInt8) :=
  [(4, u32.write 0), (0, (RequestResponseHeader.setSize requiredSize).toList),
    (3, [CustomQubicMiningSolution.type])]
    ++ consecutiveWrites RequestResponseHeader.layout.width [publicKey.toList, u64.write jobId,
      [DOGE], (header.drop 68).take 4, (header.drop 76).take 4, merkleRoot.toList,
      extraNonce2.toList]

/-- What `miningLoop` sends for a nonce. -/
def minerPacket (solutionBuffer : ByteArr requiredSize) (header : ByteArr 80)
    (publicKey : ByteArr 32) (task : InternalMiningTask) (merkleRoot : ByteArr 32)
    (extraNonce2Low nonce : UInt32) : List UInt8 :=
  let unsigned := (solutionWrites publicKey task.jobId (minerHeader header task merkleRoot nonce)
    merkleRoot (minerExtraNonce2 extraNonce2Low)).foldl writeAt solutionBuffer.toList
  let offset := requiredSize - SIGNATURE_SIZE
  let signDataStart := unsigned.drop RequestResponseHeader.layout.width
  let signDataSize := offset - RequestResponseHeader.layout.width
  writeAt unsigned (offset, (sign (signDataStart.take signDataSize)).toList)

/-- The sender's own view of it. -/
def minerSolution (publicKey : ByteArr 32) (task : InternalMiningTask) (merkleRoot : ByteArr 32)
    (extraNonce2Low nonce : UInt32) : DispatcherMiningSolution where
  jobId := task.jobId
  nTime := ByteArr.copy 4 task.partialHeader2.toList
  nonce := uint32Bytes nonce
  merkleRoot := merkleRoot
  extraNonce2 := minerExtraNonce2 extraNonce2Low
  sourcePublicKey := publicKey

/-! ### Its bytes -/

theorem ofNat_and_mask (v : Nat) : UInt8.ofNat (v &&& 0xFF) = UInt8.ofNat v := by
  apply UInt8.toNat_inj.mp
  rw [UInt8.toNat_ofNat', UInt8.toNat_ofNat', show (0xFF : Nat) = 2 ^ 8 - 1 from rfl,
    Nat.and_two_pow_sub_one_eq_mod, Nat.mod_mod]

theorem nonceBytes_eq (v : Nat) :
    [UInt8.ofNat (v &&& 0xFF), UInt8.ofNat ((v >>> 8) &&& 0xFF),
      UInt8.ofNat ((v >>> 16) &&& 0xFF), UInt8.ofNat ((v >>> 24) &&& 0xFF)] = leBytes 4 v := by
  simp only [ofNat_and_mask, leBytes, Nat.shiftRight_eq_div_pow, Nat.div_div_eq_div_mul,
    Nat.reducePow, Nat.reduceMul]

theorem minerHeader_eq (header : ByteArr 80) (task : InternalMiningTask)
    (merkleRoot : ByteArr 32) (nonce : UInt32) :
    minerHeader header task merkleRoot nonce
      = task.partialHeader1.toList ++ (merkleRoot.toList ++ (task.partialHeader2.toList
        ++ leBytes 4 nonce.toNat)) := by
  have hlength : header.toList.length = 80 := header.length
  -- the pieces of the old header that the writes replace
  obtain ⟨h1, rest, hcut, hh1, hrest⟩ := split_at header.toList (show 36 ≤ _ by omega)
  obtain ⟨root, rest, rfl, hroot, hrest'⟩ := split_at rest (show 32 ≤ rest.length by omega)
  obtain ⟨h2, old, rfl, hh2, hold⟩ := split_at rest (show 8 ≤ rest.length by omega)
  have hwrite₁ : writeAt ([] ++ (h1 ++ (root ++ (h2 ++ old)))) (0, task.partialHeader1.toList)
      = [] ++ (task.partialHeader1.toList ++ (root ++ (h2 ++ old))) :=
    writeAt_append rfl (by simp [hh1])
  have hwrite₂ : writeAt (task.partialHeader1.toList ++ root ++ (h2 ++ old))
        (36 + 32, task.partialHeader2.toList)
      = task.partialHeader1.toList ++ root ++ (task.partialHeader2.toList ++ old) :=
    writeAt_append (by simp [hroot]) (by simp [hh2])
  have hwrite₃ : writeAt (task.partialHeader1.toList ++ (root
        ++ (task.partialHeader2.toList ++ old))) (36, merkleRoot.toList)
      = task.partialHeader1.toList ++ (merkleRoot.toList
        ++ (task.partialHeader2.toList ++ old)) :=
    writeAt_append (by simp) (by simp [hroot])
  have hwrite₄ : (consecutiveWrites 76 [[UInt8.ofNat (nonce.toNat &&& 0xFF)],
        [UInt8.ofNat ((nonce.toNat >>> 8) &&& 0xFF)],
        [UInt8.ofNat ((nonce.toNat >>> 16) &&& 0xFF)],
        [UInt8.ofNat ((nonce.toNat >>> 24) &&& 0xFF)]]).foldl writeAt
        (task.partialHeader1.toList ++ merkleRoot.toList ++ task.partialHeader2.toList
          ++ (old ++ []))
      = task.partialHeader1.toList ++ merkleRoot.toList ++ task.partialHeader2.toList
          ++ (leBytes 4 nonce.toNat ++ []) := by
    rw [← nonceBytes_eq]
    exact foldl_writes_consecutive (by simp) (by simp; omega)
  simp only [List.nil_append] at hwrite₁
  simp only [List.append_assoc, List.append_nil] at hwrite₂ hwrite₃ hwrite₄
  rw [minerHeader, hcut, headerWrites, List.foldl_cons, hwrite₁, List.foldl_cons, hwrite₂,
    List.foldl_cons, hwrite₃]
  exact hwrite₄

/-- The fields of a solution, written one behind the other, are its body. -/
theorem solutionFields_flatten (sol : DispatcherMiningSolution) :
    [sol.sourcePublicKey.toList, u64.write sol.jobId, [DOGE], sol.nTime.toList, sol.nonce.toList,
      sol.merkleRoot.toList, sol.extraNonce2.toList].flatten = solutionBody sol := by
  have hbody : solutionBody sol = (sol.sourcePublicKey.toList ++ (u64.write sol.jobId ++ [DOGE]))
      ++ (sol.nTime.toList ++ (sol.nonce.toList ++ (sol.merkleRoot.toList
        ++ sol.extraNonce2.toList))) := rfl
  simp only [hbody, List.flatten_cons, List.flatten_nil, List.append_nil, List.append_assoc]

/-- A whole solution packet. -/
def solutionPacket (sol : DispatcherMiningSolution) : List UInt8 :=
  RequestResponseHeader.layout.write solutionHeader
    ++ (solutionBody sol ++ (sign (solutionBody sol)).toList)

/-- The miner's packet is that of its solution, whatever its buffers held. -/
theorem minerPacket_eq (solutionBuffer : ByteArr requiredSize) (header : ByteArr 80)
    (publicKey : ByteArr 32) (task : InternalMiningTask) (merkleRoot : ByteArr 32)
    (extraNonce2Low nonce : UInt32) :
    minerPacket sign solutionBuffer header publicKey task merkleRoot extraNonce2Low nonce
      = solutionPacket sign (minerSolution publicKey task merkleRoot extraNonce2Low nonce) := by
  have hlength : solutionBuffer.toList.length = 161 := solutionBuffer.length
  generalize hsol : minerSolution publicKey task merkleRoot extraNonce2Low nonce = sol
  obtain ⟨size, rest, hcut, hsize, hrest⟩ := split_at solutionBuffer.toList (show 3 ≤ _ by omega)
  obtain ⟨type, rest, rfl, htype, -⟩ := split_at rest (show 1 ≤ rest.length by omega)
  simp only [List.length_append] at hrest
  obtain ⟨dejavu, rest, rfl, hdejavu, -⟩ := split_at rest (show 4 ≤ rest.length by omega)
  simp only [List.length_append] at hrest
  obtain ⟨body, signature, rfl, hbody, -⟩ := split_at rest (show 89 ≤ rest.length by omega)
  simp only [List.length_append] at hrest
  -- the times and the nonce are read back out of the header
  have htime : ((minerHeader header task merkleRoot nonce).drop 68).take 4 = sol.nTime.toList := by
    rw [minerHeader_eq, ← hsol, ← List.append_assoc, List.drop_left' (by simp)]
    simp [minerSolution, ByteArr.copy, List.take_append_of_le_length]
  have hnonce : ((minerHeader header task merkleRoot nonce).drop 76).take 4 = sol.nonce.toList := by
    rw [minerHeader_eq, ← hsol, ← List.append_assoc, ← List.append_assoc,
      List.drop_left' (by simp), List.take_of_length_le (by simp)]
    rfl
  have hfields : solutionWrites publicKey task.jobId (minerHeader header task merkleRoot nonce)
        merkleRoot (minerExtraNonce2 extraNonce2Low)
      = [(4, u32.write 0), (0, (RequestResponseHeader.setSize requiredSize).toList),
          (3, [CustomQubicMiningSolution.type])]
        ++ consecutiveWrites RequestResponseHeader.layout.width [sol.sourcePublicKey.toList,
          u64.write sol.jobId, [DOGE], sol.nTime.toList, sol.nonce.toList, sol.merkleRoot.toList,
          sol.extraNonce2.toList] := by
    rw [solutionWrites, htime, hnonce, ← hsol]
    rfl
  have hwrite₁ : writeAt (size ++ type ++ (dejavu ++ (body ++ signature))) (4, u32.write 0)
      = size ++ type ++ (u32.write 0 ++ (body ++ signature)) :=
    writeAt_append (by simp [hsize, htype]) (by rw [hdejavu, Layout.length_write]; rfl)
  have hwrite₂ : writeAt ([] ++ (size ++ (type ++ (u32.write 0 ++ (body ++ signature)))))
        (0, (RequestResponseHeader.setSize requiredSize).toList)
      = [] ++ ((RequestResponseHeader.setSize requiredSize).toList
        ++ (type ++ (u32.write 0 ++ (body ++ signature)))) :=
    writeAt_append rfl (by rw [hsize, ByteArr.length])
  have hwrite₃ : writeAt ((RequestResponseHeader.setSize requiredSize).toList
        ++ (type ++ (u32.write 0 ++ (body ++ signature)))) (3, [CustomQubicMiningSolution.type])
      = (RequestResponseHeader.setSize requiredSize).toList
        ++ ([CustomQubicMiningSolution.type] ++ (u32.write 0 ++ (body ++ signature))) :=
    writeAt_append (by rw [ByteArr.length]) htype
  have hheader : (RequestResponseHeader.setSize requiredSize).toList
        ++ ([CustomQubicMiningSolution.type] ++ u32.write 0)
      = RequestResponseHeader.layout.write solutionHeader := rfl
  have hwrite₄ : (consecutiveWrites RequestResponseHeader.layout.width [sol.sourcePublicKey.toList,
          u64.write sol.jobId, [DOGE], sol.nTime.toList, sol.nonce.toList, sol.merkleRoot.toList,
          sol.extraNonce2.toList]).foldl writeAt
        (RequestResponseHeader.layout.write solutionHeader ++ (body ++ signature))
      = RequestResponseHeader.layout.write solutionHeader ++ (solutionBody sol ++ signature) := by
    rw [← solutionFields_flatten]
    refine foldl_writes_consecutive (Layout.length_write _ _).symm ?_
    rw [solutionFields_flatten, solutionBody_length, hbody]
  have hunsigned : (solutionWrites publicKey task.jobId (minerHeader header task merkleRoot nonce)
        merkleRoot (minerExtraNonce2 extraNonce2Low)).foldl writeAt solutionBuffer.toList
      = RequestResponseHeader.layout.write solutionHeader ++ (solutionBody sol ++ signature) := by
    simp only [List.append_assoc] at hwrite₁
    simp only [List.nil_append] at hwrite₂
    rw [hfields, hcut, List.foldl_append, List.foldl_cons, hwrite₁, List.foldl_cons, hwrite₂,
      List.foldl_cons, hwrite₃, List.foldl_nil, ← hwrite₄, ← hheader]
    simp only [List.append_assoc]
  have hwrite₅ : writeAt (RequestResponseHeader.layout.write solutionHeader ++ solutionBody sol
        ++ (signature ++ [])) (requiredSize - SIGNATURE_SIZE, (sign (solutionBody sol)).toList)
      = RequestResponseHeader.layout.write solutionHeader ++ solutionBody sol
        ++ ((sign (solutionBody sol)).toList ++ []) := by
    refine writeAt_append ?_ (by rw [ByteArr.length]; omega)
    rw [List.length_append, Layout.length_write, solutionBody_length]
    rfl
  have hsigned : (solutionBody sol ++ signature).take
      (requiredSize - SIGNATURE_SIZE - RequestResponseHeader.layout.width) = solutionBody sol :=
    List.take_left' (solutionBody_length sol)
  simp only [List.append_assoc, List.append_nil] at hwrite₅
  simp only [minerPacket, hunsigned, Layout.drop_write, hsigned]
  exact hwrite₅

end

/-! ## The C# sender -/

/-- `CustomQubicMiningSolutionHeader` of `DogeProtocol.cs`. -/
structure CustomQubicMiningSolutionHeader where
  sourcePublicKey : ByteArr 32
  jobId : UInt64
  customMiningType : UInt8

/-- Marshalled with `Pack = 1`: the fields in order, an array in place. -/
def CustomQubicMiningSolutionHeader.layout : Layout UInt8 CustomQubicMiningSolutionHeader :=
  ((arr 32).seq (u64.seq u8)).map (fun p => ⟨p.1, p.2.1, p.2.2⟩)
    (fun s => (s.sourcePublicKey, s.jobId, s.customMiningType)) fun _ => rfl

/-- `QubicDogeMiningSolutionFixed`. -/
structure QubicDogeMiningSolutionFixed where
  nTime : ByteArr 4
  nonce : ByteArr 4
  merkleRoot : ByteArr 32
  extraNonce2 : ByteArr 8

def QubicDogeMiningSolutionFixed.layout : Layout UInt8 QubicDogeMiningSolutionFixed :=
  ((arr 4).seq <| (arr 4).seq <| (arr 32).seq (arr 8)).map
    (fun p => ⟨p.1, p.2.1, p.2.2.1, p.2.2.2⟩)
    (fun s => (s.nTime, s.nonce, s.merkleRoot, s.extraNonce2)) fun _ => rfl

/-- `QubicConstants.PacketTypeCustomMiningSolution`. -/
def packetTypeCustomMiningSolution : UInt8 := 69

/-- `QubicPacketHeader.Size`, of the network package: "8-byte header". -/
def qubicPacketHeaderSize : Nat := 8

def demoNTime : ByteArr 4 := ⟨[0x01, 0x02, 0x03, 0x04], rfl⟩

def demoNonce : ByteArr 4 := ⟨[0xDE, 0xAD, 0xBE, 0xEF], rfl⟩

def demoMerkleRoot : ByteArr 32 :=
  ⟨(List.range 32).map fun i => UInt8.ofNat (0xAA + i % 16), by simp⟩

def demoExtraNonce2 : ByteArr 8 := ⟨[0x01, 0x02, 0x03, 0x04, 0, 0, 0, 0], rfl⟩

/-- `BuildDemoSolutionPayload`; `Buffer.BlockCopy` into a new array. -/
def buildDemoSolutionPayload (senderPublicKey : ByteArr 32) (jobId : UInt64) : List UInt8 :=
  let solHeaderSize := CustomQubicMiningSolutionHeader.layout.width
  let fixedSize := QubicDogeMiningSolutionFixed.layout.width
  let payload := List.replicate (solHeaderSize + fixedSize) 0
  let solHeaderBytes := CustomQubicMiningSolutionHeader.layout.write ⟨senderPublicKey, jobId, DOGE⟩
  let payload := writeAt payload (0, solHeaderBytes)
  let fixedBytes := QubicDogeMiningSolutionFixed.layout.write
    ⟨demoNTime, demoNonce, demoMerkleRoot, demoExtraNonce2⟩
  writeAt payload (solHeaderBytes.length, fixedBytes)

/-- The job id that is sent: 0 stands for the clock, in seconds. -/
def demoJobId (jobId now : UInt64) : UInt64 := if jobId = 0 then now else jobId

/-- What `SendDemoSolutionAsync` sends. -/
def demoPacket (signRaw : List UInt8 → ByteArr 64) (senderPublicKey : ByteArr 32)
    (jobId now : UInt64) : List UInt8 :=
  let payload := buildDemoSolutionPayload senderPublicKey (demoJobId jobId now)
  let signature := (signRaw payload).toList
  let fullPayload := List.replicate (payload.length + signature.length) 0
  let fullPayload := writeAt fullPayload (0, payload)
  let fullPayload := writeAt fullPayload (payload.length, signature)
  let totalSize := qubicPacketHeaderSize + fullPayload.length
  let packet := List.replicate totalSize 0
  let packet := writeAt packet (0, [UInt8.ofNat (totalSize &&& 0xFF)])
  let packet := writeAt packet (1, [UInt8.ofNat ((totalSize >>> 8) &&& 0xFF)])
  let packet := writeAt packet (2, [UInt8.ofNat ((totalSize >>> 16) &&& 0xFF)])
  let packet := writeAt packet (3, [packetTypeCustomMiningSolution])
  writeAt packet (qubicPacketHeaderSize, fullPayload)

/-- The sender's own view of it. -/
def demoSolution (senderPublicKey : ByteArr 32) (jobId now : UInt64) : DispatcherMiningSolution where
  jobId := demoJobId jobId now
  nTime := demoNTime
  nonce := demoNonce
  merkleRoot := demoMerkleRoot
  extraNonce2 := demoExtraNonce2
  sourcePublicKey := senderPublicKey

/-- Two blocks copied one behind the other into an array of their size. -/
theorem blockCopy_two (front behind : List UInt8) :
    writeAt (writeAt (List.replicate (front.length + behind.length) 0) (0, front))
        (front.length, behind) = front ++ behind := by
  have hall : (consecutiveWrites 0 [front, behind]).foldl writeAt
      (List.replicate (front.length + behind.length) 0) = [front, behind].flatten :=
    foldl_writes_all (by simp)
  simpa only [consecutiveWrites, List.foldl_cons, List.foldl_nil, Nat.zero_add, List.flatten_cons,
    List.flatten_nil, List.append_nil] using hall

theorem buildDemoSolutionPayload_eq (senderPublicKey : ByteArr 32) (jobId now : UInt64) :
    buildDemoSolutionPayload senderPublicKey (demoJobId jobId now)
      = solutionBody (demoSolution senderPublicKey jobId now) := by
  have hcopy := blockCopy_two
    (CustomQubicMiningSolutionHeader.layout.write ⟨senderPublicKey, demoJobId jobId now, DOGE⟩)
    (QubicDogeMiningSolutionFixed.layout.write
      ⟨demoNTime, demoNonce, demoMerkleRoot, demoExtraNonce2⟩)
  rw [Layout.length_write, Layout.length_write] at hcopy
  rw [buildDemoSolutionPayload, Layout.length_write, hcopy]
  rfl

theorem demoPacket_eq (signRaw : List UInt8 → ByteArr 64) (senderPublicKey : ByteArr 32)
    (jobId now : UInt64) :
    demoPacket signRaw senderPublicKey jobId now
      = solutionPacket signRaw (demoSolution senderPublicKey jobId now) := by
  have hbody := solutionBody_length (demoSolution senderPublicKey jobId now)
  simp only [demoPacket, buildDemoSolutionPayload_eq, blockCopy_two]
  rw [solutionPacket]
  generalize hfull : solutionBody (demoSolution senderPublicKey jobId now)
    ++ (signRaw (solutionBody (demoSolution senderPublicKey jobId now))).toList = fullPayload
  have hlength : fullPayload.length = 153 := by
    rw [← hfull, List.length_append, hbody, ByteArr.length]
  have hzeros : List.replicate (qubicPacketHeaderSize + fullPayload.length) (0 : UInt8)
      = 0 :: 0 :: 0 :: 0 :: 0 :: 0 :: 0 :: 0 :: (List.replicate 153 0 ++ []) := by
    rw [hlength]
    rfl
  rw [hzeros]
  -- the four bytes of the header, then everything behind it
  simp only [hlength, qubicPacketHeaderSize, writeAt, List.take_zero, List.take_succ_cons,
    List.length_singleton, List.drop_succ_cons, List.drop_zero, List.nil_append, List.cons_append,
    List.append_nil, Nat.reduceAdd, Nat.zero_add]
  rw [List.drop_of_length_le (by simp), List.append_nil]
  rfl

/-! ## The receiver -/

/-- What the signature covers: all between the header and the signature. -/
def signedRegion (recvData : List UInt8) : List UInt8 :=
  (recvData.drop RequestResponseHeader.layout.width).take
    (recvData.length - RequestResponseHeader.layout.width - SIGNATURE_SIZE)

/-- The fields of a record are slices of the signed region. -/
structure ReadFrom (signed : List UInt8) (sol : DispatcherMiningSolution) : Prop where
  length : signed.length = 89
  sourcePublicKey : sol.sourcePublicKey.toList = signed.take 32
  jobId : u64.write sol.jobId = (signed.drop 32).take 8
  nTime : sol.nTime.toList = (signed.drop 41).take 4
  nonce : sol.nonce.toList = (signed.drop 45).take 4
  merkleRoot : sol.merkleRoot.toList = (signed.drop 49).take 32
  extraNonce2 : sol.extraNonce2.toList = (signed.drop 81).take 8

section
variable (kangarooTwelve : List UInt8 → ByteArr 32)
  (verify : ByteArr 32 → ByteArr 32 → List UInt8 → Bool)

/-- A solution packet with a good signature of the key it names. -/
structure Authentic (recvData : List UInt8) : Prop where
  length : recvData.length = RequestResponseHeader.layout.width
    + CustomQubicMiningSolution.layout.width + QubicDogeMiningSolution.layout.width
    + SIGNATURE_SIZE
  type : recvData[3]? = some 69
  customMiningType : recvData[48]? = some DOGE
  signature : verify (ByteArr.copy 32 (signedRegion recvData))
    (kangarooTwelve (signedRegion recvData)) (recvData.drop (recvData.length - SIGNATURE_SIZE))
      = true

/-- The record read out of a signed region. -/
def solutionIn (signed : List UInt8) : DispatcherMiningSolution where
  jobId := u64.read (signed.drop 32)
  nTime := ByteArr.copy 4 (signed.drop 41)
  nonce := ByteArr.copy 4 (signed.drop 45)
  merkleRoot := ByteArr.copy 32 (signed.drop 49)
  extraNonce2 := ByteArr.copy 8 (signed.drop 81)
  sourcePublicKey := ByteArr.copy 32 signed

theorem copy_take {n : Nat} (bs : List UInt8) (h : n ≤ bs.length) :
    (ByteArr.copy n bs).toList = bs.take n := by
  simp [ByteArr.copy, Nat.sub_eq_zero_of_le h]

theorem write_read_u64 {bs : List UInt8} (h : bs.length = 8) : u64.write (u64.read bs) = bs := by
  have hval : leVal bs < 2 ^ 64 := by
    have := leVal_lt bs
    rw [h] at this
    exact lt_of_lt_of_le this (by decide)
  have hread : u64.read bs = UInt64.ofNat (leVal bs) := by
    show UInt64.ofNat (ByteArr.copy 8 bs).val = _
    rw [ByteArr.val, ByteArr.copy_toList h]
  have hnat : (UInt64.ofNat (leVal bs)).toNat = leVal bs := by
    rw [UInt64.toNat_ofNat']
    exact Nat.mod_eq_of_lt hval
  show leBytes 8 (u64.read bs).toNat = bs
  rw [hread, hnat, ← h, leBytes_leVal]

theorem readFrom_solutionIn {signed : List UInt8} (h : signed.length = 89) :
    ReadFrom signed (solutionIn signed) where
  length := h
  sourcePublicKey := copy_take _ (by omega)
  jobId := by
    have hfront : ((signed.drop 32).take 8).length = 8 := by
      rw [List.length_take, List.length_drop]
      omega
    have hread : u64.read (signed.drop 32) = u64.read ((signed.drop 32).take 8) := by
      have hfirst := u64.read_append ((signed.drop 32).take 8) ((signed.drop 32).drop 8)
        (by rw [hfront]; rfl)
      rwa [List.take_append_drop] at hfirst
    rw [solutionIn, hread, write_read_u64 hfront]
  nTime := copy_take _ (by rw [List.length_drop]; omega)
  nonce := copy_take _ (by rw [List.length_drop]; omega)
  merkleRoot := copy_take _ (by rw [List.length_drop]; omega)
  extraNonce2 := copy_take _ (by rw [List.length_drop]; omega)

/-- A byte string of the required size: header, signed region, signature. -/
theorem split_recvData {recvData : List UInt8} (h : recvData.length = requiredSize) :
    ∃ header signature, recvData = header ++ (signedRegion recvData ++ signature) ∧
      header.length = 8 ∧ (signedRegion recvData).length = 89 ∧ signature.length = 64 ∧
      recvData.drop (recvData.length - SIGNATURE_SIZE) = signature := by
  have hsize : recvData.length = 161 := h
  obtain ⟨header, rest, hcut, hheader, hrest⟩ := split_at recvData (show 8 ≤ _ by omega)
  obtain ⟨signed, signature, rfl, hsigned, hsignature⟩ := split_at rest (show 89 ≤ _ by omega)
  have hregion : signedRegion recvData = signed := by
    rw [signedRegion, hsize, hcut]
    exact (congrArg (List.take 89) (List.drop_left' hheader)).trans (List.take_left' hsigned)
  have hbehind : recvData.drop (recvData.length - SIGNATURE_SIZE) = signature := by
    rw [hsize, hcut, ← List.append_assoc]
    exact List.drop_left' (by simp [hheader, hsigned, SIGNATURE_SIZE])
  exact ⟨header, signature, by rw [hregion, hcut], hheader, hregion ▸ hsigned, by omega, hbehind⟩

/-- The record is read out of the signed region, the signature plays no part. -/
theorem read_signed {signed : List UInt8} (signature : List UInt8) (h : signed.length = 89) :
    CustomQubicMiningSolution.layout.read (signed ++ signature)
      = ⟨ByteArr.copy 32 signed, u64.read (signed.drop 32), u8.read (signed.drop 40)⟩ ∧
    QubicDogeMiningSolution.layout.read
        ((signed ++ signature).drop CustomQubicMiningSolution.layout.width)
      = ⟨ByteArr.copy 4 (signed.drop 41), ByteArr.copy 4 (signed.drop 45),
          ByteArr.copy 32 (signed.drop 49), ByteArr.copy 8 (signed.drop 81)⟩ := by
  have hwidth : CustomQubicMiningSolution.layout.width = 41 := rfl
  constructor
  · rw [Layout.read_append _ _ _ (by rw [h]; decide)]
    show CustomQubicMiningSolution.mk _ _ (u8.read ((signed.drop 32).drop 8)) = _
    rw [List.drop_drop]
    rfl
  · rw [List.drop_append_of_le_length (by omega), Layout.read_append _ _ _
      (by rw [List.length_drop, h]; decide), hwidth]
    show QubicDogeMiningSolution.mk _ (ByteArr.copy 4 ((signed.drop 41).drop 4))
      (ByteArr.copy 32 (((signed.drop 41).drop 4).drop 4))
      (ByteArr.copy 8 ((((signed.drop 41).drop 4).drop 4).drop 32)) = _
    simp only [List.drop_drop]
    rfl

/-- The byte behind the first `n` is the one read there. -/
theorem getElem?_eq_headD {bs : List UInt8} {n : Nat} (h : n < bs.length) :
    bs[n]? = some ((bs.drop n).headD 0) := by
  rw [← List.head?_drop]
  cases hdrop : bs.drop n with
  | nil =>
      rw [List.drop_eq_nil_iff] at hdrop
      omega
  | cons b rest => rfl

/-- Every check of `processSolution` is one of those of an authentic packet. -/
theorem readSolution_eq (recvData : List UInt8) [Decidable (Authentic kangarooTwelve verify recvData)] :
    readSolution kangarooTwelve verify recvData
      = if Authentic kangarooTwelve verify recvData then some (solutionIn (signedRegion recvData))
        else none := by
  by_cases hsize : recvData.length = requiredSize
  swap
  · rw [readSolution, if_pos hsize, if_neg (fun h => hsize h.length)]
  obtain ⟨header, signature, hcut, hheader, hregion, hsignature, hbehind⟩ := split_recvData hsize
  generalize hsigned : signedRegion recvData = signed at *
  -- the two bytes that are tested
  have htype : recvData[3]? = some (RequestResponseHeader.layout.read recvData).type :=
    getElem?_eq_headD (show 3 < recvData.length by rw [hsize]; decide)
  have hmining : recvData[48]? = some (u8.read (signed.drop 40)) := by
    have hdrop : recvData.drop 48 = signed.drop 40 ++ signature := by
      rw [hcut, List.drop_append, hheader, List.drop_of_length_le (by omega), List.nil_append,
        List.drop_append_of_le_length (by omega)]
    rw [getElem?_eq_headD (show 48 < recvData.length by rw [hsize]; decide), hdrop]
    exact congrArg some (u8.read_append _ _ (by rw [List.length_drop, hregion]; decide))
  have hpayload : recvData.drop RequestResponseHeader.layout.width = signed ++ signature := by
    conv_lhs => rw [hcut]
    exact List.drop_left' hheader
  have hmessage : (signed ++ signature).length - SIGNATURE_SIZE = 89 := by
    rw [List.length_append, hregion, hsignature]
    rfl
  obtain ⟨hqubic, hdoge⟩ := read_signed signature hregion
  have hauthentic : Authentic kangarooTwelve verify recvData ↔
      (RequestResponseHeader.layout.read recvData).type = CustomQubicMiningSolution.type ∧
      u8.read (signed.drop 40) = DOGE ∧
      verify (ByteArr.copy 32 signed) (kangarooTwelve signed) signature = true := by
    constructor
    · intro h
      have h3 := h.type
      have h48 := h.customMiningType
      have hsig := h.signature
      rw [htype] at h3
      rw [hmining] at h48
      rw [hsigned, hbehind] at hsig
      exact ⟨Option.some.inj h3, Option.some.inj h48, hsig⟩
    · rintro ⟨h3, h48, hsig⟩
      refine ⟨hsize, by rw [htype, h3]; rfl, by rw [hmining, h48], ?_⟩
      rw [hsigned, hbehind]
      exact hsig
  simp only [readSolution, hpayload, hqubic, hdoge, hmessage, List.take_left' hregion,
    List.drop_left' hregion]
  rw [if_neg (not_not.mpr hsize)]
  by_cases h3 : (RequestResponseHeader.layout.read recvData).type = CustomQubicMiningSolution.type
  swap
  · rw [if_pos h3, if_neg (fun h => h3 (hauthentic.mp h).1)]
  rw [if_neg (not_not.mpr h3)]
  by_cases h48 : u8.read (signed.drop 40) = DOGE
  swap
  · rw [if_pos h48, if_neg (fun h => h48 (hauthentic.mp h).2.1)]
  rw [if_neg (not_not.mpr h48)]
  cases hverify : verify (ByteArr.copy 32 signed) (kangarooTwelve signed) signature with
  | false =>
      rw [if_pos rfl, if_neg]
      intro h
      have := (hauthentic.mp h).2.2
      rw [hverify] at this
      cases this
  | true =>
      rw [if_neg (by decide), if_pos (hauthentic.mpr ⟨h3, h48, hverify⟩)]
      rfl

theorem readSolution_solutionPacket (sign : List UInt8 → ByteArr 64)
    (sol : DispatcherMiningSolution) :
    readSolution kangarooTwelve verify (solutionPacket sign sol)
      = if verify sol.sourcePublicKey (kangarooTwelve (solutionBody sol))
          (sign (solutionBody sol)).toList then some sol else none := by
  have hbody := solutionBody_length sol
  have hsize : (solutionPacket sign sol).length = requiredSize := by
    rw [solutionPacket, List.length_append, List.length_append, Layout.length_write, hbody,
      ByteArr.length]
    rfl
  have htype : (RequestResponseHeader.layout.read (solutionPacket sign sol)).type
      = CustomQubicMiningSolution.type := by
    rw [solutionPacket, Layout.read_write]
    rfl
  have hmessage : (solutionBody sol ++ (sign (solutionBody sol)).toList).length - SIGNATURE_SIZE
      = 89 := by
    rw [List.length_append, hbody, ByteArr.length]
    rfl
  have hqubic : CustomQubicMiningSolution.layout.read
        (solutionBody sol ++ (sign (solutionBody sol)).toList)
      = ⟨sol.sourcePublicKey, sol.jobId, DOGE⟩ := by
    rw [solutionBody, List.append_assoc, Layout.read_write]
  have hdoge : QubicDogeMiningSolution.layout.read
        ((solutionBody sol ++ (sign (solutionBody sol)).toList).drop
          CustomQubicMiningSolution.layout.width)
      = ⟨sol.nTime, sol.nonce, sol.merkleRoot, sol.extraNonce2⟩ := by
    rw [solutionBody, List.append_assoc, Layout.drop_write, Layout.read_write]
  have hpayload : (solutionPacket sign sol).drop RequestResponseHeader.layout.width
      = solutionBody sol ++ (sign (solutionBody sol)).toList := Layout.drop_write _ _ _
  simp only [readSolution, hpayload, hqubic, hdoge, hmessage, List.take_left' hbody,
    List.drop_left' hbody]
  rw [if_neg (not_not.mpr hsize), if_neg (not_not.mpr htype), if_neg (not_not.mpr rfl)]
  cases verify sol.sourcePublicKey (kangarooTwelve (solutionBody sol))
    (sign (solutionBody sol)).toList <;> rfl

/-- **Solution packets.**  A byte string is taken exactly when it is authentic:
then one record is pushed, read out of the signed bytes.  What either sender
serializes comes out as the sender's solution, if the signature verifies. -/
theorem processSolution_spec (queue : ConcurrentQueue DispatcherMiningSolution) :
    (∀ recvData,
      (Authentic kangarooTwelve verify recvData ∧
        ∃ sol, (processSolution kangarooTwelve verify recvData queue).items = queue.items ++ [sol] ∧
          ReadFrom (signedRegion recvData) sol) ∨
      (¬ Authentic kangarooTwelve verify recvData ∧
        processSolution kangarooTwelve verify recvData queue = queue)) ∧
    (∀ sign solutionBuffer header publicKey task merkleRoot extraNonce2Low nonce,
      let sol := minerSolution publicKey task merkleRoot extraNonce2Low nonce
      processSolution kangarooTwelve verify
          (minerPacket sign solutionBuffer header publicKey task merkleRoot extraNonce2Low nonce)
          queue
        = if verify publicKey (kangarooTwelve (solutionBody sol)) (sign (solutionBody sol)).toList
          then queue.push sol else queue) ∧
    ∀ signRaw senderPublicKey jobId now,
      let sol := demoSolution senderPublicKey jobId now
      processSolution kangarooTwelve verify (demoPacket signRaw senderPublicKey jobId now) queue
        = if verify senderPublicKey (kangarooTwelve (solutionBody sol))
            (signRaw (solutionBody sol)).toList
          then queue.push sol else queue := by
  have hpacket : ∀ sign sol, processSolution kangarooTwelve verify (solutionPacket sign sol) queue
      = if verify sol.sourcePublicKey (kangarooTwelve (solutionBody sol))
          (sign (solutionBody sol)).toList then queue.push sol else queue := by
    intro sign sol
    rw [processSolution, readSolution_solutionPacket]
    cases verify sol.sourcePublicKey (kangarooTwelve (solutionBody sol))
      (sign (solutionBody sol)).toList <;> rfl
  refine ⟨fun recvData => ?_, ?_, ?_⟩
  · classical
    have hread := readSolution_eq kangarooTwelve verify recvData
    by_cases h : Authentic kangarooTwelve verify recvData
    · rw [if_pos h] at hread
      obtain ⟨-, -, -, -, hregion, -⟩ := split_recvData h.length
      refine .inl ⟨h, solutionIn (signedRegion recvData), ?_, readFrom_solutionIn hregion⟩
      rw [processSolution, hread]
      rfl
    · rw [if_neg h] at hread
      refine .inr ⟨h, ?_⟩
      rw [processSolution, hread]
  · intro sign solutionBuffer header publicKey task merkleRoot extraNonce2Low nonce
    rw [minerPacket_eq]
    exact hpacket sign _
  · intro signRaw senderPublicKey jobId now
    rw [demoPacket_eq]
    exact hpacket signRaw _

end

end DogeConnect
