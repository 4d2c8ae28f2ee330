/-
The scripts the pool pays to.

`utils.js` turns an address into chunks, opcodes and data, and the chunks into a
script: it adds up the sizes, allocates that much without clearing it and writes
chunk by chunk.  Sizes and writes are decided by different tests.

    encodeChunks_eq             the two agree: nothing throws, no byte is left over
    encodeChunks_readScript     the script reads as the chunks it was made of
    addressToScript_standard    an address gives one of four standard scripts

The libraries that decode addresses are parameters.
-/
import DogeConnect.Lib.ScriptReader
import DogeConnect.JobManager

namespace DogeConnect

open ScriptReader Writes

/-! ## Writing into a buffer -/

/-- `writeUInt8`, `writeUInt16LE` and `writeUInt32LE`, which throw for values and
offsets out of range. -/
def writeUIntLE (n : Nat) (buffer : List UInt8) (value offset : Nat) : Option (List UInt8) :=
  if value < 256 ^ n ∧ offset + n ≤ buffer.length then
    some (writeAt buffer (offset, leBytes n value))
  else none

def writeUInt8 := writeUIntLE 1

def writeUInt16LE := writeUIntLE 2

def writeUInt32LE := writeUIntLE 4

/-- `chunk.copy(buffer, offset)`: what there is no room for is left out. -/
def copyInto (chunk buffer : List UInt8) (offset : Nat) : List UInt8 :=
  writeAt buffer (offset, chunk.take (buffer.length - offset))

theorem leText_eq_leBytes (n v : Nat) : TxFormat.leText n v = leBytes n v := by
  induction n generalizing v with
  | zero => rfl
  | succ n ih => rw [TxFormat.leText, leBytes, ih]

theorem writeUIntLE_append {n value : Nat} (hvalue : value < 256 ^ n) (front rest : List UInt8)
    {old : List UInt8} (hold : old.length = n) :
    writeUIntLE n (front ++ (old ++ rest)) value front.length
      = some (front ++ (leBytes n value ++ rest)) := by
  have hroom : front.length + n ≤ (front ++ (old ++ rest)).length := by
    rw [List.length_append, List.length_append]
    omega
  rw [writeUIntLE, if_pos ⟨hvalue, hroom⟩, writeAt_append rfl (by rw [hold, leBytes_length])]

theorem copyInto_append (chunk front rest : List UInt8) {old : List UInt8}
    (hold : old.length = chunk.length) :
    copyInto chunk (front ++ (old ++ rest)) front.length = front ++ (chunk ++ rest) := by
  have hroom : chunk.length ≤ (front ++ (old ++ rest)).length - front.length := by
    rw [List.length_append, List.length_append]
    omega
  rw [copyInto, List.take_of_length_le hroom, writeAt_append rfl hold]

/-! ## Chunks -/

/-- `getBitcoinOPCodes`, for the names that are used. -/
def OP_0 : Nat := 0
def OP_PUSHDATA1 : Nat := 76
def OP_PUSHDATA2 : Nat := 77
def OP_PUSHDATA4 : Nat := 78
def OP_1NEGATE : Nat := 79
def OP_RESERVED : Nat := 80
def OP_DUP : Nat := 118
def OP_EQUAL : Nat := 135
def OP_EQUALVERIFY : Nat := 136
def OP_HASH160 : Nat := 169
def OP_CHECKSIG : Nat := 172

/-- An element of `chunks`: a number or a buffer. -/
inductive ScriptChunk where
  | opcode (n : Nat)
  | buffer (bytes : List UInt8)

def getEncodingLength (data : Nat) : Nat :=
  if data < OP_PUSHDATA1 then 1 else if data ≤ 0xff then 2 else if data ≤ 0xffff then 3 else 5

def getMinimalOPCodes : List UInt8 → Option Nat
  | [] => some OP_0
  | [b] =>
      if 1 ≤ b.toNat ∧ b.toNat ≤ 16 then some (OP_RESERVED + b.toNat)
      else if b = 0x81 then some OP_1NEGATE
      else none
  | _ :: _ :: _ => none

/-- `encodeBuffer`: the buffer and the size. -/
def encodeBuffer (buffer : List UInt8) (number offset : Nat) : Option (List UInt8 × Nat) := do
  let size := getEncodingLength number
  if size = 1 then
    let buffer ← writeUInt8 buffer number offset
    return (buffer, size)
  else if size = 2 then
    let buffer ← writeUInt8 buffer OP_PUSHDATA1 offset
    let buffer ← writeUInt8 buffer number (offset + 1)
    return (buffer, size)
  else if size = 3 then
    let buffer ← writeUInt8 buffer OP_PUSHDATA2 offset
    let buffer ← writeUInt16LE buffer number (offset + 1)
    return (buffer, size)
  else
    let buffer ← writeUInt8 buffer OP_PUSHDATA4 offset
    let buffer ← writeUInt32LE buffer number (offset + 1)
    return (buffer, size)

/-- What a chunk adds to `bufferSize`. -/
def chunkSize : ScriptChunk → Nat
  | .opcode _ => 1
  | .buffer chunk =>
      if chunk.length = 1 ∧ (getMinimalOPCodes chunk).isSome then 1
      else getEncodingLength chunk.length + chunk.length

/-- One turn of the writing loop, over `buffer` and `offset`. -/
def encodeChunk (state : List UInt8 × Nat) : ScriptChunk → Option (List UInt8 × Nat)
  | .buffer chunk =>
      match getMinimalOPCodes chunk with
      | some opcode => do
          let buffer ← writeUInt8 state.1 opcode state.2
          return (buffer, state.2 + 1)
      | none => do
          let (buffer, size) ← encodeBuffer state.1 chunk.length state.2
          let offset := state.2 + size
          return (copyInto chunk buffer offset, offset + chunk.length)
  | .opcode n => do
      let buffer ← writeUInt8 state.1 n state.2
      return (buffer, state.2 + 1)

/-- `encodeChunks`; `memory` is what is allocated, byte by byte. -/
def encodeChunks (memory : Nat → UInt8) (chunks : List ScriptChunk) : Option (List UInt8) := do
  let bufferSize := (chunks.map chunkSize).sum
  let buffer := (List.range bufferSize).map memory
  let (buffer, offset) ← chunks.foldlM encodeChunk (buffer, 0)
  if offset ≠ buffer.length then none else some buffer

/-! ### What is written -/

/-- What a push begins with. -/
def pushPrefix (n : Nat) : List UInt8 :=
  if n < OP_PUSHDATA1 then leBytes 1 n
  else if n ≤ 0xff then leBytes 1 OP_PUSHDATA1 ++ leBytes 1 n
  else if n ≤ 0xffff then leBytes 1 OP_PUSHDATA2 ++ leBytes 2 n
  else leBytes 1 OP_PUSHDATA4 ++ leBytes 4 n

def ScriptChunk.text : ScriptChunk → List UInt8
  | .opcode n => leBytes 1 n
  | .buffer chunk =>
      match getMinimalOPCodes chunk with
      | some op => leBytes 1 op
      | none => pushPrefix chunk.length ++ chunk

/-- An opcode is a byte, and data have a length that can be written. -/
def ScriptChunk.Fits : ScriptChunk → Prop
  | .opcode n => n < 256
  | .buffer chunk => chunk.length < 2 ^ 32

theorem pushPrefix_cases (n : Nat) :
    (n < 76 ∧ getEncodingLength n = 1 ∧ pushPrefix n = leBytes 1 n) ∨
    (n ≤ 0xff ∧ getEncodingLength n = 2 ∧ pushPrefix n = leBytes 1 OP_PUSHDATA1 ++ leBytes 1 n) ∨
    (n ≤ 0xffff ∧ getEncodingLength n = 3 ∧ pushPrefix n = leBytes 1 OP_PUSHDATA2 ++ leBytes 2 n) ∨
    (getEncodingLength n = 5 ∧ pushPrefix n = leBytes 1 OP_PUSHDATA4 ++ leBytes 4 n) := by
  unfold getEncodingLength pushPrefix
  by_cases h1 : n < OP_PUSHDATA1
  · rw [if_pos h1, if_pos h1]
    exact .inl ⟨h1, rfl, rfl⟩
  · by_cases h2 : n ≤ 0xff
    · rw [if_neg h1, if_neg h1, if_pos h2, if_pos h2]
      exact .inr (.inl ⟨h2, rfl, rfl⟩)
    · by_cases h3 : n ≤ 0xffff
      · rw [if_neg h1, if_neg h1, if_neg h2, if_neg h2, if_pos h3, if_pos h3]
        exact .inr (.inr (.inl ⟨h3, rfl, rfl⟩))
      · rw [if_neg h1, if_neg h1, if_neg h2, if_neg h2, if_neg h3, if_neg h3]
        exact .inr (.inr (.inr ⟨rfl, rfl⟩))

theorem length_pushPrefix (n : Nat) : (pushPrefix n).length = getEncodingLength n := by
  obtain ⟨-, hsize, htext⟩ | ⟨-, hsize, htext⟩ | ⟨-, hsize, htext⟩ | ⟨hsize, htext⟩ :=
    pushPrefix_cases n
  all_goals
    rw [hsize, htext]
    rfl

theorem getMinimalOPCodes_lt {chunk : List UInt8} {opcode : Nat}
    (h : getMinimalOPCodes chunk = some opcode) : opcode < 256 ∧ chunk.length ≤ 1 := by
  match chunk, h with
  | [], h =>
      cases h
      exact ⟨by decide, Nat.zero_le 1⟩
  | [b], h =>
      rw [getMinimalOPCodes] at h
      split at h
      · next hb =>
          cases h
          refine ⟨?_, Nat.le_refl 1⟩
          rw [OP_RESERVED]
          omega
      · split at h
        · cases h
          exact ⟨by decide, Nat.le_refl 1⟩
        · cases h

theorem chunkSize_eq (c : ScriptChunk) : chunkSize c = c.text.length := by
  cases c with
  | opcode n => rfl
  | buffer chunk =>
      rw [chunkSize, ScriptChunk.text]
      cases hopcode : getMinimalOPCodes chunk with
      | some opcode =>
          have hle := (getMinimalOPCodes_lt hopcode).2
          split
          · rfl
          · next hne =>
              -- an empty chunk, counted as a push of nothing
              have hzero : chunk.length = 0 := by
                by_contra hlength
                exact hne ⟨by omega, rfl⟩
              rw [hzero]
              rfl
      | none =>
          rw [if_neg (by simp)]
          dsimp only
          rw [List.length_append, length_pushPrefix]

theorem writeMarked {number n code : Nat} (hcode : code < 256) (hnumber : number < 256 ^ n)
    (front rest : List UInt8) {old : List UInt8} (hold : old.length = n + 1) :
    ∃ marked, writeUInt8 (front ++ (old ++ rest)) code front.length = some marked ∧
      writeUIntLE n marked number (front.length + 1)
        = some (front ++ (leBytes 1 code ++ leBytes n number ++ rest)) := by
  obtain ⟨mark, field, rfl, hmark, hfield⟩ := split_at old (show 1 ≤ old.length by omega)
  have hfirst := writeUIntLE_append (n := 1) hcode front (field ++ rest) hmark
  have hsecond := writeUIntLE_append hnumber (front ++ leBytes 1 code) rest
    (show field.length = n by omega)
  rw [List.length_append, leBytes_length] at hsecond
  simp only [List.append_assoc] at hfirst hsecond ⊢
  exact ⟨_, hfirst, hsecond⟩

theorem encodeBuffer_append {number : Nat} (h : number < 2 ^ 32) (front rest : List UInt8)
    {old : List UInt8} (hold : old.length = getEncodingLength number) :
    encodeBuffer (front ++ (old ++ rest)) number front.length
      = some (front ++ (pushPrefix number ++ rest), getEncodingLength number) := by
  unfold encodeBuffer
  obtain ⟨hlt, hsize, htext⟩ | ⟨hle, hsize, htext⟩ | ⟨hle, hsize, htext⟩ | ⟨hsize, htext⟩ :=
    pushPrefix_cases number
  · rw [hsize] at hold
    have hwrite := writeUIntLE_append (show number < 256 ^ 1 by omega) front rest hold
    rw [hsize, htext, if_pos rfl, writeUInt8, hwrite]
    rfl
  · rw [hsize] at hold
    obtain ⟨marked, hfirst, hsecond⟩ := writeMarked (n := 1) (show OP_PUSHDATA1 < 256 by decide)
      (show number < 256 ^ 1 by omega) front rest hold
    rw [hsize, htext, if_neg (by decide), if_pos rfl, hfirst]
    change (writeUIntLE 1 marked number (front.length + 1)).bind _ = _
    rw [hsecond]
    rfl
  · rw [hsize] at hold
    obtain ⟨marked, hfirst, hsecond⟩ := writeMarked (n := 2) (show OP_PUSHDATA2 < 256 by decide)
      (show number < 256 ^ 2 by omega) front rest hold
    rw [hsize, htext, if_neg (by decide), if_neg (by decide), if_pos rfl, hfirst]
    change (writeUIntLE 2 marked number (front.length + 1)).bind _ = _
    rw [hsecond]
    rfl
  · rw [hsize] at hold
    obtain ⟨marked, hfirst, hsecond⟩ := writeMarked (n := 4) (show OP_PUSHDATA4 < 256 by decide)
      (show number < 256 ^ 4 by omega) front rest hold
    rw [hsize, htext, if_neg (by decide), if_neg (by decide), if_neg (by decide), hfirst]
    change (writeUIntLE 4 marked number (front.length + 1)).bind _ = _
    rw [hsecond]
    rfl

/-- One turn of the loop: the text of the chunk replaces what was there. -/
theorem encodeChunk_append {c : ScriptChunk} (h : c.Fits) (front rest : List UInt8) {old : List UInt8}
    (hold : old.length = chunkSize c) :
    encodeChunk (front ++ (old ++ rest), front.length) c
      = some (front ++ (c.text ++ rest), front.length + chunkSize c) := by
  cases c with
  | opcode n =>
      have hwrite := writeUIntLE_append (n := 1) (show n < 256 ^ 1 from h) front rest hold
      rw [encodeChunk, writeUInt8, hwrite]
      rfl
  | buffer chunk =>
      rw [chunkSize_eq] at hold ⊢
      rw [ScriptChunk.text] at hold ⊢
      rw [encodeChunk]
      cases hopcode : getMinimalOPCodes chunk with
      | some op =>
          simp only [hopcode] at hold ⊢
          have hlt := (getMinimalOPCodes_lt hopcode).1
          have hwrite := writeUIntLE_append (n := 1) hlt front rest hold
          rw [writeUInt8, hwrite]
          rfl
      | none =>
          simp only [hopcode] at hold ⊢
          rw [List.length_append, length_pushPrefix] at hold ⊢
          obtain ⟨oldPrefix, oldData, rfl, hprefix, hdata⟩ :=
            split_at old (show getEncodingLength chunk.length ≤ old.length by omega)
          have hfirst := encodeBuffer_append h front (oldData ++ rest) hprefix
          have hcopy := copyInto_append chunk (front ++ pushPrefix chunk.length) rest
            (show oldData.length = chunk.length by omega)
          rw [List.length_append, length_pushPrefix] at hcopy
          simp only [List.append_assoc] at hcopy ⊢
          rw [hfirst]
          change some (copyInto chunk _ (front.length + getEncodingLength chunk.length), _) = _
          rw [hcopy, Nat.add_assoc]

theorem foldlM_encodeChunk {chunks : List ScriptChunk} (h : ∀ c ∈ chunks, c.Fits) (front : List UInt8)
    {old : List UInt8} (hold : old.length = (chunks.map chunkSize).sum) :
    chunks.foldlM encodeChunk (front ++ old, front.length)
      = some (front ++ chunks.flatMap ScriptChunk.text, front.length + (chunks.map chunkSize).sum) := by
  induction chunks generalizing front old with
  | nil =>
      have hnil : old = [] := List.eq_nil_of_length_eq_zero hold
      subst hnil
      rfl
  | cons c chunks ih =>
      rw [List.map_cons, List.sum_cons] at hold ⊢
      obtain ⟨first, others, rfl, hfirst, hothers⟩ :=
        split_at old (show chunkSize c ≤ old.length by omega)
      have hstep := encodeChunk_append (h c List.mem_cons_self) front others hfirst
      have hrest := ih (fun d hd => h d (List.mem_cons_of_mem c hd)) (front ++ c.text)
        (show others.length = (chunks.map chunkSize).sum by omega)
      rw [List.length_append, ← chunkSize_eq] at hrest
      simp only [List.append_assoc] at hrest
      rw [List.foldlM_cons, hstep]
      change List.foldlM encodeChunk _ chunks = _
      rw [hrest, List.flatMap_cons, Nat.add_assoc]

/-- The size is exact: nothing is thrown, and every byte is written. -/
theorem encodeChunks_eq (memory : Nat → UInt8) {chunks : List ScriptChunk} (h : ∀ c ∈ chunks, c.Fits) :
    encodeChunks memory chunks = some (chunks.flatMap ScriptChunk.text) := by
  have hsum : (chunks.flatMap ScriptChunk.text).length = (chunks.map chunkSize).sum := by
    rw [List.length_flatMap]
    congr 1
    apply List.map_congr_left
    intro c _
    exact (chunkSize_eq c).symm
  have hlength : ((List.range (chunks.map chunkSize).sum).map memory).length
      = (chunks.map chunkSize).sum := by
    rw [List.length_map, List.length_range]
  have hloop := foldlM_encodeChunk h [] hlength
  simp only [List.nil_append, List.length_nil, Nat.zero_add] at hloop
  rw [encodeChunks, hloop]
  change (if (chunks.map chunkSize).sum ≠ (chunks.flatMap ScriptChunk.text).length then none else
    some (chunks.flatMap ScriptChunk.text)) = _
  rw [if_neg (by rw [hsum]; simp)]

/-! ### What is read -/

/-- What a chunk pushes, or the operation it is. -/
def ScriptChunk.meaning : ScriptChunk → Op
  | .opcode n =>
      if n = OP_0 then .push []
      else if n = OP_1NEGATE then .push [0x81]
      else if 81 ≤ n ∧ n ≤ 96 then .push [UInt8.ofNat (n - 80)]
      else .code n
  | .buffer chunk => .push chunk

/-- Chunks of which no opcode is the front of a push. -/
def ScriptChunk.Readable : ScriptChunk → Prop
  | .opcode n => n = OP_0 ∨ (OP_1NEGATE ≤ n ∧ n < 256)
  | .buffer chunk => chunk.length < 2 ^ 32

theorem ScriptChunk.Readable.fits {c : ScriptChunk} (h : c.Readable) : c.Fits := by
  cases c with
  | opcode n =>
      rcases h with rfl | ⟨-, hn⟩
      · exact Nat.zero_lt_succ 255
      · exact hn
  | buffer chunk => exact h

theorem readOp_opcode {n : Nat} (h : OP_1NEGATE ≤ n) (hn : n < 256) (rest : List UInt8) :
    readOp (leBytes 1 n ++ rest) = some ((ScriptChunk.opcode n).meaning, rest) := by
  have hbyte : (UInt8.ofNat n).toNat = n := by
    rw [UInt8.toNat_ofNat', Nat.mod_eq_of_lt hn]
  have hne : n ≠ OP_0 := by
    rintro rfl
    exact absurd h (by decide)
  rw [OP_1NEGATE] at h
  change readOp (UInt8.ofNat n :: rest) = _
  rw [readOp, hbyte, if_neg (by omega), if_neg (by omega), if_neg (by omega), if_neg (by omega),
    ScriptChunk.meaning, if_neg hne, OP_1NEGATE]
  by_cases h79 : n = 79
  · rw [if_pos h79, if_pos h79]
  · rw [if_neg h79, if_neg h79]
    by_cases hsmall : 81 ≤ n ∧ n ≤ 96
    · rw [if_pos hsmall, if_pos hsmall]
    · rw [if_neg hsmall, if_neg hsmall]

theorem readOp_pushPrefix {chunk : List UInt8} (h : chunk.length < 2 ^ 32) (rest : List UInt8) :
    readOp (pushPrefix chunk.length ++ (chunk ++ rest)) = some (.push chunk, rest) := by
  obtain ⟨hlt, -, htext⟩ | ⟨hle, -, htext⟩ | ⟨hle, -, htext⟩ | ⟨-, htext⟩ :=
    pushPrefix_cases chunk.length
  · rw [htext]
    exact readOp_small (by omega) rest
  · have hread := readPush_append (show chunk.length < 256 ^ 1 by omega) rest
    rw [leText_eq_leBytes] at hread
    rw [htext, List.append_assoc]
    exact hread
  · have hread := readPush_append (show chunk.length < 256 ^ 2 by omega) rest
    rw [leText_eq_leBytes] at hread
    rw [htext, List.append_assoc]
    exact hread
  · have hread := readPush_append (show chunk.length < 256 ^ 4 by omega) rest
    rw [leText_eq_leBytes] at hread
    rw [htext, List.append_assoc]
    exact hread

theorem readOp_minimal {chunk : List UInt8} {op : Nat} (h : getMinimalOPCodes chunk = some op)
    (rest : List UInt8) : readOp (leBytes 1 op ++ rest) = some (.push chunk, rest) := by
  match chunk, h with
  | [], h =>
      cases h
      exact readOp_small (show ([] : List UInt8).length ≤ 75 from Nat.zero_le 75) rest
  | [b], h =>
      rw [getMinimalOPCodes] at h
      split at h
      · next hb =>
          cases h
          have hle : OP_1NEGATE ≤ OP_RESERVED + b.toNat := by
            rw [OP_1NEGATE, OP_RESERVED]
            omega
          have hlt : OP_RESERVED + b.toNat < 256 := by
            rw [OP_RESERVED]
            omega
          have hpush : UInt8.ofNat (OP_RESERVED + b.toNat - 80) = b := by
            rw [OP_RESERVED, Nat.add_sub_cancel_left, UInt8.ofNat_toNat]
          rw [readOp_opcode hle hlt, ScriptChunk.meaning, hpush,
            if_neg (by rw [OP_RESERVED, OP_0]; omega),
            if_neg (by rw [OP_RESERVED, OP_1NEGATE]; omega),
            if_pos (by rw [OP_RESERVED]; omega)]
      · split at h
        · next hb =>
            cases h
            rw [hb]
            rfl
        · cases h

theorem readOp_text {c : ScriptChunk} (h : c.Readable) (rest : List UInt8) :
    readOp (c.text ++ rest) = some (c.meaning, rest) := by
  cases c with
  | opcode n =>
      rcases h with rfl | ⟨hle, hn⟩
      · exact readOp_small (show ([] : List UInt8).length ≤ 75 from Nat.zero_le 75) rest
      · exact readOp_opcode hle hn rest
  | buffer chunk =>
      rw [ScriptChunk.text]
      cases hop : getMinimalOPCodes chunk with
      | some op => exact readOp_minimal hop rest
      | none =>
          rw [List.append_assoc]
          exact readOp_pushPrefix h rest

theorem readScript_chunks {chunks : List ScriptChunk} (h : ∀ c ∈ chunks, c.Readable) :
    readScript (chunks.flatMap ScriptChunk.text) = some (chunks.map ScriptChunk.meaning) :=
  readScript_flatMap fun c hc => readOp_text (h c hc)

/-- **Script round trip.**  Whatever was in the allocated memory, the chunks are
encoded without an error and are read back one by one. -/
theorem encodeChunks_readScript (memory : Nat → UInt8) {chunks : List ScriptChunk}
    (h : ∀ c ∈ chunks, c.Readable) :
    ∃ script, encodeChunks memory chunks = some script ∧
      readScript script = some (chunks.map ScriptChunk.meaning) :=
  ⟨_, encodeChunks_eq memory fun c hc => (h c hc).fits, readScript_chunks h⟩

/-- Data of every kind of length: none, small numbers, one byte, a long push. -/
theorem encodeChunks_readScript_mixed :
    ∃ script, encodeChunks (fun _ => 7) [.opcode OP_DUP, .buffer [], .buffer [5], .buffer [0x81],
        .buffer [0x80], .buffer (List.replicate 300 1)] = some script ∧
      readScript script = some [.code OP_DUP, .push [], .push [5], .push [0x81], .push [0x80],
        .push (List.replicate 300 1)] :=
  encodeChunks_readScript (fun _ => 7) (by
    intro c hc
    simp only [List.mem_cons, List.not_mem_nil, or_false] at hc
    rcases hc with rfl | rfl | rfl | rfl | rfl | rfl
    · exact .inr (by decide)
    · exact Nat.two_pow_pos 32
    · exact (by decide : 1 < 2 ^ 32)
    · exact (by decide : 1 < 2 ^ 32)
    · exact (by decide : 1 < 2 ^ 32)
    · exact List.length_replicate.trans_lt (by decide : 300 < 2 ^ 32))

/-! ## Addresses -/

/-- The libraries: `bs58check.decode`, `bech32.decode` (prefix and words),
`bech32.fromWords`, and two functions of `bchaddrjs`. -/
structure AddressLib where
  decodeBase58 : Str → Option (List UInt8)
  decodeBech32 : Str → Option (Str × List Nat)
  fromWords : List Nat → Option (List UInt8)
  isCashAddress : Str → Bool
  toLegacyAddress : Str → Str

/-- The parts of `configMainnet` and `configTestnet` that addresses need. -/
structure Network where
  bech32 : Str
  pubKeyHash : Nat
  scriptHash : Nat
  coin : Option Str

/-- `a || b` of numbers. -/
def orElse (a b : Nat) : Nat := if a = 0 then b else a

/-- `network.bech32 || 'bc'`. -/
def Network.bech32Prefix (network : Network) : Str :=
  if network.bech32 = [] then "bc".toList else network.bech32

/-- The kinds `encodeAddress` knows. -/
inductive AddressType where
  | pubkey
  | script
  | witnesspubkey
  | witnessscript

def addressChunks (address : List UInt8) : AddressType → List ScriptChunk
  | .pubkey => [.opcode OP_DUP, .opcode OP_HASH160, .buffer address, .opcode OP_EQUALVERIFY,
      .opcode OP_CHECKSIG]
  | .script => [.opcode OP_HASH160, .buffer address, .opcode OP_EQUAL]
  | .witnesspubkey => [.opcode OP_0, .buffer address]
  | .witnessscript => [.opcode OP_0, .buffer address]

section
variable (memory : Nat → UInt8) (lib : AddressLib)

def encodeAddress (address : List UInt8) (type : AddressType) : Option (List UInt8) :=
  encodeChunks memory (addressChunks address type)

/-- Version and hash; throws for a payload of another length. -/
def decodeBase58Address (address : Str) : Option (Nat × List UInt8) := do
  let payload ← lib.decodeBase58 address
  if payload.length < 21 then none
  else if payload.length > 22 then none
  else
    let version := if payload.length = 22
      then (payload.getD 0 0).toNat * 256 + (payload.getD 1 0).toNat else (payload.getD 0 0).toNat
    return (version, payload.drop (if payload.length = 22 then 2 else 1))

/-- Prefix and data; the version is not looked at. -/
def decodeBech32Address (address : Str) : Option (Str × List UInt8) := do
  let payload ← lib.decodeBech32 address
  let data ← lib.fromWords (payload.2.drop 1)
  return (payload.1, data)

/-- The first `try` of `decodeAddress`: `none` where it throws or falls through. -/
def tryBase58 (address : Str) (network : Network) : Option (List UInt8) := do
  let decoded ← decodeBase58Address lib address
  if decoded.1 = network.pubKeyHash then encodeAddress memory decoded.2 .pubkey
  else if decoded.1 = orElse network.scriptHash 0x05 then encodeAddress memory decoded.2 .script
  else none

/-- The second. -/
def tryBech32 (address : Str) (network : Network) : Option (List UInt8) := do
  let decoded ← decodeBech32Address lib address
  if decoded.1 ≠ network.bech32Prefix then none
  else if decoded.2.length = 20 then encodeAddress memory decoded.2 .witnesspubkey
  else if decoded.2.length = 32 then encodeAddress memory decoded.2 .witnessscript
  else none

def decodeAddress (address : Str) (network : Network) : Option (List UInt8) :=
  tryBase58 memory lib address network <|> tryBech32 memory lib address network

def addressToScript (addr : Str) (network : Network) : Option (List UInt8) :=
  if network.coin = some "bch".toList ∧ lib.isCashAddress addr then
    decodeAddress memory lib (lib.toLegacyAddress addr) network
  else if network.coin.isSome then decodeAddress memory lib addr network
  else (decodeBase58Address lib addr).bind fun decoded => encodeAddress memory decoded.2 .pubkey

end

/-- The operations of a standard script over a hash. -/
inductive Standard : List Op → Prop where
  | pubkey {h : List UInt8} : h.length = 20 → Standard [.code OP_DUP, .code OP_HASH160, .push h,
      .code OP_EQUALVERIFY, .code OP_CHECKSIG]
  | script {h : List UInt8} : h.length = 20 →
      Standard [.code OP_HASH160, .push h, .code OP_EQUAL]
  | witness {h : List UInt8} : h.length = 20 ∨ h.length = 32 → Standard [.push [], .push h]

section
variable {memory : Nat → UInt8} {lib : AddressLib}

theorem addressChunks_readable {address : List UInt8} (h : address.length < 2 ^ 32)
    (type : AddressType) : ∀ c ∈ addressChunks address type, c.Readable := by
  have hcode {n : Nat} (hn : OP_1NEGATE ≤ n ∧ n < 256) : (ScriptChunk.opcode n).Readable := .inr hn
  cases type with
  | pubkey =>
      intro c hc
      simp only [addressChunks, List.mem_cons, List.not_mem_nil, or_false] at hc
      rcases hc with rfl | rfl | rfl | rfl | rfl
      · exact hcode (by decide)
      · exact hcode (by decide)
      · exact h
      · exact hcode (by decide)
      · exact hcode (by decide)
  | script =>
      intro c hc
      simp only [addressChunks, List.mem_cons, List.not_mem_nil, or_false] at hc
      rcases hc with rfl | rfl | rfl
      · exact hcode (by decide)
      · exact h
      · exact hcode (by decide)
  | witnesspubkey =>
      intro c hc
      simp only [addressChunks, List.mem_cons, List.not_mem_nil, or_false] at hc
      rcases hc with rfl | rfl
      · exact .inl rfl
      · exact h
  | witnessscript =>
      intro c hc
      simp only [addressChunks, List.mem_cons, List.not_mem_nil, or_false] at hc
      rcases hc with rfl | rfl
      · exact .inl rfl
      · exact h

theorem encodeAddress_eq {address : List UInt8} (h : address.length < 2 ^ 32) (type : AddressType) :
    encodeAddress memory address type = some ((addressChunks address type).flatMap ScriptChunk.text) :=
  encodeChunks_eq memory fun c hc => (addressChunks_readable h type c hc).fits

theorem readScript_address {address : List UInt8} (h : address.length < 2 ^ 32)
    (type : AddressType) :
    readScript ((addressChunks address type).flatMap ScriptChunk.text)
      = some ((addressChunks address type).map ScriptChunk.meaning) :=
  readScript_chunks (addressChunks_readable h type)

/-- A base58 payload is a version of one or two bytes and twenty bytes. -/
theorem decodeBase58Address_length {address : Str} {decoded : Nat × List UInt8}
    (h : decodeBase58Address lib address = some decoded) : decoded.2.length = 20 := by
  obtain ⟨payload, -, h⟩ := Option.bind_eq_some_iff.mp h
  dsimp only at h
  split at h
  · cases h
  · split at h
    · cases h
    · cases h
      rw [List.length_drop]
      split <;> omega

/-- What `encodeAddress` is called with. -/
def IsHash (type : AddressType) (address : List UInt8) : Prop :=
  match type with
  | .pubkey | .script => address.length = 20
  | .witnesspubkey | .witnessscript => address.length = 20 ∨ address.length = 32

theorem IsHash.cases {type : AddressType} {address : List UInt8} (h : IsHash type address) :
    address.length = 20 ∨ address.length = 32 := by
  cases type with
  | pubkey => exact .inl h
  | script => exact .inl h
  | witnesspubkey => exact h
  | witnessscript => exact h

theorem length_hash_text {type : AddressType} {address : List UInt8} (h : IsHash type address) :
    (ScriptChunk.buffer address).text.length = address.length + 1 := by
  have hlength := h.cases
  have hsize : getEncodingLength address.length = 1 := by
    rw [getEncodingLength, if_pos (by rw [OP_PUSHDATA1]; omega)]
  rw [← chunkSize_eq, chunkSize, if_neg (by omega), hsize, Nat.add_comm]

/-- A script that spends as an address says, and is no longer than one is. -/
structure StandardScript (script : List UInt8) : Prop where
  reads : ∃ ops, readScript script = some ops ∧ Standard ops
  length : script.length ≤ 34

theorem standardScript_of_encode {address script : List UInt8} {type : AddressType}
    (h : encodeAddress memory address type = some script) (hhash : IsHash type address) :
    StandardScript script := by
  have hlength := hhash.cases
  have htext := length_hash_text hhash
  rw [encodeAddress_eq (by omega)] at h
  cases h
  refine ⟨⟨_, readScript_address (by omega) type, ?_⟩, ?_⟩
  · cases type with
    | pubkey => exact .pubkey hhash
    | script => exact .script hhash
    | witnesspubkey => exact .witness hhash
    | witnessscript => exact .witness hhash
  · have hcode (n : Nat) : (ScriptChunk.opcode n).text.length = 1 := rfl
    cases type with
    | pubkey =>
        change address.length = 20 at hhash
        simp only [addressChunks, List.flatMap_cons, List.flatMap_nil, List.length_append, hcode,
          htext, List.length_nil]
        omega
    | script =>
        change address.length = 20 at hhash
        simp only [addressChunks, List.flatMap_cons, List.flatMap_nil, List.length_append, hcode,
          htext, List.length_nil]
        omega
    | witnesspubkey =>
        simp only [addressChunks, List.flatMap_cons, List.flatMap_nil, List.length_append, hcode,
          htext, List.length_nil]
        omega
    | witnessscript =>
        simp only [addressChunks, List.flatMap_cons, List.flatMap_nil, List.length_append, hcode,
          htext, List.length_nil]
        omega

theorem tryBase58_standard {address : Str} {network : Network} {script : List UInt8}
    (h : tryBase58 memory lib address network = some script) : StandardScript script := by
  obtain ⟨decoded, hdecode, h⟩ := Option.bind_eq_some_iff.mp h
  have hlength := decodeBase58Address_length hdecode
  split at h
  · exact standardScript_of_encode h hlength
  · split at h
    · exact standardScript_of_encode h hlength
    · cases h

theorem tryBech32_standard {address : Str} {network : Network} {script : List UInt8}
    (h : tryBech32 memory lib address network = some script) : StandardScript script := by
  obtain ⟨decoded, -, h⟩ := Option.bind_eq_some_iff.mp h
  split at h
  · cases h
  · split at h
    · next hlength =>
        exact standardScript_of_encode h (show IsHash .witnesspubkey _ from .inl hlength)
    · split at h
      · next hlength =>
          exact standardScript_of_encode h (show IsHash .witnessscript _ from .inr hlength)
      · cases h

theorem decodeAddress_standard {address : Str} {network : Network} {script : List UInt8}
    (h : decodeAddress memory lib address network = some script) : StandardScript script := by
  rw [decodeAddress] at h
  cases hbase : tryBase58 memory lib address network with
  | some first =>
      rw [hbase] at h
      cases h
      exact tryBase58_standard hbase
  | none =>
      rw [hbase] at h
      exact tryBech32_standard h

/-- Whatever the libraries make of a text: an address the pool takes is paid with a
standard script, of at most 34 bytes. -/
theorem addressToScript_standard {addr : Str} {network : Network} {script : List UInt8}
    (h : addressToScript memory lib addr network = some script) : StandardScript script := by
  unfold addressToScript at h
  split at h
  · exact decodeAddress_standard h
  · split at h
    · exact decodeAddress_standard h
    · obtain ⟨decoded, hdecode, h⟩ := Option.bind_eq_some_iff.mp h
      exact standardScript_of_encode h (decodeBase58Address_length hdecode)

end

end DogeConnect
