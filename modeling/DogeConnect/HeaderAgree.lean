/-
The block header, as the miner's solution is checked and as the pool rebuilds it.

The dispatcher hashes `fullHeader`: the parts of the task it parsed from a
`mining.notify` around the parts of a solution.  The pool rebuilds its header
from the template and the hex strings of the `mining.submit`.  Between the two
stand two changes of language and five byte orders:

    previous hash    word-swapped and reversed by the pool, word-swapped again here
    version, nBits   big-endian hex, read little-endian
    nTime, nonce     little-endian bytes, printed reversed, reversed with the header
    merkle root      branch by branch here, the whole tree there

`parseTask_parameters` says what the dispatcher makes of the pool's parameters,
`headerBuffer_submit` what the pool makes of the dispatcher's strings, and
`header_agrees` that the headers are equal when the solution carries the root
of its own extra nonce.
-/
import DogeConnect.Pool
import DogeConnect.TaskPacket
import DogeConnect.ShareValid

namespace DogeConnect

/-! ## Byte order -/

theorem words_induction {P : Nat → List UInt8 → Prop} (nil : P 0 [])
    (word : ∀ words a b c d rest, rest.length = 4 * words → P words rest →
      P (words + 1) (a :: b :: c :: d :: rest)) :
    ∀ {words : Nat} {bs : List UInt8}, bs.length = 4 * words → P words bs
  | 0, bs, h => by
      have : bs = [] := List.eq_nil_of_length_eq_zero h
      exact this ▸ nil
  | words + 1, a :: b :: c :: d :: rest, h => by
      have hrest : rest.length = 4 * words := by
        simp only [List.length_cons] at h
        omega
      exact word words a b c d rest hrest (words_induction nil word hrest)
  | words + 1, [], h => by simp at h
  | words + 1, [_], h => by simp only [List.length_singleton] at h; omega
  | words + 1, [_, _], h => by simp only [List.length_cons, List.length_nil] at h; omega
  | words + 1, [_, _, _], h => by simp only [List.length_cons, List.length_nil] at h; omega

theorem swapWords_eq {words : Nat} {bs : List UInt8} (h : bs.length = 4 * words) :
    swapWords words bs = some (wordSwap bs) := by
  refine words_induction (P := fun words bs => swapWords words bs = some (wordSwap bs)) rfl ?_ h
  intro words a b c d rest _ ih
  rw [swapWords, ih, wordSwap]
  rfl

theorem wordSwap_append {words : Nat} {bs : List UInt8} (more : List UInt8)
    (h : bs.length = 4 * words) : wordSwap (bs ++ more) = wordSwap bs ++ wordSwap more := by
  refine words_induction (P := fun _ bs => wordSwap (bs ++ more) = wordSwap bs ++ wordSwap more)
    rfl ?_ h
  intro words a b c d rest _ ih
  simp only [List.cons_append, wordSwap, ih]

theorem wordSwap_reverse_wordSwap {words : Nat} {bs : List UInt8} (h : bs.length = 4 * words) :
    wordSwap (wordSwap bs).reverse = bs.reverse := by
  refine words_induction (P := fun _ bs => wordSwap (wordSwap bs).reverse = bs.reverse) rfl ?_ h
  intro words a b c d rest hrest ih
  have hfront : (wordSwap rest).reverse.length = 4 * words := by simp [hrest]
  calc wordSwap (wordSwap (a :: b :: c :: d :: rest)).reverse
      = wordSwap ((wordSwap rest).reverse ++ [a, b, c, d]) := by simp [wordSwap]
    _ = wordSwap (wordSwap rest).reverse ++ [d, c, b, a] := wordSwap_append _ hfront
    _ = rest.reverse ++ [d, c, b, a] := by rw [ih]
    _ = (a :: b :: c :: d :: rest).reverse := by simp

/-! ## The task from the pool's parameters -/

theorem mapM_branches (steps : List (List UInt8)) :
    (steps.map fun step => Json.string (toHex step)).mapM
        (fun branch => do return hexToBytes (← branch.getString) .BigEndian)
      = (.ok steps : Except JsonError (List (List UInt8))) := by
  induction steps with
  | nil => rfl
  | cons step steps ih =>
      have hstep : hexToBytes (toHex step) .BigEndian = step := hexToBytes_bytesToHex step .BigEndian
      simp only [List.map_cons, List.mapM_cons, ih, Json.getString_string]
      simp only [bind, pure, Except.bind, Except.pure, hstep]

section
variable (lib : MerkleLib) (doubleSHA256 : List UInt8 → ByteArr 32)

/-- What the dispatcher parses from the job parameters of a well-formed template. -/
structure ParsedTemplate (job : Template) (extraNonce1 : List UInt8) (diff : DifficultyTarget)
    (task : DispatcherMiningTask) : Prop where
  taskId : task.taskId = job.jobId
  partialHeader : task.partialHeader.toList
    = leBytes 4 job.rpcData.version.toNat ++ (bufferFromHex job.rpcData.previousblockhash).reverse
  nBits : task.nBits.toList = (bufferFromHex job.rpcData.bits).reverse
  targetPool : task.targetPool = diff.fullRep
  extraNonce1 : task.extraNonce1 = extraNonce1
  coinbase1 : task.coinbase1 = job.generation.1
  coinbase2 : task.coinbase2 = job.generation.2
  merkleBranches : task.merkleBranches = job.steps lib doubleSHA256

theorem parseTask_parameters {job : Template} (h : job.WellFormed) {cleanJobs : Bool}
    {params : List Json} (hparams : job.handleParameters lib doubleSHA256 cleanJobs = some params)
    (extraNonce1 : List UInt8) (diff : DifficultyTarget) :
    ∃ p, parseTask (.array params) extraNonce1 diff = .ok (some p) ∧
      ParsedTemplate lib doubleSHA256 job extraNonce1 diff p.dispatcherTask := by
  have hprev : (bufferFromHex job.rpcData.previousblockhash).length = 4 * 8 := by
    rw [bufferFromHex_length h.previous_hex, h.previous_length]
  simp only [Template.handleParameters, bind, Option.bind_eq_some_iff, pure] at hparams
  obtain ⟨previous, hprevious, version, hversion, curtime, hcurtime, hparams⟩ := hparams
  cases hparams
  -- the previous hash comes word-swapped and reversed
  have hswapped : previous = toHex (wordSwap (bufferFromHex job.rpcData.previousblockhash)).reverse := by
    rw [Template.previous, reverseByteOrder, swapWords_eq hprev] at hprevious
    exact (Option.some.inj hprevious).symm
  have hprevHash : wordSwap (hexToBytes previous .BigEndian)
      = (bufferFromHex job.rpcData.previousblockhash).reverse := by
    rw [hswapped, hexToBytes, toHex, hexPairs_flatMap, wordSwap_reverse_wordSwap hprev]
  have hversionBytes : hexToBytes (toHex version) .LittleEndian
      = leBytes 4 job.rpcData.version.toNat := by
    rw [packInt32BE] at hversion
    split at hversion
    · cases hversion
      have hmod : (job.rpcData.version % 2 ^ 32).toNat = job.rpcData.version.toNat := by
        have := h.version_nonneg
        have := h.version_lt
        omega
      rw [hexToBytes, toHex, hexPairs_flatMap, bigEndian32, List.reverse_reverse, hmod]
    · cases hversion
  have hcurtimeLength : (hexToBytes (toHex curtime) .LittleEndian).length = 4 := by
    simp [packUInt32BE_length hcurtime]
  have hnbits : hexToBytes job.rpcData.bits .LittleEndian = (bufferFromHex job.rpcData.bits).reverse := by
    rw [hexToBytes, hexPairs_eq_bufferFromHex h.bits_hex]
  have hbits : (bufferFromHex job.rpcData.bits).length = 4 := by
    rw [bufferFromHex_length h.bits_hex, h.bits_length]
  have hsizes : ¬ ((hexToBytes (toHex version) .LittleEndian).length ≠ 4 ∨
      (wordSwap (hexToBytes previous .BigEndian)).length ≠ 32 ∨
      (hexToBytes (toHex curtime) .LittleEndian).length ≠ 4 ∨
      (hexToBytes job.rpcData.bits .LittleEndian).length ≠ 4) := by
    simp [hversionBytes, hprevHash, hprev, hcurtimeLength, hnbits, hbits]
  simp only [parseTask, stringParam, Json.constIndex, List.getElem?_cons_succ,
    List.getElem?_cons_zero, Json.getString_string, except_ok_bind]
  rw [if_neg hsizes]
  simp only [Json.elements, mapM_branches, except_ok_bind]
  exact ⟨_, rfl, {
    taskId := rfl
    partialHeader := by
      dsimp only
      rw [hversionBytes, hprevHash]
      exact ByteArr.copy_toList (by simp [hprev])
    nBits := by
      dsimp only
      rw [hnbits]
      exact ByteArr.copy_toList (by simp [hbits])
    targetPool := rfl
    extraNonce1 := rfl
    coinbase1 := hexToBytes_bytesToHex _ .BigEndian
    coinbase2 := hexToBytes_bytesToHex _ .BigEndian
    merkleBranches := rfl }⟩

/-! ## The header from the dispatcher's strings -/

/-- The pool reads a submission back from the message the dispatcher sends. -/
theorem ofMessage_submit (extraNonce1 : Str) (workerName : Str) (id : UInt64)
    (task : DispatcherMiningTask) (sol : DispatcherMiningSolution) :
    Submission.ofMessage extraNonce1 (submitMessage workerName id task sol) = .ok {
      extraNonce1 := extraNonce1
      extraNonce2 := toHex sol.extraNonce2.toList
      nTime := toHex sol.nTime.toList.reverse
      nonce := toHex sol.nonce.toList.reverse } := rfl

theorem foldl_calculateMerkleRoot (branches : List (List UInt8)) (hash : ByteArr 32) :
    (branches.foldl (fun currentHash branch => doubleSHA256 (currentHash.toList ++ branch)) hash).toList
      = branches.foldl (combineWith (sha256d doubleSHA256)) hash.toList := by
  induction branches generalizing hash with
  | nil => rfl
  | cons branch branches ih => exact ih _

/-- The pool's header is the task's parts around the root the dispatcher's
`calculateMerkleRoot` gives for the submitted extraNonce2. -/
theorem headerBuffer_submit (hlib : lib.Correct) {job : Template} (h : job.WellFormed)
    {extraNonce1 : List UInt8} {diff : DifficultyTarget} {task : DispatcherMiningTask}
    (htask : ParsedTemplate lib doubleSHA256 job extraNonce1 diff task)
    (sol : DispatcherMiningSolution) :
    headerBuffer lib doubleSHA256 job {
        extraNonce1 := toHex extraNonce1
        extraNonce2 := toHex sol.extraNonce2.toList
        nTime := toHex sol.nTime.toList.reverse
        nonce := toHex sol.nonce.toList.reverse }
      = some (task.partialHeader.toList
          ++ (calculateMerkleRoot doubleSHA256 task.coinbase1 task.coinbase2 task.extraNonce1
            sol.extraNonce2.toList task.merkleBranches).toList
          ++ sol.nTime.toList ++ task.nBits.toList ++ sol.nonce.toList) := by
  have hroot : lib.fastRoot
        (sha256d doubleSHA256 (job.handleCoinbase extraNonce1 sol.extraNonce2.toList)
          :: convertHashToBuffer job.rpcData.transactions) (sha256d doubleSHA256)
      = (calculateMerkleRoot doubleSHA256 task.coinbase1 task.coinbase2 task.extraNonce1
          sol.extraNonce2.toList task.merkleBranches).toList := by
    rw [fastRoot_eq hlib, calculateMerkleRoot, foldl_calculateMerkleRoot, htask.coinbase1,
      htask.coinbase2, htask.extraNonce1, htask.merkleBranches]
    rfl
  simp only [headerBuffer, bufferFromHex_toHex, hroot]
  rw [handleHeader_eq h (ByteArr.length _) (by simp) (by simp), List.reverse_reverse,
    List.reverse_reverse, htask.partialHeader, htask.nBits]

theorem field_params (method : Str) (params : List Json) :
    (stratumNotification method params).field "params".toList = .ok (.array params) := rfl

/-- A call of `distributeTask` that stores a task stores the parsed one. -/
theorem distributeTask_stores {signTaskPacket : List UInt8 → ByteArr 64} {params : List Json}
    {extraNonce1 : List UInt8} {diff : DifficultyTarget} {p : ParsedTask}
    (hparse : parseTask (.array params) extraNonce1 diff = .ok (some p)) {st st' : DistState}
    {propagate : Bool} {now : UInt64} {sent : SentTask}
    (h : distributeTask signTaskPacket (stratumNotification "mining.notify".toList params) st diff
      extraNonce1 propagate now = .ok (st', some sent)) :
    st'.activeTasks.get now = some p.dispatcherTask := by
  obtain ⟨params', cleanJobQueue, hparams, -, hprepare, hactive⟩ := distributeTask_some _ h
  rw [field_params] at hparams
  cases hparams
  have hsent := (prepareTask_ready _ hprepare).1
  rw [hparse] at hsent
  cases hsent
  rw [hactive, ConcurrentHashMap.get_insert_self]

/-- **The headers agree.**  For a well-formed template, whatever its
transactions: the job parameters the pool builds are parsed to a task, which is
what `distributeTask` stores; and for every solution that carries the merkle
root of its own extraNonce2 the header the dispatcher hashes is the one the
pool builds from the submitted strings. -/
theorem header_agrees (hlib : lib.Correct) {job : Template} (h : job.WellFormed)
    {cleanJobs : Bool} {params : List Json}
    (hparams : job.handleParameters lib doubleSHA256 cleanJobs = some params)
    (extraNonce1 : List UInt8) (diff : DifficultyTarget) :
    ∃ p, parseTask (.array params) (hexToBytes (toHex extraNonce1) .BigEndian) diff = .ok (some p) ∧
      (∀ signTaskPacket st propagate now st' sent,
        distributeTask signTaskPacket (stratumNotification "mining.notify".toList params) st diff
          (hexToBytes (toHex extraNonce1) .BigEndian) propagate now = .ok (st', some sent) →
        st'.activeTasks.get now = some p.dispatcherTask) ∧
      ∀ (sol : DispatcherMiningSolution) (workerName : Str) (id : UInt64),
        sol.merkleRoot = calculateMerkleRoot doubleSHA256 p.dispatcherTask.coinbase1
          p.dispatcherTask.coinbase2 p.dispatcherTask.extraNonce1 sol.extraNonce2.toList
          p.dispatcherTask.merkleBranches →
        ∃ submission, Submission.ofMessage (toHex extraNonce1)
            (submitMessage workerName id p.dispatcherTask sol) = .ok submission ∧
          sizeError submission = none ∧ (fullHeader p.dispatcherTask sol).length = 80 ∧
          headerBuffer lib doubleSHA256 job submission = some (fullHeader p.dispatcherTask sol) := by
  have hextra : hexToBytes (toHex extraNonce1) .BigEndian = extraNonce1 :=
    hexToBytes_bytesToHex extraNonce1 .BigEndian
  rw [hextra]
  obtain ⟨p, hparse, htask⟩ := parseTask_parameters lib doubleSHA256 h hparams extraNonce1 diff
  refine ⟨p, hparse, fun _ _ _ _ _ _ h => distributeTask_stores hparse h, ?_⟩
  intro sol workerName id hroot
  refine ⟨_, ofMessage_submit _ _ _ _ _, ?_, fullHeader_length _ _, ?_⟩
  · simp [sizeError, extraNonce2Size]
  · rw [headerBuffer_submit lib doubleSHA256 hlib h htask, ← hroot]
    rfl

end

/-- A tree library on the first leaf: it keeps the leaves and computes the proof
and the root from them. -/
def firstLeafMerkle : MerkleLib where
  Tree := List (List UInt8) × (List UInt8 → List UInt8)
  merkleTree leaves digest := (leaves, digest)
  merkleProof tree leaf := match tree.1 with
    | first :: rest => if first = leaf then Merkle.firstProof (combineWith tree.2) first rest else []
    | [] => []
  fastRoot leaves digest := (Merkle.rootOf (combineWith digest) leaves).getD []

theorem firstLeafMerkle_correct : firstLeafMerkle.Correct where
  fastRoot digest leaf rest := by
    simp only [firstLeafMerkle, Merkle.rootOf_eq_foldl, Option.getD_some]
  merkleProof digest leaf rest := by simp [firstLeafMerkle]

/-- A template without symmetric fields, with two transactions. -/
def sampleTemplate : Template where
  jobId := "1f".toList
  rpcData := {
    previousblockhash := "000102030405060708090a0b0c0d0e0f101112131415161718191a1b1c1d1e1f".toList
    bits := "1a01b2c3".toList
    version := 0x00620104
    curtime := 0x698da47c
    transactions := [
      ⟨some "a0a1a2a3a4a5a6a7a8a9aaabacadaeafb0b1b2b3b4b5b6b7b8b9babbbcbdbebf".toList, []⟩,
      ⟨none, "c0c1c2c3".toList⟩] }
  generation := ([0x01, 0x02, 0x03], [0x04, 0x05])

theorem sampleTemplate_wellFormed : sampleTemplate.WellFormed where
  previous_hex := by decide
  previous_length := by decide
  bits_hex := by decide
  bits_length := by decide
  version_nonneg := by decide
  version_lt := by decide

theorem header_agrees_sample :
    ∃ params p, sampleTemplate.handleParameters firstLeafMerkle (ByteArr.copy 32) true = some params ∧
      parseTask (.array params) (hexToBytes (toHex [0xde, 0xad]) .BigEndian) poolBaseDifficulty
        = .ok (some p) ∧
      ∃ sol submission, sol.extraNonce2 = ⟨[1, 2, 3, 4, 5, 6, 7, 8], rfl⟩ ∧
        Submission.ofMessage (toHex [0xde, 0xad]) (submitMessage "w".toList 3 p.dispatcherTask sol)
          = .ok submission ∧
        headerBuffer firstLeafMerkle (ByteArr.copy 32) sampleTemplate submission
          = some (fullHeader p.dispatcherTask sol) := by
  obtain ⟨p, hparse, -, hagree⟩ := header_agrees firstLeafMerkle (ByteArr.copy 32)
    firstLeafMerkle_correct sampleTemplate_wellFormed rfl [0xde, 0xad] poolBaseDifficulty
  obtain ⟨submission, hmessage, -, -, hheader⟩ := hagree {
      jobId := 1700000000000
      nTime := ⟨[0x7c, 0xa4, 0x8d, 0x69], rfl⟩
      nonce := ⟨[9, 8, 7, 6], rfl⟩
      merkleRoot := calculateMerkleRoot (ByteArr.copy 32) p.dispatcherTask.coinbase1
        p.dispatcherTask.coinbase2 p.dispatcherTask.extraNonce1 [1, 2, 3, 4, 5, 6, 7, 8]
        p.dispatcherTask.merkleBranches
      extraNonce2 := ⟨[1, 2, 3, 4, 5, 6, 7, 8], rfl⟩
      sourcePublicKey := ByteArr.fill 32 0 } "w".toList 3 rfl
  exact ⟨_, p, rfl, hparse, _, submission, rfl, hmessage, hheader⟩

end DogeConnect
