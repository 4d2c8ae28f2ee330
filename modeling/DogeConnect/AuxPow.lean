/-
What the pool submits to the auxiliary daemon.

`AuxProof` says when a submission belongs to its share.  Here its bytes are read
as a proof of merged mining: coinbase, branch and header of the parent chain, and
an auxiliary branch with nothing in it, since the pool mines for one chain.

    Origin              where the parts of a submission come from
    ties_of_belongs     a submission that belongs to its share is a proof
    auxPow_ties         over whole runs

The field for the parent's hash holds the hash of the work instead; it is read and
not used.
-/
import DogeConnect.PoolBlock
import DogeConnect.Lib.MergedProof

namespace DogeConnect

namespace AuxPool

/-- Where the parts of a submission come from, with a template, a time and the extra
nonces. -/
structure Origin (config : PoolConfig) (sub : AuxSubmission) (block : BlockTemplate) (now : Nat)
    (extraNonce : List UInt8) : Prop where
  job : sub.job.BuiltFrom config block now
  length : extraNonce.length = extraNoncePlaceholder.length
  coinbase : sub.coinbase = sub.job.generation.1 ++ extraNonce ++ sub.job.generation.2
  header : sub.header.length = 80
  hash : (bufferFromHex sub.hash).length = 32
  enabled : config.auxiliaryEnabled = true

/-- The extra nonce of a share is hex. -/
def HexNonce : ManagerEvent → Prop
  | .submit _ _ extraNonce2 _ _ _ => (bufferFromHex extraNonce2).length = 8
  | _ => True

section
variable {config : PoolConfig} {env : PoolEnv}

/-! ## One submission -/

theorem length_uint256BufferFromHash (hex : Str) : (uint256BufferFromHash hex).length = 32 := by
  rw [uint256BufferFromHash, reverseBuffer, List.length_reverse]
  split
  · exact ByteArr.length _
  · next h => exact not_not.mp h

theorem length_convertHashToBuffer {transactions : List Transaction} {hash : List UInt8}
    (h : hash ∈ convertHashToBuffer transactions) : hash.length = 32 := by
  obtain ⟨tx, -, rfl⟩ := List.mem_map.mp h
  split <;> exact length_uint256BufferFromHash _

/-- The steps are hashes, and no more than there are transactions. -/
theorem steps_hashes (hlib : env.lib.Correct) (transactions : List Transaction) :
    (∀ step ∈ getMerkleSteps env.lib env.doubleSHA256 transactions, step.length = 32) ∧
    (getMerkleSteps env.lib env.doubleSHA256 transactions).length ≤ transactions.length := by
  rw [getMerkleSteps_eq hlib env.doubleSHA256 transactions []]
  constructor
  · have hcombine (l r : List UInt8) :
        (combineWith (sha256d env.doubleSHA256) l r).length = 32 := ByteArr.length _
    intro step hstep
    exact Merkle.steps_all (P := fun s => s.length = 32) _ hcombine _ _
      (fun _ h => length_convertHashToBuffer h) step hstep
  · have hle := Merkle.length_steps_le (combineWith (sha256d env.doubleSHA256))
      (convertHashToBuffer transactions) []
    rwa [convertHashToBuffer, List.length_map] at hle

theorem exists_branch {steps : List (List UInt8)} (h : ∀ step ∈ steps, step.length = 32)
    (hcount : steps.length < 2 ^ 64) :
    ∃ branch : MergedProof.Branch, branch.1.map Subtype.val = steps ∧
      branch.text = steps.flatten ∧ branch.1.length = steps.length := by
  have hmap : (steps.attach.map fun s => (⟨s.1, h s.1 s.2⟩ : TxFormat.Bytes 32)).map Subtype.val
      = steps := by
    rw [List.map_map]
    exact List.attach_map_subtype_val steps
  refine ⟨⟨steps.attach.map fun s => ⟨s.1, h s.1 s.2⟩, ?_⟩, hmap, ?_, ?_⟩
  · rw [List.length_map, List.length_attach]
    exact hcount
  · rw [MergedProof.Branch.text, List.flatMap_def, hmap]
  · rw [List.length_map, List.length_attach]

theorem scriptSig_of_belongs {sub : AuxSubmission} {block : BlockTemplate} {now : Nat}
    {extraNonce script : List UInt8} (horigin : Origin config sub block now extraNonce)
    (hbelongs : Belongs config env sub)
    (hscript : scriptSig config block now extraNoncePlaceholder = some script) :
    ∃ front, script = front ++ auxCommitment config sub.hash := by
  obtain ⟨auxData, hjob, -, front, hfront⟩ := hbelongs.committed
  have hkeeps := Job.new_some horigin.job
  have haux : block.auxData = some auxData := hkeeps.auxData ▸ hjob
  obtain ⟨front', hcommits⟩ := scriptSig_commits horigin.enabled haux hscript
  obtain ⟨front'', hends⟩ := handleGeneration_commits horigin.enabled haux hkeeps.generation
  rw [hends] at hfront
  have hsame := commitment_inj auxData.hash_length horigin.hash hfront
  exact ⟨front', by rw [hcommits, auxCommitment_congr hsame]⟩

variable {payout : Payout}

theorem ties_of_belongs (hlib : env.lib.Correct) {sub : AuxSubmission} {block : BlockTemplate}
    {now : Nat} {extraNonce : List UInt8} (horigin : Origin config sub block now extraNonce)
    (hbelongs : Belongs config env sub) {data : RewardData}
    (houtputs : config.outputs block = payout.generationEnd data)
    (hs : Storable config payout block data now extraNoncePlaceholder)
    (hcount : block.rpcData.transactions.length < 2 ^ 64) :
    ∃ p, MergedProof.proof.decode sub.auxPow = some (p, []) ∧
      MergedProof.Ties (sha256d env.doubleSHA256) (bufferFromHex config.coinHeader)
        (bufferFromHex sub.hash) p ∧
      p.header.1 = sub.header ∧
      Generated config payout block data now extraNoncePlaceholder extraNonce p.coinbase := by
  have hkeeps := Job.new_some horigin.job
  obtain ⟨coinbase, hencode, hgenerated⟩ := generation_encodes houtputs hs hkeeps.generation
    horigin.length
  have hcoinbase : sub.coinbase = TxFormat.tx.encode coinbase := by
    rw [hencode, horigin.coinbase]
  have hsteps : sub.steps = getMerkleSteps env.lib env.doubleSHA256 block.rpcData.transactions := by
    rw [hbelongs.steps, Template.steps, hkeeps.rpcData]
  obtain ⟨hhashes, hle⟩ := steps_hashes hlib block.rpcData.transactions
  rw [← hsteps] at hhashes hle
  obtain ⟨branch, hnodes, htext, hlength⟩ := exists_branch hhashes (by omega)
  let p : MergedProof.Proof := {
    coinbase := coinbase
    parentHash := ⟨sub.headerHash.toList, ByteArr.length _⟩
    branch := branch
    index := ⟨0, by decide⟩
    chainBranch := ⟨[], by decide⟩
    chainIndex := ⟨0, by decide⟩
    header := ⟨sub.header, horigin.header⟩ }
  have hbytes : sub.auxPow = MergedProof.proof.encode p := by
    rw [MergedProof.encode_proof, MergedProof.encode_branch, MergedProof.encode_branch]
    simp only [AuxSubmission.auxPow, p, hcoinbase, htext, hlength, varIntBuffer_eq, packUInt32LE,
      leText_eq_leBytes, List.append_assoc, List.length_nil]
    rfl
  have hstrip : coinbase.strip = coinbase := strip_of_noWitness hgenerated.noWitness
  obtain ⟨input, hins, -, -, -, script, hscript, hinput⟩ := hgenerated.input
  obtain ⟨front, hfront⟩ := scriptSig_of_belongs horigin hbelongs hscript
  refine ⟨p, ?_, ?_, rfl, hgenerated⟩
  · have hdecode := MergedProof.proof.decode_encode p []
    rwa [List.append_nil, ← hbytes] at hdecode
  · refine {
      first := rfl
      parent := ?_
      committed := ⟨input, ?_, front, 0, extraNonce, ?_⟩
      slot := Nat.one_pos }
    · have hroot := hbelongs.root
      rw [hcoinbase] at hroot
      change MergedProof.climb _ 0 _ branch.1 = headerRoot sub.header
      rw [MergedProof.climb_zero, hnodes, hroot, hstrip]
      rfl
    · change coinbase.ins.head? = some input
      rw [hins]
      rfl
    · change input.script.1 = front ++ (bufferFromHex config.coinHeader
        ++ (bufferFromHex sub.hash).reverse.reverse ++ TxFormat.leText 4 1 ++ TxFormat.leText 4 0)
        ++ extraNonce
      rw [hinput, hfront, List.reverse_reverse, leText_eq_leBytes, leText_eq_leBytes]
      rfl

/-! ## Runs -/

/-- Every submission has an origin. -/
def AllOrigin (config : PoolConfig) (s : AuxPool) : Prop :=
  ∀ sub ∈ s.sent, ∃ block now extraNonce, Origin config sub block now extraNonce

/-- What is sent for a share with hex extra nonces, whose job was built from a template. -/
theorem origin_of_built (hlib : env.lib.Correct) {pool : PoolState} {e : ManagerEvent}
    (hhex : HexNonce e) {shareData : ShareData}
    (hshare : (pool.handleEvent config env e).2 = some (.accepted shareData))
    {block : BlockTemplate} {now : Nat} (hjob : shareData.job.BuiltFrom config block now)
    {auxData : AuxData} (hwins : checkAuxiliary config pool shareData = some auxData)
    {sub : AuxSubmission} (hsub : submitAuxiliary env pool auxData shareData = some sub) :
    ∃ extraNonce, Origin config sub block now extraNonce := by
  obtain ⟨client, jobId, extraNonce2, nTime, nonce, submitTime, rfl, hpassed⟩ :=
    handleEvent_accepted hshare
  obtain ⟨currentJob, -, rfl⟩ := Option.map_eq_some_iff.mp hsub
  have henabled : config.auxiliaryEnabled = true := by
    by_contra hdisabled
    simp [checkAuxiliary, hdisabled] at hwins
  refine ⟨client.extraNonce1.toList ++ bufferFromHex extraNonce2, {
    job := hjob
    length := ?_
    coinbase := ?_
    header := handleHeader_length (fastRoot_length hlib _ _) hpassed.header
    hash := auxData.hash_length
    enabled := henabled }⟩
  · rw [List.length_append, ByteArr.length]
    exact congrArg (4 + ·) hhex
  · change shareData.coinbase = _
    rw [hpassed.coinbase, coinbaseBuffer, Template.handleCoinbase, submissionOf,
      bufferFromHex_toHex]
    simp only [List.append_assoc]

theorem origin_of_share (hlib : env.lib.Correct) {pool : PoolState}
    (hbuilt : pool.manager.Built config) {e : ManagerEvent} (hhex : HexNonce e)
    {shareData : ShareData} (hshare : (pool.handleEvent config env e).2 = some (.accepted shareData))
    {auxData : AuxData} (hwins : checkAuxiliary config pool shareData = some auxData)
    {sub : AuxSubmission} (hsub : submitAuxiliary env pool auxData shareData = some sub) :
    ∃ block now extraNonce, Origin config sub block now extraNonce := by
  obtain ⟨client, jobId, extraNonce2, nTime, nonce, submitTime, rfl, hpassed⟩ :=
    handleEvent_accepted hshare
  obtain ⟨block, now, hjob⟩ := hbuilt shareData.job (.inr ⟨jobId, hpassed.job⟩)
  exact ⟨block, now, origin_of_built hlib hhex hshare hjob hwins hsub⟩

theorem allOrigin_step (hlib : env.lib.Correct) (s : AuxPool) (e : ManagerEvent) (s' : AuxPool)
    (hbuilt : s.pool.manager.Built config) (h : AllOrigin config s) (hhex : HexNonce e)
    (hstep : step config env s e = some s') : AllOrigin config s' := by
  cases hstep
  intro sub hsub
  rcases List.mem_append.mp hsub with hsub | hsub
  · exact h sub hsub
  · obtain ⟨shareData, auxData, hshare, hwins, hsub⟩ := auxiliaryOf_some (Option.mem_toList.mp hsub)
    exact origin_of_share hlib hbuilt hhex hshare hwins hsub

/-- What holds of every state of a run whose shares are hex and find the pool with the
data of their jobs. -/
structure Sound (config : PoolConfig) (env : PoolEnv) (s : AuxPool) : Prop where
  built : s.pool.manager.Built config
  belong : AllBelong config env s
  origin : AllOrigin config s

theorem sound_step (hlib : env.lib.Correct) (s : AuxPool) (e : ManagerEvent) (s' : AuxPool)
    (h : Sound config env s) (hok : Matching config env s e ∧ HexNonce e)
    (hstep : step config env s e = some s') : Sound config env s' where
  built := built_step s e s' h.built hstep
  belong := (allBelong_step hlib s e s' h.built h.belong hstep).mpr hok.1
  origin := allOrigin_step hlib s e s' h.built h.origin hok.2 hstep

end

end AuxPool

end DogeConnect
