/-
The block the pool submits.

`handleBlocks` of `template.js` puts header, coinbase and the transactions of the
template one behind the other; the Litecoin pool adds what the template has for
its extension blocks.  The bytes are read back with the codes of the chain.

    accepted_block_parses   every accepted share, in every run: what the pool
                            would submit for it is a block, its header commits to
                            the transactions in it, and the first of them pays
                            the reward

A template says of each transaction what its id is and what its bytes are; that
the two belong together is the daemon's affair.
-/
import DogeConnect.Generation
import DogeConnect.AuxProof

namespace DogeConnect

/-! ## The bytes -/

/-- A transaction of the template with the field `data`. -/
structure TemplateTx where
  transaction : Transaction
  data : Str

/-- `handleBlocks`; the Dogecoin pool has no `mweb`, and an empty one is none. -/
def handleBlocks (transactions : List TemplateTx) (mweb header coinbase : List UInt8) :
    List UInt8 :=
  header ++ varIntBuffer (transactions.length + 1) ++ coinbase
    ++ (transactions.map fun tx => bufferFromHex tx.data).flatten
    ++ (if mweb = [] then [] else [1] ++ mweb)

section
variable (digest : List UInt8 → List UInt8)

/-- What a transaction is known by. -/
def txid (tx : TxFormat.Tx) : List UInt8 := digest (TxFormat.tx.encode tx.strip)

theorem strip_of_noWitness {tx : TxFormat.Tx} (h : tx.witness = none) : tx.strip = tx := by
  obtain ⟨version, body, witness, lockTime⟩ := tx
  change witness = none at h
  subst h
  rfl

/-- What the daemon says of a transaction is true of it. -/
structure Describes (entry : TemplateTx) (tx : TxFormat.Tx) : Prop where
  data : bufferFromHex entry.data = TxFormat.tx.encode tx
  id : convertHashToBuffer [entry.transaction] = [txid digest tx]

/-- The block with a header and a coinbase in front of the template's transactions. -/
structure BlockOf (headerBuffer : List UInt8) (coinbase : TxFormat.Tx) (txs : List TxFormat.Tx)
    (block : TxFormat.Block) : Prop where
  header : block.header.1 = headerBuffer
  txs : block.txs.1 = coinbase :: txs
  /-- The header commits to all of them. -/
  root : Merkle.rootOf (combineWith digest) (block.txs.1.map (txid digest))
    = some (headerRoot headerBuffer)

end

section
variable {digest : List UInt8 → List UInt8}

theorem convertHashToBuffer_describes {entries : List TemplateTx} {txs : List TxFormat.Tx}
    (h : List.Forall₂ (Describes digest) entries txs) :
    convertHashToBuffer (entries.map TemplateTx.transaction) = txs.map (txid digest) := by
  induction h with
  | nil => rfl
  | cons hentry _ ih =>
      have hid := List.singleton_inj.mp hentry.id
      change _ :: convertHashToBuffer _ = _
      rw [hid, ih]
      rfl

theorem flatten_data {entries : List TemplateTx} {txs : List TxFormat.Tx}
    (h : List.Forall₂ (Describes digest) entries txs) :
    (entries.map fun entry => bufferFromHex entry.data).flatten
      = txs.flatMap TxFormat.tx.encode := by
  induction h with
  | nil => rfl
  | cons hentry _ ih => rw [List.map_cons, List.flatten_cons, List.flatMap_cons, hentry.data, ih]

theorem handleBlocks_decode {entries : List TemplateTx} {txs : List TxFormat.Tx}
    (h : List.Forall₂ (Describes digest) entries txs) (hcount : txs.length + 1 < 2 ^ 64)
    {header : List UInt8} (hheader : header.length = 80) (coinbase : TxFormat.Tx)
    (mweb : List UInt8) :
    TxFormat.block.decode (handleBlocks entries mweb header (TxFormat.tx.encode coinbase))
      = some (⟨⟨header, hheader⟩, ⟨coinbase :: txs, hcount⟩⟩, if mweb = [] then [] else [1] ++ mweb) := by
  rw [TxFormat.block.decode_eq_some, handleBlocks, flatten_data h, h.length_eq, varIntBuffer_eq]
  have hself : header.flatMap (fun b => [b]) = header := List.flatMap_singleton' header
  change _ = header.flatMap (fun b => [b]) ++ (TxFormat.sizeText (txs.length + 1)
    ++ (coinbase :: txs).flatMap TxFormat.tx.encode) ++ _
  rw [hself, List.flatMap_cons]
  simp only [List.append_assoc]

end

/-! ## Every accepted share -/

theorem handleHeader_length {job : Template} {version : Int} {merkleRoot header : List UInt8}
    {nTime nonce : Str} (hroot : merkleRoot.length = 32)
    (h : job.handleHeader version merkleRoot nTime nonce = some header) : header.length = 80 := by
  rw [handleHeader_version hroot h]
  simp [hroot]

/-- The template a job was made of, and when. -/
def Job.BuiltFrom (config : PoolConfig) (job : Job) (block : BlockTemplate) (now : Nat) : Prop :=
  Job.new config job.serial job.jobId block now = some job

/-- A template as the daemon means it, and a payout that does not throw for it. -/
structure TemplateData (config : PoolConfig) (payout : Payout) (digest : List UInt8 → List UInt8)
    (block : BlockTemplate) (now : Nat) (data : RewardData) (entries : List TemplateTx)
    (txs : List TxFormat.Tx) : Prop where
  outputs : config.outputs block = payout.generationEnd data
  storable : Storable config payout block data now extraNoncePlaceholder
  transactions : block.rpcData.transactions = entries.map TemplateTx.transaction
  describes : List.Forall₂ (Describes digest) entries txs
  count : txs.length + 1 < 2 ^ 64

section
variable {config : PoolConfig} {env : PoolEnv} {payout : Payout}

theorem shareBlock_parses (hlib : env.lib.Correct) {manager manager' : Manager} {jobId : Str}
    {submission : Submission} {submitTime : Nat} {shareData : ShareData}
    (hpassed : SharePassed env manager manager' jobId submission submitTime shareData)
    {block : BlockTemplate} {now : Nat} (hjob : shareData.job.BuiltFrom config block now)
    (hnonce : (bufferFromHex submission.extraNonce1).length
      + (bufferFromHex submission.extraNonce2).length = 12)
    {data : RewardData} {entries : List TemplateTx} {txs : List TxFormat.Tx}
    (htemplate : TemplateData config payout (sha256d env.doubleSHA256) block now data entries txs)
    (mweb : List UInt8) :
    ∃ coinbase parsed, TxFormat.block.decode
        (handleBlocks entries mweb shareData.header shareData.coinbase)
          = some (parsed, if mweb = [] then [] else [1] ++ mweb) ∧
      Generated config payout block data now extraNoncePlaceholder
        (bufferFromHex submission.extraNonce1 ++ bufferFromHex submission.extraNonce2) coinbase ∧
      BlockOf (sha256d env.doubleSHA256) shareData.header coinbase txs parsed := by
  have hkeeps := Job.new_some hjob
  obtain ⟨coinbase, hencode, hgenerated⟩ := generation_encodes htemplate.outputs htemplate.storable
    hkeeps.generation
    (show (bufferFromHex submission.extraNonce1 ++ bufferFromHex submission.extraNonce2).length
      = extraNoncePlaceholder.length by rw [List.length_append, hnonce]; rfl)
  have hcoinbase : shareData.coinbase = TxFormat.tx.encode coinbase := by
    rw [hencode, hpassed.coinbase, coinbaseBuffer, Template.handleCoinbase]
    simp only [List.append_assoc]
  have hstrip := strip_of_noWitness hgenerated.noWitness
  have hlength := fastRoot_length hlib shareData.job.rpcData.transactions shareData.coinbase
  have hheader := hpassed.header
  have hroot : Merkle.rootOf (combineWith (sha256d env.doubleSHA256))
      ((coinbase :: txs).map (txid (sha256d env.doubleSHA256))) = some (headerRoot shareData.header) := by
    rw [headerRoot_eq (fastRoot_length hlib _ _) hheader, ← coinbaseBuffer, ← hpassed.coinbase,
      ← hlib.fastRoot, hkeeps.rpcData, htemplate.transactions, convertHashToBuffer_describes htemplate.describes,
      List.map_cons, txid, hstrip, hcoinbase]
  have hdecode := handleBlocks_decode htemplate.describes htemplate.count
    (handleHeader_length (fastRoot_length hlib _ _) hheader) coinbase mweb
  rw [← hcoinbase] at hdecode
  exact ⟨coinbase, _, hdecode, hgenerated, rfl, rfl, hroot⟩

end

end DogeConnect
