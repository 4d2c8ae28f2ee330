/-
The pools' job manager and their templates.

`manager.js` and the template part of `pool.js`, which the Dogecoin and the
Litecoin pool share line by line, and the coinbase of `transactions.js`.  A
daemon is asked through callbacks, so each function that asks one is written as
what its callback does with the reply.

The constructor of a template can throw, and so can the listeners that are told
of it.  `interface.js` catches both, and what comes behind them is not done.

    Job.new_some               what a template keeps of the reply it is built from
    handleGeneration_commits   where the coinbase commits to an auxiliary block
    handleTemplate_cases       a template is left alone or becomes the current job
    Built                      every job the manager knows was built from a template

What a template's outputs pay, and the texts that are logged, are left out.
-/
import DogeConnect.Pool
import Mathlib.Logic.Function.Basic

namespace DogeConnect

/-! ## The coinbase -/

/-- `x | 0` of a number that is not negative. -/
def toInt32 (x : Nat) : Int := Int.bmod x (2 ^ 32)

theorem bmod_natCast_le (x m : Nat) : Int.bmod x m ≤ x := by
  have hmod : (x : Int) % m ≤ x := by exact_mod_cast Nat.mod_le x m
  rw [Int.bmod_def]
  split
  · exact hmod
  · omega

theorem toInt32_le (x : Nat) : toInt32 x ≤ x := bmod_natCast_le x (2 ^ 32)

theorem toInt32_eq {x : Nat} (h : x < 2 ^ 31) : toInt32 x = x := by
  have hdef := Int.bmod_def x (2 ^ 32)
  unfold toInt32
  omega

/-- What `serializeNumber` writes behind the length, in a buffer with some room left:
`n >>= 8` makes a signed 32-bit number of `n` first, and `writeUInt8` refuses what is
negative. -/
def numberBytes : Nat → Int → Option (List UInt8)
  | 0, _ => none
  | room + 1, n =>
      if 0x7f < n then
        (numberBytes room (Int.bmod n (2 ^ 32) / 256)).map (UInt8.ofNat (n % 256).toNat :: ·)
      else if 0 ≤ n then some [UInt8.ofNat n.toNat]
      else none

/-- `serializeNumber`. -/
def serializeNumber (n : Int) : Option (List UInt8) :=
  if 1 ≤ n ∧ n ≤ 16 then some [UInt8.ofNat (0x50 + n.toNat)]
  else (numberBytes 8 n).map fun bytes => UInt8.ofNat bytes.length :: bytes

/-- `packUInt32LE`, of a number that has four bytes. -/
def packUInt32LE (num : Nat) : List UInt8 := leBytes 4 num

/-- `varIntBuffer`. -/
def varIntBuffer (n : Nat) : List UInt8 :=
  if n < 0xfd then [UInt8.ofNat n]
  else if n ≤ 0xffff then 0xfd :: leBytes 2 n
  else if n ≤ 0xffffffff then 0xfe :: packUInt32LE n
  else 0xff :: leBytes 8 n

/-- `_this.auxiliary.rpcData`: the reply of `getauxblock`, with the target as a
number.  The hash is that of a block. -/
structure AuxData where
  hash : Str
  height : Nat
  target : Nat
  hash_length : (bufferFromHex hash).length = 32
  deriving DecidableEq

/-- A reply of `getblocktemplate`, and the auxiliary data `handlePrimaryTemplate`
puts into it.  `txVersion` is four bytes of the daemon's coinbase, or 1. -/
structure BlockTemplate where
  rpcData : RpcData
  target : Option Str
  height : Nat
  txVersion : UInt32
  flags : Str
  auxData : Option AuxData
  deriving DecidableEq

/-- `outputs` is the second part of the generation transaction, which the
configured addresses decide, if it can be made. -/
structure PoolConfig where
  auxiliaryEnabled : Bool
  coinHeader : Str
  outputs : BlockTemplate → Option (List UInt8)

def extraNoncePlaceholder : List UInt8 := bufferFromHex "f000000ff111111ff222222f".toList

/-- What the script of a coinbase says about an auxiliary block. -/
def auxCommitment (config : PoolConfig) (hash : Str) : List UInt8 :=
  bufferFromHex config.coinHeader ++ bufferFromHex hash ++ packUInt32LE 1 ++ packUInt32LE 0

/-- `scriptSig` of `handleGeneration`; `now` is the clock in seconds. -/
def scriptSig (config : PoolConfig) (block : BlockTemplate) (now : Nat)
    (placeholder : List UInt8) : Option (List UInt8) := do
  let height ← serializeNumber block.height
  let time ← serializeNumber (toInt32 now)
  let scriptSig := height ++ bufferFromHex block.flags ++ time ++ [UInt8.ofNat placeholder.length]
  match config.auxiliaryEnabled, block.auxData with
  | true, some auxData => return scriptSig ++ auxCommitment config auxData.hash
  | _, _ => return scriptSig

theorem scriptSig_some {config : PoolConfig} {block : BlockTemplate} {now : Nat}
    {placeholder script : List UInt8} (h : scriptSig config block now placeholder = some script) :
    ∃ height time commitment, serializeNumber block.height = some height ∧
      serializeNumber (toInt32 now) = some time ∧
      script = height ++ bufferFromHex block.flags ++ time ++ [UInt8.ofNat placeholder.length]
        ++ commitment ∧
      (commitment = [] ∨ ∃ auxData, block.auxData = some auxData ∧
        commitment = auxCommitment config auxData.hash) := by
  obtain ⟨height, hheight, h⟩ := Option.bind_eq_some_iff.mp h
  obtain ⟨time, htime, h⟩ := Option.bind_eq_some_iff.mp h
  refine ⟨height, time, ?_⟩
  dsimp only at h
  split at h
  · next auxData _ haux =>
      cases h
      exact ⟨_, hheight, htime, rfl, .inr ⟨auxData, haux, rfl⟩⟩
  · cases h
    exact ⟨[], hheight, htime, (List.append_nil _).symm, .inl rfl⟩

/-- The first part of the generation transaction. -/
def generationStart (block : BlockTemplate) (scriptSig placeholder : List UInt8) : List UInt8 :=
  packUInt32LE block.txVersion.toNat
    ++ varIntBuffer 1
    ++ uint256BufferFromHash []
    ++ packUInt32LE (2 ^ 32 - 1)
    ++ varIntBuffer (scriptSig.length + placeholder.length)
    ++ scriptSig

/-- `handleGeneration`. -/
def handleGeneration (config : PoolConfig) (block : BlockTemplate) (now : Nat)
    (placeholder : List UInt8) : Option (List UInt8 × List UInt8) := do
  let scriptSig ← scriptSig config block now placeholder
  let p2 ← config.outputs block
  return (generationStart block scriptSig placeholder, p2)

theorem handleGeneration_some {config : PoolConfig} {block : BlockTemplate} {now : Nat}
    {placeholder : List UInt8} {generation : List UInt8 × List UInt8}
    (h : handleGeneration config block now placeholder = some generation) :
    ∃ script, scriptSig config block now placeholder = some script ∧
      config.outputs block = some generation.2 ∧
      generation.1 = generationStart block script placeholder := by
  obtain ⟨script, hscript, h⟩ := Option.bind_eq_some_iff.mp h
  obtain ⟨p2, hp2, h⟩ := Option.bind_eq_some_iff.mp h
  cases h
  exact ⟨script, hscript, hp2, rfl⟩

/-- With auxiliary data the script ends in the commitment to its hash. -/
theorem scriptSig_commits {config : PoolConfig} (henabled : config.auxiliaryEnabled = true)
    {block : BlockTemplate} {auxData : AuxData} (haux : block.auxData = some auxData) {now : Nat}
    {placeholder script : List UInt8} (h : scriptSig config block now placeholder = some script) :
    ∃ front, script = front ++ auxCommitment config auxData.hash := by
  obtain ⟨height, -, h⟩ := Option.bind_eq_some_iff.mp h
  obtain ⟨time, -, h⟩ := Option.bind_eq_some_iff.mp h
  simp only [henabled, haux] at h
  cases h
  exact ⟨_, rfl⟩

theorem handleGeneration_commits {config : PoolConfig} (henabled : config.auxiliaryEnabled = true)
    {block : BlockTemplate} {auxData : AuxData} (haux : block.auxData = some auxData) {now : Nat}
    {placeholder : List UInt8} {generation : List UInt8 × List UInt8}
    (h : handleGeneration config block now placeholder = some generation) :
    ∃ front, generation.1 = front ++ auxCommitment config auxData.hash := by
  obtain ⟨script, hscript, -, hfirst⟩ := handleGeneration_some h
  obtain ⟨front, rfl⟩ := scriptSig_commits henabled haux hscript
  rw [hfirst, generationStart, ← List.append_assoc]
  exact ⟨_, rfl⟩

/-! ## Jobs -/

/-- `bufferToBigInt`: there is no number without digits. -/
def bufferToBigInt (buffer : List UInt8) : Option Nat :=
  if buffer.isEmpty then none else some (leVal buffer.reverse)

/-- `bigIntFromBitsHex`: `readUInt8` needs a byte, and the exponent is not negative. -/
def bigIntFromBitsHex (bitsString : Str) : Option Nat :=
  match bufferFromHex bitsString with
  | [] => none
  | numBytes :: bitsBuff => do
      let bigBits ← bufferToBigInt bitsBuff
      if numBytes.toNat < 3 then none else return bigBits * 2 ^ (8 * (numBytes.toNat - 3))

/-- `this.target`. -/
def BlockTemplate.targetValue (block : BlockTemplate) : Option Nat :=
  match block.target with
  | none | some [] => bigIntFromBitsHex block.rpcData.bits
  | some digits =>
      if digits.all fun c => (hexVal c).isSome then
        some (Digits.horner 16 0 (digits.map hexVal).reduceOption)
      else none

/-- A template as the manager keeps it: what jobs are sent and checked with, and
what it was built from.  Ids come back, so `serial` tells two objects apart. -/
structure Job extends Template where
  serial : Nat
  target : Nat
  height : Nat
  auxData : Option AuxData
  deriving DecidableEq

/-- `new Template(jobId, config, rpcData, placeholder)`, if it does not throw. -/
def Job.new (config : PoolConfig) (serial : Nat) (jobId : Str) (block : BlockTemplate) (now : Nat) :
    Option Job := do
  let target ← block.targetValue
  -- `this.previous` is computed from the block again where it is used
  let _ ← reverseByteOrder (bufferFromHex block.rpcData.previousblockhash)
  let generation ← handleGeneration config block now extraNoncePlaceholder
  return {
    jobId := jobId
    rpcData := block.rpcData
    generation := generation
    serial := serial
    target := target
    height := block.height
    auxData := block.auxData }

/-- What a template keeps. -/
structure Job.Keeps (config : PoolConfig) (serial : Nat) (jobId : Str) (block : BlockTemplate)
    (now : Nat) (job : Job) : Prop where
  jobId : job.jobId = jobId
  rpcData : job.rpcData = block.rpcData
  generation : handleGeneration config block now extraNoncePlaceholder = some job.generation
  serial : job.serial = serial
  target : block.targetValue = some job.target
  height : job.height = block.height
  auxData : job.auxData = block.auxData
  previous : job.previous.isSome = true

theorem Job.new_some {config : PoolConfig} {serial : Nat} {jobId : Str} {block : BlockTemplate}
    {now : Nat} {job : Job} (h : Job.new config serial jobId block now = some job) :
    Job.Keeps config serial jobId block now job := by
  obtain ⟨target, htarget, h⟩ := Option.bind_eq_some_iff.mp h
  obtain ⟨previous, hprevious, h⟩ := Option.bind_eq_some_iff.mp h
  obtain ⟨generation, hgeneration, h⟩ := Option.bind_eq_some_iff.mp h
  cases h
  exact {
    jobId := rfl
    rpcData := rfl
    generation := hgeneration
    serial := rfl
    target := htarget
    height := rfl
    auxData := rfl
    previous := by rw [Template.previous, hprevious]; rfl }

/-- Whether the constructor throws depends neither on the id nor on the object. -/
theorem Job.new_isSome (config : PoolConfig) (serial serial' : Nat) (jobId jobId' : Str)
    (block : BlockTemplate) (now : Nat) :
    (Job.new config serial jobId block now).isSome
      = (Job.new config serial' jobId' block now).isSome := by
  unfold Job.new
  cases block.targetValue with
  | none => rfl
  | some target =>
      cases reverseByteOrder (bufferFromHex block.rpcData.previousblockhash) with
      | none => rfl
      | some previous =>
          cases handleGeneration config block now extraNoncePlaceholder with
          | none => rfl
          | some generation => rfl

/-- The constructor takes the template. -/
def BlockTemplate.Constructs (config : PoolConfig) (block : BlockTemplate) (now : Nat) : Bool :=
  (Job.new config 0 [] block now).isSome

/-- A job is what its constructor made of some template. -/
def Job.Built (config : PoolConfig) (job : Job) : Prop :=
  ∃ block now, Job.new config job.serial job.jobId block now = some job

/-- `handleParameters` does not throw. -/
def Job.hasParameters (job : Job) : Bool :=
  job.previous.isSome && (packInt32BE job.rpcData.version).isSome &&
    (packUInt32BE job.rpcData.curtime).isSome

theorem Job.hasParameters_eq (job : Job) (lib : MerkleLib) (doubleSHA256 : List UInt8 → ByteArr 32)
    (cleanJobs : Bool) :
    job.hasParameters = (job.handleParameters lib doubleSHA256 cleanJobs).isSome := by
  unfold Job.hasParameters Template.handleParameters
  cases job.previous with
  | none => rfl
  | some previous =>
      cases packInt32BE job.rpcData.version with
      | none => rfl
      | some version =>
          cases packUInt32BE job.rpcData.curtime with
          | none => rfl
          | some curtime => rfl

theorem Job.hasParameters_iff {job : Job} (hprevious : job.previous.isSome = true) :
    job.hasParameters = true ↔
      (-(2 ^ 31) ≤ job.rpcData.version ∧ job.rpcData.version < 2 ^ 31) ∧
      (0 ≤ job.rpcData.curtime ∧ job.rpcData.curtime < 2 ^ 32) := by
  have hversion : (packInt32BE job.rpcData.version).isSome = true ↔
      -(2 ^ 31) ≤ job.rpcData.version ∧ job.rpcData.version < 2 ^ 31 := by
    simp only [packInt32BE, Option.isSome_ite]
  have hcurtime : (packUInt32BE job.rpcData.curtime).isSome = true ↔
      0 ≤ job.rpcData.curtime ∧ job.rpcData.curtime < 2 ^ 32 := by
    simp [packUInt32BE, writeUInt32BE]
  rw [Job.hasParameters, hprevious, Bool.true_and, Bool.and_eq_true, hversion, hcurtime]

/-! ## The manager -/

/-- The lists of submissions belong to the template objects; here they stand
beside them, by serial. -/
structure Manager where
  currentJob : Option Job
  validJobs : Str → Option Job
  jobCounter : Nat
  templates : Nat
  submissions : Nat → List Str

namespace Manager

def initial : Manager where
  currentJob := none
  validJobs := fun _ => none
  jobCounter := 0
  templates := 0
  submissions := fun _ => []

/-- `jobCounter.next`; the id is the counter in hex. -/
def nextCounter (counter : Nat) : Nat :=
  if (counter + 1) % 0xffff = 0 then 1 else counter + 1

/-- The job a template becomes next. -/
def nextJob (manager : Manager) (config : PoolConfig) (block : BlockTemplate) (now : Nat) :
    Option Job :=
  Job.new config manager.templates (Nat.toDigits 16 (nextCounter manager.jobCounter)) block now

theorem nextJob_isSome (manager : Manager) (config : PoolConfig) (block : BlockTemplate)
    (now : Nat) : (manager.nextJob config block now).isSome = block.Constructs config now :=
  Job.new_isSome ..

/-- `handleUpdates`, and whether it returns: the current job is replaced, the earlier ones
stay valid.  `emit` says for a template whether the listeners that are told of it return. -/
def handleUpdates (manager : Manager) (config : PoolConfig) (block : BlockTemplate) (now : Nat)
    (emit : Job → Bool) : Manager × Bool :=
  match manager.nextJob config block now with
  | none => ({ manager with jobCounter := nextCounter manager.jobCounter }, false)
  | some tmpTemplate =>
      let manager' := { manager with
        currentJob := some tmpTemplate
        jobCounter := nextCounter manager.jobCounter
        templates := manager.templates + 1
        submissions := Function.update manager.submissions tmpTemplate.serial [] }
      if emit tmpTemplate then
        ({ manager' with
          validJobs := Function.update manager.validJobs tmpTemplate.jobId (some tmpTemplate) }, true)
      else (manager', false)

/-- `isNewBlock` of `handleTemplate`. -/
def isNewBlock (currentJob : Option Job) (block : BlockTemplate) : Bool :=
  match currentJob with
  | none => true
  | some current => decide (current.height ≤ block.height) &&
      (current.rpcData.previousblockhash != block.rpcData.previousblockhash ||
        current.rpcData.bits != block.rpcData.bits)

/-- `handleTemplate`: whether the template was taken, if it returns. -/
def handleTemplate (manager : Manager) (config : PoolConfig) (block : BlockTemplate)
    (newBlock newBroadcast : Bool) (now : Nat) (emit : Job → Bool) : Manager × Option Bool :=
  if !isNewBlock manager.currentJob block && !newBlock then (manager, some false)
  else
    let manager := if newBroadcast then { manager with validJobs := fun _ => none } else manager
    let updated := manager.handleUpdates config block now emit
    (updated.1, if updated.2 then some true else none)

/-- The jobs that stay valid when a template is taken. -/
def keptJobs (manager : Manager) (newBroadcast : Bool) : Str → Option Job :=
  if newBroadcast then fun _ => none else manager.validJobs

theorem handleTemplate_cases (manager : Manager) (config : PoolConfig) (block : BlockTemplate)
    (newBlock newBroadcast : Bool) (now : Nat) (emit : Job → Bool) :
    (isNewBlock manager.currentJob block = false ∧ newBlock = false ∧
      manager.handleTemplate config block newBlock newBroadcast now emit = (manager, some false)) ∨
    ((isNewBlock manager.currentJob block = true ∨ newBlock = true) ∧
      manager.handleTemplate config block newBlock newBroadcast now emit
        = (({ manager with validJobs := manager.keptJobs newBroadcast }.handleUpdates config block
            now emit).1,
          if ({ manager with validJobs := manager.keptJobs newBroadcast }.handleUpdates config block
            now emit).2 then some true else none)) := by
  unfold handleTemplate keptJobs
  cases hnew : isNewBlock manager.currentJob block with
  | true => exact .inr ⟨.inl rfl, by cases newBroadcast <;> rfl⟩
  | false =>
      cases newBlock with
      | false => exact .inl ⟨rfl, rfl, by simp⟩
      | true => exact .inr ⟨.inr rfl, by cases newBroadcast <;> rfl⟩

/-- What an update leaves: its template throws, its listeners do, or it is a valid job. -/
inductive Updated (manager : Manager) (config : PoolConfig) (block : BlockTemplate) (now : Nat)
    (emit : Job → Bool) : Manager → Bool → Prop where
  | thrown (hnew : manager.nextJob config block now = none) :
      Updated manager config block now emit
        { manager with jobCounter := nextCounter manager.jobCounter } false
  | unlisted (job : Job) (hnew : manager.nextJob config block now = some job)
      (hemit : emit job = false) :
      Updated manager config block now emit
        { manager with
          currentJob := some job
          jobCounter := nextCounter manager.jobCounter
          templates := manager.templates + 1
          submissions := Function.update manager.submissions job.serial [] } false
  | listed (job : Job) (hnew : manager.nextJob config block now = some job)
      (hemit : emit job = true) :
      Updated manager config block now emit
        { currentJob := some job
          validJobs := Function.update manager.validJobs job.jobId (some job)
          jobCounter := nextCounter manager.jobCounter
          templates := manager.templates + 1
          submissions := Function.update manager.submissions job.serial [] } true

theorem updated_handleUpdates (manager : Manager) (config : PoolConfig) (block : BlockTemplate)
    (now : Nat) (emit : Job → Bool) :
    Updated manager config block now emit (manager.handleUpdates config block now emit).1
      (manager.handleUpdates config block now emit).2 := by
  unfold handleUpdates
  cases hnew : manager.nextJob config block now with
  | none => exact .thrown hnew
  | some job =>
      cases hemit : emit job with
      | false => simpa [hemit] using Updated.unlisted job hnew hemit
      | true => simpa [hemit] using Updated.listed job hnew hemit

/-- The jobs a share can be for, and the current one. -/
def Knows (manager : Manager) (job : Job) : Prop :=
  manager.currentJob = some job ∨ ∃ jobId, manager.validJobs jobId = some job

/-- Every job was built from a template. -/
def Built (config : PoolConfig) (manager : Manager) : Prop :=
  ∀ job, manager.Knows job → job.Built config

theorem initial_built (config : PoolConfig) : Built config initial := by
  rintro job (h | ⟨jobId, h⟩) <;> exact nomatch h

theorem nextJob_built {manager : Manager} {config : PoolConfig} {block : BlockTemplate} {now : Nat}
    {job : Job} (h : manager.nextJob config block now = some job) : job.Built config := by
  have hkeeps := Job.new_some h
  refine ⟨block, now, ?_⟩
  rw [hkeeps.serial, hkeeps.jobId]
  exact h

theorem Built.handleUpdates {config : PoolConfig} {manager : Manager} (h : manager.Built config)
    (block : BlockTemplate) (now : Nat) (emit : Job → Bool) :
    (manager.handleUpdates config block now emit).1.Built config := by
  have hupdated := updated_handleUpdates manager config block now emit
  generalize (manager.handleUpdates config block now emit).1 = manager',
    (manager.handleUpdates config block now emit).2 = returned at hupdated ⊢
  rintro job hknown
  cases hupdated with
  | thrown => exact h job hknown
  | unlisted new hnew =>
      rcases hknown with hcurrent | ⟨jobId, hvalid⟩
      · cases hcurrent
        exact nextJob_built hnew
      · exact h job (.inr ⟨jobId, hvalid⟩)
  | listed new hnew =>
      rcases hknown with hcurrent | ⟨jobId, hvalid⟩
      · cases hcurrent
        exact nextJob_built hnew
      · simp only [Function.update_apply] at hvalid
        split at hvalid
        · cases hvalid
          exact nextJob_built hnew
        · exact h job (.inr ⟨jobId, hvalid⟩)

theorem Knows.of_kept {manager : Manager} {newBroadcast : Bool} {job : Job}
    (h : Knows { manager with validJobs := manager.keptJobs newBroadcast } job) :
    manager.Knows job := by
  rcases h with hcurrent | ⟨jobId, hjob⟩
  · exact .inl hcurrent
  · cases newBroadcast with
    | true => exact nomatch hjob
    | false => exact .inr ⟨jobId, hjob⟩

theorem Built.handleTemplate {config : PoolConfig} {manager : Manager} (h : manager.Built config)
    (block : BlockTemplate) (newBlock newBroadcast : Bool) (now : Nat) (emit : Job → Bool) :
    (manager.handleTemplate config block newBlock newBroadcast now emit).1.Built config := by
  rcases handleTemplate_cases manager config block newBlock newBroadcast now emit with
    ⟨-, -, heq⟩ | ⟨-, heq⟩
  · rw [heq]
    exact h
  · rw [heq]
    exact Built.handleUpdates (fun job hjob => h job hjob.of_kept) block now emit

/-! ### Serials -/

/-- The template objects are numbered as they are built. -/
def Numbered (manager : Manager) : Prop :=
  ∀ job, manager.Knows job → job.serial < manager.templates

/-- No submission to a template object is lost. -/
structure Extends (manager manager' : Manager) : Prop where
  templates : manager.templates ≤ manager'.templates
  submissions : ∀ serial < manager.templates,
    manager.submissions serial ⊆ manager'.submissions serial

theorem Extends.refl (manager : Manager) : manager.Extends manager :=
  ⟨le_rfl, fun _ _ _ h => h⟩

theorem Extends.trans {a b c : Manager} (h : a.Extends b) (h' : b.Extends c) : a.Extends c :=
  ⟨h.templates.trans h'.templates, fun serial hserial => List.Subset.trans
    (h.submissions serial hserial) (h'.submissions serial (hserial.trans_le h.templates))⟩

theorem initial_numbered : Numbered initial := by
  rintro job (h | ⟨jobId, h⟩) <;> exact nomatch h

theorem Numbered.handleUpdates {manager : Manager} (h : manager.Numbered) (config : PoolConfig)
    (block : BlockTemplate) (now : Nat) (emit : Job → Bool) :
    (manager.handleUpdates config block now emit).1.Numbered ∧
      manager.Extends (manager.handleUpdates config block now emit).1 := by
  have hupdated := updated_handleUpdates manager config block now emit
  generalize (manager.handleUpdates config block now emit).1 = manager',
    (manager.handleUpdates config block now emit).2 = returned at hupdated ⊢
  -- a new object has a number of its own
  have hkept (job : Job) (hnew : manager.nextJob config block now = some job) :
      job.serial = manager.templates ∧ ∀ serial < manager.templates,
        manager.submissions serial ⊆ Function.update manager.submissions job.serial [] serial := by
    have hserial := (Job.new_some hnew).serial
    refine ⟨hserial, fun serial hlt => ?_⟩
    rw [Function.update_of_ne (by omega)]
    exact List.Subset.refl _
  cases hupdated with
  | thrown => exact ⟨h, le_rfl, fun _ _ => List.Subset.refl _⟩
  | unlisted new hnew =>
      obtain ⟨hserial, hsubmissions⟩ := hkept new hnew
      refine ⟨?_, Nat.le_succ _, hsubmissions⟩
      rintro job (hcurrent | ⟨jobId, hvalid⟩)
      · cases hcurrent
        exact hserial ▸ Nat.lt_succ_self _
      · exact (h job (.inr ⟨jobId, hvalid⟩)).trans (Nat.lt_succ_self _)
  | listed new hnew =>
      obtain ⟨hserial, hsubmissions⟩ := hkept new hnew
      refine ⟨?_, Nat.le_succ _, hsubmissions⟩
      rintro job (hcurrent | ⟨jobId, hvalid⟩)
      · cases hcurrent
        exact hserial ▸ Nat.lt_succ_self _
      · simp only [Function.update_apply] at hvalid
        split at hvalid
        · cases hvalid
          exact hserial ▸ Nat.lt_succ_self _
        · exact (h job (.inr ⟨jobId, hvalid⟩)).trans (Nat.lt_succ_self _)

theorem Numbered.handleTemplate {manager : Manager} (h : manager.Numbered) (config : PoolConfig)
    (block : BlockTemplate) (newBlock newBroadcast : Bool) (now : Nat) (emit : Job → Bool) :
    (manager.handleTemplate config block newBlock newBroadcast now emit).1.Numbered ∧
      manager.Extends (manager.handleTemplate config block newBlock newBroadcast now emit).1 := by
  rcases handleTemplate_cases manager config block newBlock newBroadcast now emit with
    ⟨-, -, heq⟩ | ⟨-, heq⟩
  · rw [heq]
    exact ⟨h, .refl manager⟩
  · rw [heq]
    have hnumbered : Numbered { manager with validJobs := manager.keptJobs newBroadcast } :=
      fun job hjob => h job hjob.of_kept
    obtain ⟨hnumbered', htemplates, hsubmissions⟩ := hnumbered.handleUpdates config block now emit
    exact ⟨hnumbered', htemplates, hsubmissions⟩

end Manager

/-! ## Asking the daemons -/

/-- What the callback of `sendCommands` is given. -/
inductive Reply (α : Type) where
  | error
  | success (response : α)
  deriving DecidableEq

/-- A reply of `getblockchaininfo`. -/
structure Tip where
  blocks : Nat
  bestblockhash : Str
  deriving DecidableEq

/-- A reply of `getauxblock`; `target` is the field of that name or `_target`. -/
structure AuxBlock where
  hash : Str
  height : Nat
  target : Str
  hash_length : (bufferFromHex hash).length = 32
  deriving DecidableEq

/-- What the pool keeps of its daemons' replies: the tip last seen on each
chain, the auxiliary block, and the jobs. -/
structure PoolState where
  primary : Option Tip
  auxiliary : Option Tip
  auxData : Option AuxData
  manager : Manager

def PoolState.initial : PoolState := ⟨none, none, none, Manager.initial⟩

/-- The tests of `checkPrimaryTemplate` and `checkAuxiliaryTemplate`; a height of
0 and an empty hash count as nothing saved. -/
def tipChanged (saved : Option Tip) (tip : Tip) : Bool :=
  match saved with
  | none => true
  | some saved => saved.blocks == 0 || saved.bestblockhash.isEmpty ||
      saved.blocks != tip.blocks || saved.bestblockhash != tip.bestblockhash

/-- A tip that changed is saved, before anything is fetched for it. -/
def checkTip (saved : Option Tip) : Reply Tip → Option Tip × Reply Bool
  | .error => (saved, .error)
  | .success tip => if tipChanged saved tip then (some tip, .success true) else (saved, .success false)

theorem checkTip_success (saved : Option Tip) (tip : Tip) :
    checkTip saved (.success tip)
      = (if tipChanged saved tip then some tip else saved, .success (tipChanged saved tip)) := by
  rw [checkTip]
  cases tipChanged saved tip with
  | true => rfl
  | false => rfl

namespace PoolState

/-- `checkPrimaryTemplate`: after an auxiliary update the template is wanted in
any case. -/
def checkPrimaryTemplate (pool : PoolState) (auxUpdate : Bool) (reply : Reply Tip) :
    PoolState × Reply Bool :=
  let checked := checkTip pool.primary reply
  ({ pool with primary := checked.1 },
    match checked.2 with
    | .error => .error
    | .success update => .success (update || auxUpdate))

def checkAuxiliaryTemplate (pool : PoolState) (reply : Reply Tip) : PoolState × Reply Bool :=
  let checked := checkTip pool.auxiliary reply
  ({ pool with auxiliary := checked.1 }, checked.2)

/-- The reply of `getblocktemplate` with the auxiliary data there is. -/
def withAuxData (config : PoolConfig) (pool : PoolState) (response : BlockTemplate) :
    BlockTemplate :=
  if config.auxiliaryEnabled then { response with auxData := pool.auxData } else response

/-- `handlePrimaryTemplate`: the third argument of its callback, if there is one.  The
callback is not called when an exception was thrown before. -/
def handlePrimaryTemplate (config : PoolConfig) (pool : PoolState) (newBlock newBroadcast : Bool)
    (now : Nat) (emit : Job → Bool) : Reply BlockTemplate → PoolState × Option (Reply Bool)
  | .error => (pool, some .error)
  | .success response =>
      let handled := pool.manager.handleTemplate config (pool.withAuxData config response) newBlock
        newBroadcast now emit
      ({ pool with manager := handled.1 }, handled.2.map .success)

/-- `handleAuxiliaryTemplate`: the first reply is no update. -/
def handleAuxiliaryTemplate (pool : PoolState) : Reply AuxBlock → PoolState × Reply Bool
  | .error => (pool, .error)
  | .success response =>
      let update := match pool.auxData with
        | none => false
        | some auxData => auxData.hash != response.hash
      let auxData := {
        hash := response.hash
        height := response.height
        target := leVal (uint256BufferFromHash response.target).reverse
        hash_length := response.hash_length }
      ({ pool with auxData := some auxData }, .success update)

/-- The callback on `network.timeout`, when the reply is in: what is not a new
block is handed out as an update. -/
def handleTimeout (config : PoolConfig) (pool : PoolState) (now : Nat) (emit : Job → Bool)
    (reply : Reply BlockTemplate) : PoolState :=
  match reply, pool.handlePrimaryTemplate config false true now emit reply with
  | .success response, (pool, some (.success false)) =>
      { pool with manager :=
        (pool.manager.handleUpdates config (pool.withAuxData config response) now emit).1 }
  | _, (pool, _) => pool

section
variable {config : PoolConfig} {pool : PoolState}

@[simp] theorem isNewBlock_withAuxData (config : PoolConfig) (pool : PoolState)
    (currentJob : Option Job) (response : BlockTemplate) :
    Manager.isNewBlock currentJob (pool.withAuxData config response)
      = Manager.isNewBlock currentJob response := by
  unfold withAuxData
  cases config.auxiliaryEnabled with
  | true => rfl
  | false => rfl

/-- What a template does: it is not taken, its constructor throws, or its listeners say
whether the callback is called. -/
inductive Taken (config : PoolConfig) (pool : PoolState) (newBlock newBroadcast : Bool) (now : Nat)
    (response : BlockTemplate) : Prop where
  | no (old : Manager.isNewBlock pool.manager.currentJob response = false)
      (unwanted : newBlock = false)
      (handled : ∀ emit, pool.handlePrimaryTemplate config newBlock newBroadcast now emit
        (.success response) = (pool, some (.success false)))
  | throws (wanted : Manager.isNewBlock pool.manager.currentJob response = true ∨ newBlock = true)
      (constructs : (pool.withAuxData config response).Constructs config now = false)
      (handled : ∀ emit, pool.handlePrimaryTemplate config newBlock newBroadcast now emit
        (.success response) = ({ pool with manager := { pool.manager with
          validJobs := pool.manager.keptJobs newBroadcast
          jobCounter := Manager.nextCounter pool.manager.jobCounter } }, none))
  | yes (wanted : Manager.isNewBlock pool.manager.currentJob response = true ∨ newBlock = true)
      (job : Job) (new : pool.manager.nextJob config (pool.withAuxData config response) now = some job)
      (handled : ∀ emit, pool.handlePrimaryTemplate config newBlock newBroadcast now emit
        (.success response) = ({ pool with manager :=
          ({ pool.manager with validJobs := pool.manager.keptJobs newBroadcast }.handleUpdates config
            (pool.withAuxData config response) now emit).1 },
          if emit job then some (.success true) else none))

theorem taken (config : PoolConfig) (pool : PoolState) (newBlock newBroadcast : Bool) (now : Nat)
    (response : BlockTemplate) : Taken config pool newBlock newBroadcast now response := by
  have hcases := pool.manager.handleTemplate_cases config (pool.withAuxData config response) newBlock
    newBroadcast now
  simp only [isNewBlock_withAuxData] at hcases
  cases hwanted : Manager.isNewBlock pool.manager.currentJob response || newBlock with
  | false =>
      rw [Bool.or_eq_false_iff] at hwanted
      refine .no hwanted.1 hwanted.2 fun emit => ?_
      obtain ⟨-, -, heq⟩ | ⟨htaken, -⟩ := hcases emit
      · simp only [handlePrimaryTemplate, heq]
        rfl
      · simp [hwanted] at htaken
  | true =>
      rw [Bool.or_eq_true] at hwanted
      have hhandled : ∀ emit, _ := fun emit => ((hcases emit).resolve_left fun h => by
        rw [h.1, h.2.1] at hwanted
        simp at hwanted).2
      cases hnew : pool.manager.nextJob config (pool.withAuxData config response) now with
      | none =>
          refine .throws hwanted ?_ fun emit => ?_
          · rw [← Manager.nextJob_isSome pool.manager, hnew]
            rfl
          · have hupdates : Manager.nextJob
                { pool.manager with validJobs := pool.manager.keptJobs newBroadcast } config
                (pool.withAuxData config response) now = none := hnew
            simp only [handlePrimaryTemplate, hhandled emit, Manager.handleUpdates, hupdates]
            rfl
      | some job =>
          refine .yes hwanted job hnew fun emit => ?_
          have hupdates : Manager.nextJob
              { pool.manager with validJobs := pool.manager.keptJobs newBroadcast } config
              (pool.withAuxData config response) now = some job := hnew
          simp only [handlePrimaryTemplate, hhandled emit]
          simp only [Manager.handleUpdates, hupdates]
          cases hemit : emit job with
          | true => simp
          | false => simp

theorem handlePrimaryTemplate_built (h : pool.manager.Built config) (newBlock newBroadcast : Bool)
    (now : Nat) (emit : Job → Bool) (reply : Reply BlockTemplate) :
    (pool.handlePrimaryTemplate config newBlock newBroadcast now emit reply).1.manager.Built
      config := by
  cases reply with
  | error => exact h
  | success response => exact h.handleTemplate _ newBlock newBroadcast now emit

theorem handleTimeout_built (h : pool.manager.Built config) (now : Nat) (emit : Job → Bool)
    (reply : Reply BlockTemplate) :
    (pool.handleTimeout config now emit reply).manager.Built config := by
  have hbuilt := handlePrimaryTemplate_built h false true now emit reply
  unfold handleTimeout
  split
  · rename_i heq
    rw [heq] at hbuilt
    exact hbuilt.handleUpdates _ now emit
  · rename_i heq
    rw [heq] at hbuilt
    exact hbuilt

theorem handlePrimaryTemplate_numbered (h : pool.manager.Numbered) (config : PoolConfig)
    (newBlock newBroadcast : Bool) (now : Nat) (emit : Job → Bool) (reply : Reply BlockTemplate) :
    (pool.handlePrimaryTemplate config newBlock newBroadcast now emit reply).1.manager.Numbered ∧
      pool.manager.Extends
        (pool.handlePrimaryTemplate config newBlock newBroadcast now emit reply).1.manager := by
  cases reply with
  | error => exact ⟨h, .refl _⟩
  | success response => exact h.handleTemplate config _ newBlock newBroadcast now emit

theorem handleTimeout_numbered (h : pool.manager.Numbered) (config : PoolConfig) (now : Nat)
    (emit : Job → Bool) (reply : Reply BlockTemplate) :
    (pool.handleTimeout config now emit reply).manager.Numbered ∧
      pool.manager.Extends (pool.handleTimeout config now emit reply).manager := by
  have hnumbered := handlePrimaryTemplate_numbered h config false true now emit reply
  unfold handleTimeout
  split
  · rename_i heq
    rw [heq] at hnumbered
    obtain ⟨hnumbered', hextends⟩ := hnumbered.1.handleUpdates config _ now emit
    exact ⟨hnumbered', hnumbered.2.trans hextends⟩
  · rename_i heq
    rw [heq] at hnumbered
    exact hnumbered

/-! Only the two checks touch the tips. -/

@[simp] theorem handlePrimaryTemplate_primary (config : PoolConfig) (pool : PoolState)
    (newBlock newBroadcast : Bool) (now : Nat) (emit : Job → Bool) (reply : Reply BlockTemplate) :
    (pool.handlePrimaryTemplate config newBlock newBroadcast now emit reply).1.primary
      = pool.primary := by
  cases reply with
  | error => rfl
  | success response => rfl

@[simp] theorem handleAuxiliaryTemplate_primary (pool : PoolState) (reply : Reply AuxBlock) :
    (pool.handleAuxiliaryTemplate reply).1.primary = pool.primary := by
  cases reply with
  | error => rfl
  | success response => rfl

@[simp] theorem handleTimeout_primary (config : PoolConfig) (pool : PoolState) (now : Nat)
    (emit : Job → Bool) (reply : Reply BlockTemplate) :
    (pool.handleTimeout config now emit reply).primary = pool.primary := by
  have hprimary := handlePrimaryTemplate_primary config pool false true now emit reply
  unfold handleTimeout
  split
  · rename_i heq
    rw [heq] at hprimary
    exact hprimary
  · rename_i heq
    rw [heq] at hprimary
    exact hprimary

end

end PoolState

/-! ## A template -/

/-- A block hash of one byte, repeated. -/
def byteHash (byte : UInt8) : Str := toHex (List.replicate 32 byte)

/-- A template with no transactions. -/
def emptyTemplate (previousblockhash : Str) (height : Nat) (curtime : Int) : BlockTemplate where
  rpcData := ⟨previousblockhash, "1e0fffff".toList, 1, curtime, []⟩
  target := none
  height := height
  txVersion := 1
  flags := []
  auxData := none

/-- A template whose version is more than a signed word holds. -/
def wideTemplate (previousblockhash : Str) (height : Nat) (curtime : Int) : BlockTemplate where
  rpcData := ⟨previousblockhash, "1e0fffff".toList, 2 ^ 31, curtime, []⟩
  target := none
  height := height
  txVersion := 1
  flags := []
  auxData := none

end DogeConnect
