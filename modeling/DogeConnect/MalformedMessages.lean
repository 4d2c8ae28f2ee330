/-
`taskDistributionLoop` and malformed messages.

That an iteration completes (`iteration_ok_iff`) is half of what one wants: a
message that is not in its documented shape shall not be taken up in silence
either.  Two such messages pass every conversion.  A negative difficulty
converts to a `uint64_t`, and the range-based `for` over the merkle branches
visits a string, an object or `null` as readily as an array.

    iteration_ready         what an iteration sends
    parseTask_sent_iff      which job is sent, in terms of its parameters
    iteration_tolerates_iff the messages an iteration gets through without
                            taking up a malformed one
-/
import DogeConnect.MessageShapes

namespace DogeConnect

/-! ## The documented shapes -/

/-- A number that is not negative. -/
def Json.isNonNegative : Json → Bool
  | .unsigned _ => true
  | .integer i => decide (0 ≤ i)
  | .float q => decide (0 ≤ q)
  | _ => false

/-- `{"id": null, "method": "mining.set_difficulty", "params": [65536]}`. -/
def WellFormedDifficulty (msg : Json) : Prop :=
  ∃ elements v, msg.entry "params".toList = some (.array elements) ∧
    elements[0]? = some v ∧ v.isNonNegative = true

/-- The example parameters of `distributeTask`: strings, an array of strings for
the merkle branches, and the flag. -/
structure WellFormedParams (elements : List Json) : Prop where
  strings : ∀ i ∈ [0, 1, 2, 3, 5, 6, 7], ∃ s, stringAt elements i s
  merkleBranches : ∃ branches, elements[4]? = some (.array branches) ∧
    ∀ branch ∈ branches, branch.isString = true
  cleanJobQueue : ∃ clean, elements[8]? = some (.boolean clean)

def WellFormedJob (msg : Json) : Prop :=
  ∃ elements, msg.entry "params".toList = some (.array elements) ∧ WellFormedParams elements

/-! ## Which job is sent -/

/-- The text of a string. -/
def Json.text : Json → Str
  | .string s => s
  | _ => []

@[simp] theorem Json.text_string (s : Str) : (Json.string s).text = s := rfl

/-- The size of the packet these fields make; two digits are a byte. -/
def packetSize (extraNonce1 : List UInt8) (coinbase1 coinbase2 : Str) (branches : List Json) : Nat :=
  RequestResponseHeader.layout.width + CustomQubicMiningTask.layout.width
    + QubicDogeMiningTask.layout.width + extraNonce1.length + coinbase1.length / 2
    + coinbase2.length / 2 + (branches.map fun branch => 4 + branch.text.length / 2).sum
    + SIGNATURE_SIZE

/-- The fields have the sizes they should, and the packet is not too large. -/
def Sized (extraNonce1 : List UInt8) (elements : List Json) : Prop :=
  ∃ prevHash version nbits ntime coinbase1 coinbase2 branches,
    stringAt elements 1 prevHash ∧ stringAt elements 5 version ∧ stringAt elements 6 nbits ∧
    stringAt elements 7 ntime ∧ stringAt elements 2 coinbase1 ∧ stringAt elements 3 coinbase2 ∧
    elements[4]? = some branches ∧
    (prevHash.length / 2 = 32 ∧ version.length / 2 = 4 ∧ nbits.length / 2 = 4 ∧
      ntime.length / 2 = 4) ∧
    packetSize extraNonce1 coinbase1 coinbase2 branches.elements ≤ packetBufferSize

theorem stringAt_inj {elements : List Json} {i : Nat} {s t : Str} (hs : stringAt elements i s)
    (ht : stringAt elements i t) : s = t :=
  Json.string.inj (Option.some.inj (hs.symm.trans ht))

theorem constIndex_array_iff {elements : List Json} {i : Nat} {v : Json} :
    (Json.array elements).constIndex i = .ok v ↔ elements[i]? = some v := by
  rw [Json.constIndex]
  cases elements[i]? <;> simp

theorem branches_size : ∀ {list : List Json} {branches : List (List UInt8)},
    list.mapM (fun branch => do return hexToBytes (← branch.getString) .BigEndian)
      = Except.ok (ε := JsonError) branches →
    branches.length * 4 + (branches.map List.length).sum
      = (list.map fun branch => 4 + branch.text.length / 2).sum
  | [], branches, h => by
      cases h
      rfl
  | v :: list, branches, h => by
      simp only [List.mapM_cons, bind, pure, except_bind_eq_ok] at h
      obtain ⟨bytes, ⟨s, hs, hbytes⟩, rest, hrest, h⟩ := h
      cases hbytes
      cases h
      have ih := branches_size hrest
      cases v with
      | string t =>
          cases hs
          simp only [List.length_cons, List.map_cons, List.sum_cons, hexToBytes_length, Json.text_string]
          omega
      | _ => cases hs

theorem totalNumBytes_eq {elements : List Json} {extraNonce1 : List UInt8}
    {currentPoolDifficulty : DifficultyTarget} {p : ParsedTask}
    (h : ParsedFrom (.array elements) extraNonce1 currentPoolDifficulty p) {coinbase1 coinbase2 : Str}
    {branches : Json} (hcoinbase1 : stringAt elements 2 coinbase1)
    (hcoinbase2 : stringAt elements 3 coinbase2) (hbranches : elements[4]? = some branches) :
    totalNumBytes p.dispatcherTask
      = packetSize extraNonce1 coinbase1 coinbase2 branches.elements := by
  obtain ⟨hex1, h1, hbytes1⟩ := h.coinbase1
  obtain ⟨hex2, h2, hbytes2⟩ := h.coinbase2
  obtain ⟨list, hlist, hmap⟩ := h.merkleBranches
  rw [stringParam_array] at h1 h2
  cases stringAt_inj h1 hcoinbase1
  cases stringAt_inj h2 hcoinbase2
  cases (constIndex_array_iff.mp hlist).symm.trans hbranches
  have hsize := branches_size hmap
  rw [totalNumBytes, packetSize, h.extraNonce1, hbytes1, hbytes2, hexToBytes_length,
    hexToBytes_length]
  omega

/-- A task comes out of the parameters, and fits the buffer, just when they are
in order and sized. -/
theorem parseTask_sent_iff (elements : List Json) (extraNonce1 : List UInt8)
    (currentPoolDifficulty : DifficultyTarget) :
    (∃ p, parseTask (.array elements) extraNonce1 currentPoolDifficulty = .ok (some p) ∧
        totalNumBytes p.dispatcherTask ≤ packetBufferSize) ↔
      DistributableParams elements ∧ Sized extraNonce1 elements := by
  constructor
  · rintro ⟨p, hp, hfits⟩
    have hfrom := parseTask_spec hp
    refine ⟨(parseTask_ok_iff _ _ _).mp ⟨_, hp⟩, ?_⟩
    obtain ⟨prevHash, hprevHash, hprevHashBytes⟩ := hfrom.prevHash
    obtain ⟨version, hversion, hversionBytes⟩ := hfrom.version
    obtain ⟨nbits, hnbits, hnbitsBytes⟩ := hfrom.nbits
    obtain ⟨ntime, hntime, hntimeBytes⟩ := hfrom.ntime
    obtain ⟨coinbase1, hcoinbase1, -⟩ := hfrom.coinbase1
    obtain ⟨coinbase2, hcoinbase2, -⟩ := hfrom.coinbase2
    obtain ⟨branches, hbranches, -⟩ := hfrom.merkleBranches
    rw [stringParam_array] at hprevHash hversion hnbits hntime hcoinbase1 hcoinbase2
    rw [constIndex_array_iff] at hbranches
    refine ⟨prevHash, version, nbits, ntime, coinbase1, coinbase2, branches, hprevHash, hversion,
      hnbits, hntime, hcoinbase1, hcoinbase2, hbranches, ⟨?_, ?_, ?_, ?_⟩, ?_⟩
    · simpa using (congrArg List.length hprevHashBytes).symm
    · simpa using (congrArg List.length hversionBytes).symm
    · simpa using (congrArg List.length hnbitsBytes).symm
    · simpa using (congrArg List.length hntimeBytes).symm
    · rwa [← totalNumBytes_eq hfrom hcoinbase1 hcoinbase2 hbranches]
  · rintro ⟨hok, prevHash, version, nbits, ntime, coinbase1, coinbase2, branches, hprevHash, hversion,
      hnbits, hntime, hcoinbase1, hcoinbase2, hbranches, ⟨h1, h2, h3, h4⟩, hfits⟩
    obtain ⟨q, hq⟩ := (parseTask_ok_iff elements extraNonce1 currentPoolDifficulty).mpr hok
    cases q with
    | some p =>
        refine ⟨p, hq, ?_⟩
        rwa [totalNumBytes_eq (parseTask_spec hq) hcoinbase1 hcoinbase2 hbranches]
    | none =>
        -- the only way to `none` is the test of the sizes
        exfalso
        rw [← stringParam_array] at hprevHash hversion hnbits hntime hcoinbase1 hcoinbase2
        obtain ⟨taskId, -, -, -, -, htaskId, -⟩ := hok
        rw [← stringParam_array] at htaskId
        simp only [parseTask, bind, pure, Except.pure, htaskId, hversion, hntime, hnbits, hprevHash,
          Except.bind] at hq
        rw [if_neg (by simp [h1, h2, h3, h4])] at hq
        simp only [hcoinbase1, hcoinbase2] at hq
        obtain ⟨list, -, hq⟩ := except_bind_eq_ok.mp hq
        obtain ⟨branches, -, hq⟩ := except_bind_eq_ok.mp hq
        cases hq

/-! ## What an iteration sends -/

theorem checkShareResponse_tasksDistributed (msg : Json) (stats : DispatcherStats) :
    (checkShareResponse msg stats).tasksDistributed = stats.tasksDistributed := by
  rw [checkShareResponse]
  split
  · rfl
  · split <;> rfl

theorem DistLocals.apply_tasksDistributed {l l' : DistLocals} {msg : Json} {m : StratumMessage}
    (hread : readMessage msg = .ok m) (h : l.apply msg m = .ok l') :
    l'.dist.stats.tasksDistributed = l.dist.stats.tasksDistributed := by
  cases m with
  | shareResponse =>
      rw [DistLocals.apply, readShareResponse_ok hread] at h
      cases h
      exact checkShareResponse_tasksDistributed msg _
  | _ => cases h; rfl

section
variable {signTaskPacket : List UInt8 → ByteArr 64}

theorem drain_tasksDistributed : ∀ {drained : List Json} {l : DistLocals} {latest : Json}
    {clean : Bool} {r : DistLocals × Json × Bool}, drain l latest clean drained = .ok r →
    r.1.dist.stats.tasksDistributed = l.dist.stats.tasksDistributed
  | [], l, latest, clean, r, h => by
      cases h
      rfl
  | msg :: rest, l, latest, clean, r, h => by
      obtain ⟨m, hm, -⟩ := except_bind_eq_ok.mp h
      by_cases hnotify : ∃ next, m = .notify next
      · obtain ⟨next, rfl⟩ := hnotify
        rw [drain_notify hm] at h
        exact drain_tasksDistributed h
      · rw [drain_other hm fun next hnext => hnotify ⟨next, hnext⟩] at h
        obtain ⟨l', hl', h⟩ := except_bind_eq_ok.mp h
        exact (drain_tasksDistributed h).trans (DistLocals.apply_tasksDistributed hm hl')

theorem distributeTask_tasksDistributed {task : Json} {st st' : DistState}
    {currentPoolDifficulty : DifficultyTarget} {extraNonce1 : List UInt8} {propagate : Bool}
    {now : UInt64} {sent : Option SentTask}
    (h : distributeTask signTaskPacket task st currentPoolDifficulty extraNonce1 propagate now
      = .ok (st', sent)) :
    st'.stats.tasksDistributed ≠ st.stats.tasksDistributed ↔ sent.isSome = true := by
  simp only [distributeTask, bind, pure, except_bind_eq_ok] at h
  obtain ⟨params, -, clean, -, outcome, -, h⟩ := h
  cases outcome with
  | ready p built => cases h; simp
  | _ => cases h; simp

/-- A job is sent just when its parameters are in order and sized. -/
theorem distributeTask_sent_iff {task : Json} {elements : List Json} {clean : Bool}
    (hparams : task.entry "params".toList = some (.array elements))
    (hflag : elements[8]? = some (.boolean clean)) (st : DistState)
    (currentPoolDifficulty : DifficultyTarget) (extraNonce1 : List UInt8) (propagate : Bool)
    (now : UInt64) :
    (∃ st' sent, distributeTask signTaskPacket task st currentPoolDifficulty extraNonce1 propagate now
        = .ok (st', some sent)) ↔ DistributableParams elements ∧ Sized extraNonce1 elements := by
  have hfield : task.field "params".toList = .ok (.array elements) := field_of_entry hparams
  rw [← parseTask_sent_iff elements extraNonce1 currentPoolDifficulty]
  refine (run_some_iff signTaskPacket ⟨task, currentPoolDifficulty, extraNonce1, propagate, now⟩
    st).trans ?_
  constructor
  · rintro ⟨params, -, p, hp, -, hparse, hsize⟩
    cases hfield.symm.trans hp
    exact ⟨p, hparse, hsize⟩
  · rintro ⟨p, hparse, hsize⟩
    refine ⟨_, clean || propagate, p, hfield, ?_, hparse, hsize⟩
    rw [cleanFlag, constIndex_array_iff.mpr hflag]
    rfl

/-- An iteration on a job that completes: what it sends is the last job, if that
is in order and sized. -/
theorem iteration_sent {extraNonce1 : List UInt8} {l l' : DistLocals} {msg : Json}
    {drained : List Json} {now : UInt64} (hjob : Notifies msg "mining.notify".toList)
    (h : iteration signTaskPacket extraNonce1 l msg drained now = .ok l') :
    ∃ elements, (latestOf msg drained).entry "params".toList = some (.array elements) ∧
      (∃ clean, elements[8]? = some (.boolean clean)) ∧
      (l'.dist.stats.tasksDistributed ≠ l.dist.stats.tasksDistributed ↔
        DistributableParams elements ∧ Sized extraNonce1 elements) := by
  obtain ⟨hread, -⟩ := (iteration_ok_iff extraNonce1 l msg drained now).mp ⟨l', h⟩
  obtain ⟨clean, hflag⟩ := hread.flag hjob
  have hm : readMessage msg = .ok (.notify clean) :=
    (readMessage_notify_iff hjob _).mpr ⟨clean, hflag, rfl⟩
  rw [iteration_notify hm] at h
  obtain ⟨r, hr, h⟩ := except_bind_eq_ok.mp h
  obtain ⟨result, hresult, h⟩ := except_bind_eq_ok.mp h
  cases h
  obtain ⟨hlatest, flag, elements, hparams, hflag⟩ := (drain_ok_iff ⟨clean, hflag⟩).2 r hr
  rw [← hlatest]
  refine ⟨elements, hparams, ⟨flag, hflag⟩, ?_⟩
  rw [← drain_tasksDistributed hr, ← distributeTask_sent_iff hparams hflag r.1.dist
    r.1.currentPoolDifficulty extraNonce1 r.2.2 now]
  obtain ⟨st', sent⟩ := result
  refine (distributeTask_tasksDistributed hresult).trans ?_
  rw [hresult]
  cases sent with
  | none => simp
  | some sent => exact ⟨fun _ => ⟨st', sent, rfl⟩, fun _ => rfl⟩

/-! ## What an iteration takes up -/

/-- The message popped, and what the inner loop drains if that is a job. -/
def messagesRead (msg : Json) (drained : List Json) : List Json :=
  msg :: if isJob msg then drained else []

/-- Nothing malformed was taken up: no difficulty was read and applied, no job
sent, that is not in its shape. -/
structure Tolerated (l l' : DistLocals) (msg : Json) (drained : List Json) : Prop where
  difficulty : ∀ m ∈ messagesRead msg drained, ∀ divisor,
    readMessage m = .ok (.setDifficulty divisor) → WellFormedDifficulty m
  job : l'.dist.stats.tasksDistributed ≠ l.dist.stats.tasksDistributed →
    WellFormedJob (latestOf msg drained)

/-- The first parameter is a number that is not negative and, if it is a float,
small enough for a `uint64_t`. -/
def HasProperDivisor (msg : Json) : Prop :=
  ∃ elements v, msg.entry "params".toList = some (.array elements) ∧
    elements[0]? = some v ∧ v.isUInt64 = true ∧ v.isNonNegative = true

/-- What is asked of every message that is read. -/
structure Harmless (msg : Json) : Prop where
  divisor : Notifies msg "mining.set_difficulty".toList → HasProperDivisor msg
  flag : Notifies msg "mining.notify".toList → ∃ clean, HasFlag msg clean

/-- What is asked of the last job: the fields that are read are strings, and the
branches stand in an array unless the job is reported for its sizes. -/
def ProperJob (extraNonce1 : List UInt8) (msg : Json) : Prop :=
  ∃ elements, msg.entry "params".toList = some (.array elements) ∧ DistributableParams elements ∧
    (Sized extraNonce1 elements → ∃ branches, elements[4]? = some (.array branches))

theorem harmless_iff {msg : Json} :
    Harmless msg ↔ Readable msg ∧ ∀ divisor, readMessage msg = .ok (.setDifficulty divisor) →
      WellFormedDifficulty msg := by
  constructor
  · intro h
    have hreadable : Readable msg := by
      refine ⟨fun hnotifies => ?_, h.flag⟩
      obtain ⟨elements, v, hparams, hv, hsize, -⟩ := h.divisor hnotifies
      exact ⟨elements, v, hparams, hv, hsize⟩
    refine ⟨hreadable, fun divisor hm => ?_⟩
    obtain ⟨elements, v, hparams, hv, -, hsign⟩ := h.divisor (notifies_of_setDifficulty hm)
    exact ⟨elements, v, hparams, hv, hsign⟩
  · rintro ⟨hreadable, hshape⟩
    refine ⟨fun hnotifies => ?_, hreadable.flag⟩
    obtain ⟨elements, v, hparams, hv, hsize⟩ := hreadable.divisor hnotifies
    obtain ⟨divisor, hdivisor⟩ := (getUInt64_ok_iff v).mpr hsize
    obtain ⟨elements', v', hparams', hv', hsign⟩ :=
      hshape divisor (readMessage_of_divisor hnotifies hparams hv hdivisor)
    cases hparams.symm.trans hparams'
    cases hv.symm.trans hv'
    exact ⟨elements, v, hparams, hv, hsize, hsign⟩

/-- A job in order whose branches stand in an array is in its shape. -/
theorem DistributableParams.wellFormed {elements : List Json} {extraNonce1 : List UInt8}
    {clean : Bool} {branches : List Json} (h : DistributableParams elements)
    (hsized : Sized extraNonce1 elements) (hflag : elements[8]? = some (.boolean clean))
    (hbranches : elements[4]? = some (.array branches)) : WellFormedParams elements := by
  obtain ⟨taskId, prevHash, version, nbits, ntime, htaskId, hprevHash, hversion, hnbits, hntime,
    hrest⟩ := h
  obtain ⟨prevHash', version', nbits', ntime', coinbase1, coinbase2, list, hprevHash', hversion',
    hnbits', hntime', hcoinbase1, hcoinbase2, -, ⟨h1, h2, h3, h4⟩, -⟩ := hsized
  cases stringAt_inj hprevHash hprevHash'
  cases stringAt_inj hversion hversion'
  cases stringAt_inj hnbits hnbits'
  cases stringAt_inj hntime hntime'
  obtain ⟨-, -, list, -, -, hlist, hstrings⟩ := hrest (by rw [hexToBytes_length, h2])
    (by rw [hexToBytes_length, h1]) (by rw [hexToBytes_length, h4]) (by rw [hexToBytes_length, h3])
  cases hbranches.symm.trans hlist
  refine ⟨?_, ⟨branches, hbranches, hstrings⟩, clean, hflag⟩
  intro i hi
  simp only [List.mem_cons, List.not_mem_nil, or_false] at hi
  rcases hi with rfl | rfl | rfl | rfl | rfl | rfl | rfl
  exacts [⟨_, htaskId⟩, ⟨_, hprevHash⟩, ⟨_, hcoinbase1⟩, ⟨_, hcoinbase2⟩, ⟨_, hversion⟩,
    ⟨_, hnbits⟩, ⟨_, hntime⟩]

/-- **Malformed messages.**  An iteration completes without taking up a malformed
message just when the message it pops is harmless and, if that is a job, so are
the messages behind it and the last job is proper. -/
theorem iteration_tolerates_iff (extraNonce1 : List UInt8) (l : DistLocals) (msg : Json)
    (drained : List Json) (now : UInt64) :
    (∃ l', iteration signTaskPacket extraNonce1 l msg drained now = .ok l' ∧
        Tolerated l l' msg drained) ↔
      Harmless msg ∧ (Notifies msg "mining.notify".toList →
        (∀ m ∈ drained, Harmless m) ∧ ProperJob extraNonce1 (latestOf msg drained)) := by
  have hcompletes := @iteration_ok_iff signTaskPacket extraNonce1 l msg drained now
  constructor
  · rintro ⟨l', h, htolerated⟩
    obtain ⟨hread, hjob⟩ := hcompletes.mp ⟨l', h⟩
    refine ⟨harmless_iff.mpr ⟨hread, htolerated.difficulty msg List.mem_cons_self⟩, ?_⟩
    intro hnotifies
    obtain ⟨hdrained, -⟩ := hjob hnotifies
    refine ⟨fun m hm => harmless_iff.mpr ⟨hdrained m hm, htolerated.difficulty m ?_⟩, ?_⟩
    · rw [messagesRead, if_pos ((isJob_iff msg).mpr hnotifies)]
      exact List.mem_cons_of_mem _ hm
    · obtain ⟨elements, hparams, -, hsent⟩ := iteration_sent hnotifies h
      obtain ⟨_, hparams', hdistributable⟩ := (hjob hnotifies).2
      cases hparams.symm.trans hparams'
      refine ⟨elements, hparams, hdistributable, fun hsized => ?_⟩
      obtain ⟨_, hparams', hshape⟩ := htolerated.job (hsent.mpr ⟨hdistributable, hsized⟩)
      cases hparams.symm.trans hparams'
      obtain ⟨branches, hbranches, -⟩ := hshape.merkleBranches
      exact ⟨branches, hbranches⟩
  · rintro ⟨hmsg, hjob⟩
    obtain ⟨hread, hdifficulty⟩ := harmless_iff.mp hmsg
    obtain ⟨l', h⟩ := hcompletes.mpr ⟨hread, fun hnotifies => by
      obtain ⟨hdrained, elements, hparams, hdistributable, -⟩ := hjob hnotifies
      exact ⟨fun m hm => (harmless_iff.mp (hdrained m hm)).1, elements, hparams, hdistributable⟩⟩
    refine ⟨l', h, ?_, ?_⟩
    · intro m hm divisor hdivisor
      rcases List.mem_cons.mp hm with rfl | hm
      · exact hdifficulty divisor hdivisor
      · split at hm
        next hisJob =>
          obtain ⟨hdrained, -⟩ := hjob ((isJob_iff msg).mp hisJob)
          exact (harmless_iff.mp (hdrained m hm)).2 divisor hdivisor
        next => exact absurd hm List.not_mem_nil
    · intro hsends
      by_cases hnotifies : Notifies msg "mining.notify".toList
      · obtain ⟨elements, hparams, ⟨clean, hflag⟩, hsent⟩ := iteration_sent hnotifies h
        obtain ⟨hdistributable, hsized⟩ := hsent.mp hsends
        obtain ⟨-, _, hparams', -, hbranches⟩ := hjob hnotifies
        cases hparams.symm.trans hparams'
        obtain ⟨branches, hbranches⟩ := hbranches hsized
        exact ⟨elements, hparams, hdistributable.wellFormed hsized hflag hbranches⟩
      · -- nothing but a job is sent
        obtain ⟨m, hm⟩ := (readMessage_ok_iff msg).mpr hread
        have hother : ∀ next, m ≠ .notify next := by
          rintro next rfl
          exact hnotifies (notifies_of_readMessage hm).1
        rw [iteration_other hm hother] at h
        exact absurd (DistLocals.apply_tasksDistributed hm h) hsends

end

/-! ## Two difficulties -/

def setDifficultyMessage (params : List Json) : Json :=
  stratumNotification "mining.set_difficulty".toList params

/-- The locals before the first message. -/
def firstLocals : DistLocals :=
  ⟨poolBaseDifficulty, ⟨.empty, .initial, ByteArr.fill packetBufferSize 0⟩⟩

/-- Without parameters, the conversion of the missing element throws; a negative
difficulty is taken up as the largest divisor there is. -/
theorem emptyDifficulty_throws :
    iteration (fun _ => ByteArr.fill 64 0xab) [1, 2, 3, 4] firstLocals (setDifficultyMessage []) [] 0
      = .error .typeError ∧
    ∃ l, iteration (fun _ => ByteArr.fill 64 0xab) [1, 2, 3, 4] firstLocals
        (setDifficultyMessage [.integer (-1)]) [] 0 = .ok l ∧
      l.dist.stats.poolDifficulty.toNat = 2 ^ 64 - 1 ∧
      ¬ Tolerated firstLocals l (setDifficultyMessage [.integer (-1)]) [] := by
  refine ⟨rfl, _, rfl, rfl, ?_⟩
  intro h
  obtain ⟨elements, v, hparams, hv, hsign⟩ := h.difficulty _ List.mem_cons_self _ rfl
  cases hparams
  cases hv
  exact absurd hsign (by decide)

end DogeConnect
