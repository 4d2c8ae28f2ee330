/-
Which bytes `taskReceiveLoop` reads from the receive buffer.

`receiveTask` says what a round makes of a packet.  Here the same round is
followed for where it looks: the payload pointer runs over extraNonce1, the
coinbases, the table of branch lengths and the branches, and the three length
checks decide how far it gets.  The first check is exact.  The other two compare
sums that have been through `unsigned int` and `int`, so they see the size of
the packet modulo 2^32 only:

    recvBytesMin_bmod          the second sum is the exact size, taken into an `int`
    consecutive_covers         the spans read cover the payload without a gap
    decodeTask_eq              the round in terms of what the packet announces
    receiveTask_of_accepted    the spans of an accepted packet are the task's fields
    decodeTask_inBounds_iff    when no byte outside the packet's own is read
-/
import DogeConnect.TaskPacket

namespace DogeConnect

/-! ## Spans of the buffer -/

/-- `numBytes` bytes from `buffer.data() + offset` on. -/
structure Span where
  offset : Nat
  numBytes : Nat
  deriving DecidableEq, Repr

/-- Whether the byte at `i` belongs to the span. -/
def Span.Has (s : Span) (i : Nat) : Prop := s.offset ≤ i ∧ i < s.offset + s.numBytes

/-- The bytes of a span. -/
def Span.of (s : Span) (buffer : List UInt8) : List UInt8 :=
  (buffer.drop s.offset).take s.numBytes

/-- A pointer that starts at `payload` and moves behind each piece it reads. -/
def consecutive : Nat → List Nat → List Span
  | _, [] => []
  | payload, n :: ns => ⟨payload, n⟩ :: consecutive (payload + n) ns

theorem consecutive_covers (i payload : Nat) (ns : List Nat) :
    (∃ s ∈ consecutive payload ns, s.Has i) ↔ payload ≤ i ∧ i < payload + ns.sum := by
  induction ns generalizing payload with
  | nil =>
      constructor
      · rintro ⟨s, hs, -⟩
        cases hs
      · rintro ⟨hlow, hhigh⟩
        simp only [List.sum_nil] at hhigh
        omega
  | cons n ns ih =>
      simp only [consecutive, List.mem_cons, exists_eq_or_imp]
      rw [ih]
      simp only [Span.Has, List.sum_cons]
      omega

theorem consecutive_append (payload : Nat) (ms ns : List Nat) :
    consecutive payload (ms ++ ns)
      = consecutive payload ms ++ consecutive (payload + ms.sum) ns := by
  induction ms generalizing payload with
  | nil => rfl
  | cons m ms ih =>
      simp only [List.cons_append, consecutive, ih, List.sum_cons, Nat.add_assoc]

/-! ## One round of the loop -/

/-- How a round ends. -/
inductive RoundEnd where
  /-- The packet is skipped with `continue`. -/
  | rejected
  /-- A sum of two `int`s leaves the range of `int`; the language gives no result. -/
  | undefined
  /-- The task is pushed. -/
  | accepted
  deriving DecidableEq, Repr

/-- What a round reads behind the two structs, and how it ends. -/
structure TaskDecode where
  reads : List Span
  ends : RoundEnd
  deriving DecidableEq, Repr

/-- The values an `int` has. -/
def FitsInt (v : Int) : Prop := -2 ^ 31 ≤ v ∧ v < 2 ^ 31

instance (v : Int) : Decidable (FitsInt v) := inferInstanceAs (Decidable (_ ∧ _))

/-- The lengths of what stands behind the two structs, the branches left out. -/
def variableLengths (dogeTask : QubicDogeMiningTask) : List Nat :=
  [dogeTask.extraNonce1NumBytes.toNat, dogeTask.coinbase1NumBytes.toNat,
    dogeTask.coinbase2NumBytes.toNat, dogeTask.numMerkleBranches.toNat * 4]

/-- One round of `taskReceiveLoop` on a hostile packet: `buffer` is the memory
from `buffer.data()` on, the received bytes and whatever stands behind them. -/
def decodeTask (buffer : List UInt8) (recvBytes : Int) : TaskDecode :=
  let fixed := CustomQubicMiningTask.layout.width + QubicDogeMiningTask.layout.width
  let recvBytesMin : Int := fixed + SIGNATURE_SIZE
  if recvBytes < recvBytesMin then ⟨[], .rejected⟩ else
  let qubicTask := CustomQubicMiningTask.layout.read buffer
  if qubicTask.customMiningType ≠ DOGE then ⟨[], .rejected⟩ else
  let dogeTask := QubicDogeMiningTask.layout.read (buffer.drop CustomQubicMiningTask.layout.width)
  -- three `unsigned int`s, then a `size_t`
  let lengths := (dogeTask.extraNonce1NumBytes + dogeTask.coinbase1NumBytes
    + dogeTask.coinbase2NumBytes).toNat + dogeTask.numMerkleBranches.toNat * 4
  let recvBytesMin := toInt ((recvBytesMin + lengths) % 2 ^ 64)
  if recvBytes < recvBytesMin then ⟨[], .rejected⟩ else
  let table := buffer.drop (fixed + dogeTask.extraNonce1NumBytes.toNat
    + dogeTask.coinbase1NumBytes.toNat + dogeTask.coinbase2NumBytes.toNat)
  let branchesNumBytes := readTable dogeTask.numMerkleBranches.toNat table
  let reads := consecutive fixed (variableLengths dogeTask)
  let recvBytesMin := recvBytesMin + accumulateInt branchesNumBytes
  if ¬ FitsInt recvBytesMin then ⟨reads, .undefined⟩ else
  if recvBytes < recvBytesMin then ⟨reads, .rejected⟩ else
  ⟨consecutive fixed (variableLengths dogeTask ++ branchesNumBytes.map UInt32.toNat), .accepted⟩

/-- The round has a defined end, and every byte it reads stands before the
signature of the packet received. -/
def TaskDecode.InBounds (d : TaskDecode) (recvBytes : Int) : Prop :=
  d.ends ≠ .undefined ∧ ∀ s ∈ d.reads, ∀ i, s.Has i → (i : Int) < recvBytes - SIGNATURE_SIZE

/-! ## The task that is read -/

theorem readBranches_consecutive (buffer : List UInt8) (ns : List UInt32) (payload : Nat) :
    readBranches ns (buffer.drop payload)
      = (consecutive payload (ns.map UInt32.toNat)).map (Span.of · buffer) := by
  induction ns generalizing payload with
  | nil => rfl
  | cons n ns ih =>
      simp only [readBranches, List.map_cons, consecutive, List.drop_drop, ih, Span.of]

/-- A packet that is accepted becomes a task, whose fields are the spans read;
the fourth span is the table of lengths. -/
theorem receiveTask_of_accepted {buffer : List UInt8} {recvBytes : Int}
    (h : (decodeTask buffer recvBytes).ends = .accepted) :
    ∃ received table, receiveTask buffer recvBytes = some received ∧
      (decodeTask buffer recvBytes).reads.map (Span.of · buffer)
        = [received.task.extraNonce1, received.task.coinbase1, received.task.coinbase2, table]
          ++ received.task.merkleBranches := by
  revert h
  simp only [decodeTask, receiveTask, List.drop_drop]
  generalize QubicDogeMiningTask.layout.read (buffer.drop CustomQubicMiningTask.layout.width)
    = dogeTask
  generalize CustomQubicMiningTask.layout.width + QubicDogeMiningTask.layout.width = fixed
  by_cases hmin : recvBytes < fixed + SIGNATURE_SIZE
  · simp only [hmin, if_true]
    intro h
    cases h
  by_cases htype : (CustomQubicMiningTask.layout.read buffer).customMiningType ≠ DOGE
  · simp only [hmin, if_pos htype, if_false]
    intro h
    cases h
  simp only [hmin, htype, if_false]
  generalize toInt _ = recvBytesMin
  generalize readTable _ _ = branchesNumBytes
  by_cases hlengths : recvBytes < recvBytesMin
  · simp only [hlengths, if_true]
    intro h
    cases h
  by_cases hfits : FitsInt (recvBytesMin + accumulateInt branchesNumBytes)
  · by_cases hall : recvBytes < recvBytesMin + accumulateInt branchesNumBytes
    · simp only [hlengths, hfits, hall, not_true_eq_false, if_true, if_false]
      intro h
      cases h
    simp only [hlengths, hfits, hall, not_true_eq_false, if_false]
    intro _
    refine ⟨_, (buffer.drop (fixed + dogeTask.extraNonce1NumBytes.toNat
      + dogeTask.coinbase1NumBytes.toNat + dogeTask.coinbase2NumBytes.toNat)).take
        (dogeTask.numMerkleBranches.toNat * 4), rfl, ?_⟩
    rw [consecutive_append, List.map_append, ← readBranches_consecutive]
    simp only [variableLengths, consecutive, List.map_cons, List.map_nil, Span.of,
      List.sum_cons, List.sum_nil, Nat.add_assoc, Nat.add_zero]
  · simp only [hlengths, hfits, not_false_eq_true, if_true, if_false]
    intro h
    cases h

/-! ## What the checks see -/

/-- The task struct of a buffer. -/
def dogeTaskAt (buffer : List UInt8) : QubicDogeMiningTask :=
  QubicDogeMiningTask.layout.read (buffer.drop CustomQubicMiningTask.layout.width)

/-- The table of branch lengths of a buffer. -/
def branchTableAt (buffer : List UInt8) : List UInt32 :=
  readTable (dogeTaskAt buffer).numMerkleBranches.toNat
    (buffer.drop (74 + (dogeTaskAt buffer).extraNonce1NumBytes.toNat
      + (dogeTaskAt buffer).coinbase1NumBytes.toNat + (dogeTaskAt buffer).coinbase2NumBytes.toNat))

/-- The size the length fields announce, structs and signature included, the
branches left out. -/
def announced (buffer : List UInt8) : Nat :=
  138 + (variableLengths (dogeTaskAt buffer)).sum

/-- The same with the branches. -/
def announcedAll (buffer : List UInt8) : Nat :=
  announced buffer + ((branchTableAt buffer).map UInt32.toNat).sum

/-- A size is still seen to be too large when it is compared as an `int`. -/
def SeenBeyond (recvBytes : Nat) (size : Nat) : Prop :=
  recvBytes < size % 2 ^ 32 ∧ size % 2 ^ 32 < 2 ^ 31

/-- The packet holds all it announces, or its type or one of the two checks
turns it away before a byte outside is read. -/
def HoldsOrSeen (buffer : List UInt8) (recvBytes : Nat) : Prop :=
  (CustomQubicMiningTask.layout.read buffer).customMiningType ≠ DOGE ∨
    announcedAll buffer ≤ recvBytes ∨
    SeenBeyond recvBytes (announced buffer) ∨
    (announced buffer ≤ recvBytes ∧ SeenBeyond recvBytes (announcedAll buffer))

theorem toInt_natCast (n : Nat) :
    toInt n = if n % 2 ^ 32 < 2 ^ 31 then ((n % 2 ^ 32 : Nat) : Int)
      else ((n % 2 ^ 32 : Nat) : Int) - 2 ^ 32 := by
  rw [toInt, Int.bmod_def]
  omega

/-- The three length fields are added modulo 2^32 first; after the conversion to
`int` that makes no difference. -/
theorem recvBytesMin_bmod (dogeTask : QubicDogeMiningTask) :
    toInt ((138 + ((dogeTask.extraNonce1NumBytes + dogeTask.coinbase1NumBytes
        + dogeTask.coinbase2NumBytes).toNat + dogeTask.numMerkleBranches.toNat * 4 : Nat) : Int)
        % 2 ^ 64)
      = toInt ((138 + (variableLengths dogeTask).sum : Nat) : Int) := by
  have he := dogeTask.extraNonce1NumBytes.toNat_lt
  have h1 := dogeTask.coinbase1NumBytes.toNat_lt
  have h2 := dogeTask.coinbase2NumBytes.toNat_lt
  have hn := dogeTask.numMerkleBranches.toNat_lt
  simp only [variableLengths, List.sum_cons, List.sum_nil, UInt32.toNat_add, toInt,
    Int.bmod_def]
  omega

/-- The accumulator holds the sum modulo 2^32, as an `int`. -/
theorem accumulateInt_bmod (ns : List UInt32) :
    accumulateInt ns = toInt (((ns.map UInt32.toNat).sum : Nat) : Int) := by
  have hgen : ∀ (ns : List UInt32) (acc : Int) (total : Nat), acc = toInt total →
      ns.foldl (fun acc n => toInt ((acc + n.toNat) % 2 ^ 32)) acc
        = toInt ((total + (ns.map UInt32.toNat).sum : Nat) : Int) := by
    intro ns
    induction ns with
    | nil => intro acc total hacc; simpa using hacc
    | cons n ns ih =>
        intro acc total hacc
        have hstep : toInt ((acc + n.toNat) % 2 ^ 32) = toInt ((total + n.toNat : Nat) : Int) := by
          rw [hacc]
          simp only [toInt, Int.bmod_def]
          omega
        rw [List.foldl_cons, ih _ _ hstep, List.map_cons, List.sum_cons, Nat.add_assoc]
  have hall := hgen ns 0 0 rfl
  rwa [Nat.zero_add] at hall

theorem decodeTask_eq {buffer : List UInt8} {recvBytes : Nat} (h : 138 ≤ recvBytes) :
    decodeTask buffer recvBytes =
      if (CustomQubicMiningTask.layout.read buffer).customMiningType ≠ DOGE then ⟨[], .rejected⟩
      else if (recvBytes : Int) < toInt (announced buffer) then ⟨[], .rejected⟩
      else
        let reads := consecutive 74 (variableLengths (dogeTaskAt buffer))
        let recvBytesMin := toInt (announced buffer)
          + toInt (((branchTableAt buffer).map UInt32.toNat).sum : Nat)
        if ¬ FitsInt recvBytesMin then ⟨reads, .undefined⟩
        else if recvBytes < recvBytesMin then ⟨reads, .rejected⟩
        else ⟨consecutive 74 (variableLengths (dogeTaskAt buffer)
          ++ (branchTableAt buffer).map UInt32.toNat), .accepted⟩ := by
  have hmin : ¬ (recvBytes : Int) < ((9 + 65 : Nat) : Int) + ((64 : Nat) : Int) := by omega
  have hsum := recvBytesMin_bmod (dogeTaskAt buffer)
  simp only [decodeTask, show CustomQubicMiningTask.layout.width = 9 from rfl,
    show QubicDogeMiningTask.layout.width = 65 from rfl, show SIGNATURE_SIZE = 64 from rfl]
  rw [if_neg hmin, accumulateInt_bmod]
  rw [announced, ← hsum]
  rfl

theorem consecutive_lt_iff (payload limit : Nat) (ns : List Nat) (h : payload ≤ limit) :
    (∀ s ∈ consecutive payload ns, ∀ i, s.Has i → i < limit) ↔ payload + ns.sum ≤ limit := by
  constructor
  · intro hall
    by_contra hover
    obtain ⟨s, hs, hi⟩ := (consecutive_covers limit payload ns).mpr (by omega)
    exact Nat.lt_irrefl limit (hall s hs limit hi)
  · intro hend s hs i hi
    have hcovered := (consecutive_covers i payload ns).mp ⟨s, hs, hi⟩
    omega

theorem inBounds_consecutive {recvBytes : Nat} (ns : List Nat) (ends : RoundEnd)
    (h : 138 ≤ recvBytes) (hends : ends ≠ .undefined) :
    TaskDecode.InBounds ⟨consecutive 74 ns, ends⟩ recvBytes ↔ 138 + ns.sum ≤ recvBytes := by
  have hlimit := consecutive_lt_iff 74 (recvBytes - 64) ns (by omega)
  have hcast : ∀ i : Nat, ((i : Int) < recvBytes - SIGNATURE_SIZE) ↔ i < recvBytes - 64 := by
    intro i
    rw [show SIGNATURE_SIZE = 64 from rfl]
    omega
  simp only [TaskDecode.InBounds, hcast]
  rw [hlimit]
  constructor
  · rintro ⟨-, hend⟩
    omega
  · intro hend
    exact ⟨hends, by omega⟩

theorem decodeTask_inBounds_iff (buffer : List UInt8) (recvBytes : Nat) (hmin : 138 ≤ recvBytes)
    (hmax : recvBytes ≤ 4096) :
    (decodeTask buffer recvBytes).InBounds recvBytes ↔ HoldsOrSeen buffer recvBytes := by
  rw [decodeTask_eq hmin]
  have hnone : TaskDecode.InBounds ⟨[], .rejected⟩ recvBytes := ⟨by decide, nofun⟩
  have hall : announcedAll buffer
      = announced buffer + ((branchTableAt buffer).map UInt32.toNat).sum := rfl
  have hfixed : announced buffer = 138 + (variableLengths (dogeTaskAt buffer)).sum := rfl
  simp only [HoldsOrSeen, SeenBeyond]
  generalize ((branchTableAt buffer).map UInt32.toNat) = branches at hall ⊢
  generalize announcedAll buffer = all at hall ⊢
  by_cases htype : (CustomQubicMiningTask.layout.read buffer).customMiningType ≠ DOGE
  · rw [if_pos htype]
    exact iff_of_true hnone (.inl htype)
  rw [if_neg htype]
  simp only [htype, false_or]
  have hsecond := toInt_natCast (announced buffer)
  have hbranches := toInt_natCast branches.sum
  by_cases hsee : (recvBytes : Int) < toInt (announced buffer)
  · -- the second check sees the lengths and the table
    rw [if_pos hsee]
    refine iff_of_true hnone (.inr (.inl ?_))
    split at hsecond <;> omega
  rw [if_neg hsee]
  have hreads := fun ends => inBounds_consecutive (variableLengths (dogeTaskAt buffer)) ends hmin
  have hreadsAll := inBounds_consecutive (variableLengths (dogeTaskAt buffer) ++ branches)
    .accepted hmin (by decide)
  rw [List.sum_append] at hreadsAll
  by_cases hfits : FitsInt (toInt (announced buffer) + toInt (branches.sum : Nat))
  · rw [if_neg (not_not_intro hfits)]
    by_cases hlast : (recvBytes : Int) < toInt (announced buffer) + toInt (branches.sum : Nat)
    · -- the third check turns the packet away, with the table already read
      rw [if_pos hlast, hreads .rejected (by decide)]
      rw [FitsInt] at hfits
      split at hsecond <;> split at hbranches <;> omega
    · rw [if_neg hlast, hreadsAll]
      rw [FitsInt] at hfits
      split at hsecond <;> split at hbranches <;> omega
  · rw [if_pos hfits]
    refine iff_of_false (fun h => h.1 rfl) ?_
    rw [FitsInt] at hfits
    split at hsecond <;> split at hbranches <;> omega

/-- Two lengths of 2^31 each, whose sum is 0 in an `unsigned int`. -/
def wrappedTask : List UInt8 :=
  List.replicate 58 0 ++ [0, 0, 0, 0x80, 0, 0, 0, 0x80] ++ List.replicate 72 0

theorem wrappedTask_decode : decodeTask wrappedTask 138
    = ⟨[⟨74, 2 ^ 31⟩, ⟨74 + 2 ^ 31, 2 ^ 31⟩, ⟨74 + 2 ^ 32, 0⟩, ⟨74 + 2 ^ 32, 0⟩], .accepted⟩ := by
  decide

/-- A task of job 7 with an extra nonce, both parts of a coinbase and one merkle branch, and
its signature. -/
def smallTask : List UInt8 :=
  [7, 0, 0, 0, 0, 0, 0, 0, 0, 1, 0x1e, 0x0f, 0xff, 0xff, 4, 1, 0x62, 0, 0x7c, 0xa4, 0x8d, 0x69,
    0x1a, 0x01, 0xb2, 0xc3] ++ List.replicate 32 0xaa
    ++ [4, 0, 0, 0, 3, 0, 0, 0, 2, 0, 0, 0, 1, 0, 0, 0]
    ++ [1, 2, 3, 4, 5, 6, 7, 8, 9, 32, 0, 0, 0] ++ List.replicate 32 0xbb ++ List.replicate 64 0xcc

/-- It is accepted, and read within bounds. -/
theorem smallTask_inBounds :
    (decodeTask smallTask 183).ends = .accepted ∧ (decodeTask smallTask 183).InBounds 183 :=
  ⟨by decide +kernel, (decodeTask_inBounds_iff smallTask 183 (by decide) (by decide)).mpr
    (.inr (.inl (by decide +kernel)))⟩

/-- The packet passes both checks and 4 GiB behind the buffer are read. -/
theorem wrappedTask_outOfBounds :
    ¬ ∀ (buffer : List UInt8) (recvBytes : Nat), 138 ≤ recvBytes → recvBytes ≤ 4096 →
      (decodeTask buffer recvBytes).InBounds recvBytes := by
  intro hall
  have hin := hall wrappedTask 138 (by decide) (by decide)
  rw [show ((138 : Nat) : Int) = 138 from rfl, wrappedTask_decode] at hin
  have hread := hin.2 ⟨74, 2 ^ 31⟩ List.mem_cons_self 74 ⟨Nat.le_refl _, by decide⟩
  exact absurd hread (by decide)

end DogeConnect
