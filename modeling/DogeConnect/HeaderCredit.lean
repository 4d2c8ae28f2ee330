/-
Headers the pool credits.

`handleShare` looks for duplicates among the strings of the submissions and
checks the range of `nTime` on `parseInt` of the string.  The header is built
from what the strings decode to, and decoding stops at the first character that
is not hex, so two sets of strings can end in one header.

    header_eq_iff        two headers of a job are equal just when the strings
                         decode alike
    fieldTime_hex        on hex digits the field is what `parseInt` reads
    credited_iff         a header is credited once, in range, along just the
                         runs whose credited strings decode apart and in range
    decodes_of_hex       which strings of hex digits always do

Hash collisions are excluded for the coinbases of a run, not in general.
-/
import DogeConnect.ManagerShare
import DogeConnect.Lib.Run
import Mathlib.Data.List.TakeWhile

namespace DogeConnect

open Digits

/-! ## Strings of hex digits -/

/-- The digit that is printed is the one that was read, in lower case. -/
theorem hexDigit_of_hexVal {c : Char} {x : Nat} (h : hexVal c = some x) : hexDigit x = c.toLower := by
  have hc : c = Char.ofNat c.toNat := (Char.ofNat_toNat c).symm
  have hcases := toNat_of_hexVal h
  generalize c.toNat = n at hc hcases
  subst hc
  rcases hcases with ⟨hlo, hhi, rfl⟩ | ⟨hlo, hhi, rfl⟩ | ⟨hlo, hhi, rfl⟩
  · interval_cases n <;> decide
  · interval_cases n <;> decide
  · interval_cases n <;> decide

theorem hexPair_byte {a b : Char} {x y : Nat} (ha : hexVal a = some x) (hb : hexVal b = some y) :
    x < 16 ∧ y < 16 ∧ (UInt8.ofNat (x * 16 + y)).toNat = x * 16 + y := by
  have hx := hexVal_lt ha
  have hy := hexVal_lt hb
  exact ⟨hx, hy, toNat_twoDigits hx hy⟩

theorem IsHex.tail {c : Char} {s : Str} (h : IsHex (c :: s)) : IsHex s := fun d hd =>
  h d (List.mem_cons_of_mem c hd)

theorem IsHex.head {c : Char} {s : Str} (h : IsHex (c :: s)) : ∃ x, hexVal c = some x :=
  Option.isSome_iff_exists.mp (h c List.mem_cons_self)

theorem jsLength_hex {s : Str} (h : IsHex s) : jsLength s = s.length := by
  induction s with
  | nil => rfl
  | cons c s ih =>
      obtain ⟨x, hx⟩ := h.head
      have hc : c.toNat < 0x10000 := by
        rcases toNat_of_hexVal hx with h | h | h <;> omega
      have hrest := ih h.tail
      simp only [jsLength, List.map_cons, List.sum_cons, hc, if_true, List.length_cons] at hrest ⊢
      omega

theorem toHex_bufferFromHex : ∀ {s : Str}, IsHex s → 2 ∣ s.length →
    toHex (bufferFromHex s) = s.map Char.toLower
  | [], _, _ => rfl
  | [_], _, h => by simp at h
  | a :: b :: rest, h, hlen => by
      obtain ⟨x, hx⟩ := h.head
      obtain ⟨y, hy⟩ := h.tail.head
      obtain ⟨hx16, hy16, -⟩ := hexPair_byte hx hy
      have hdigits : byteToHex (UInt8.ofNat (x * 16 + y)) = [a.toLower, b.toLower] := by
        rw [byteToHex_twoDigits hx16 hy16, hexDigit_of_hexVal hx, hexDigit_of_hexVal hy]
      have hrest := toHex_bufferFromHex h.tail.tail (by simpa using hlen)
      simp only [toHex] at hrest ⊢
      rw [bufferFromHex, hx, hy, List.flatMap_cons, hdigits, hrest]
      rfl

theorem lower_of_decode {s t : Str} (hs : IsHex s) (ht : IsHex t) (hslen : 2 ∣ s.length)
    (htlen : 2 ∣ t.length) (h : bufferFromHex s = bufferFromHex t) :
    s.map Char.toLower = t.map Char.toLower := by
  rw [← toHex_bufferFromHex hs hslen, ← toHex_bufferFromHex ht htlen, h]

/-- The number a hex string stands for. -/
def hexNumber (s : Str) : Nat := horner 16 0 (s.map hexVal).reduceOption

theorem horner_bufferFromHex : ∀ {s : Str} (acc : Nat), IsHex s → 2 ∣ s.length →
    horner 256 acc ((bufferFromHex s).map UInt8.toNat)
      = horner 16 acc (s.map hexVal).reduceOption
  | [], _, _, _ => rfl
  | [_], _, _, h => by simp at h
  | a :: b :: rest, acc, h, hlen => by
      obtain ⟨x, hx⟩ := h.head
      obtain ⟨y, hy⟩ := h.tail.head
      obtain ⟨hx16, hy16, hbyte⟩ := hexPair_byte hx hy
      have hacc : acc * 256 + (x * 16 + y) = (acc * 16 + x) * 16 + y := by omega
      simp only [bufferFromHex, hx, hy, List.map_cons, List.reduceOption_cons_of_some, horner_cons,
        hbyte, hacc]
      exact horner_bufferFromHex _ h.tail.tail (by simpa using hlen)

theorem parseSign_hex {s : Str} (h : IsHex s) : parseSign s = (1, s) := by
  unfold parseSign
  split
  · exact absurd (h '-' List.mem_cons_self) (by decide)
  · exact absurd (h '+' List.mem_cons_self) (by decide)
  · rfl

theorem dropHexMark_hex {s : Str} (h : IsHex s) : dropHexMark s = s := by
  unfold dropHexMark
  split
  · exact absurd (h 'x' (List.mem_cons_of_mem _ List.mem_cons_self)) (by decide)
  · exact absurd (h 'X' (List.mem_cons_of_mem _ List.mem_cons_self)) (by decide)
  · rfl

theorem isStrWhiteSpace_hex {c : Char} {x : Nat} (h : hexVal c = some x) :
    isStrWhiteSpace c = false := by
  rcases toNat_of_hexVal h with hc | hc | hc <;> simp [isStrWhiteSpace] <;> omega

theorem parseInt16_hex {s : Str} (h : IsHex s) (hne : s ≠ []) :
    parseInt16 s = some (hexNumber s : Int) := by
  have hdrop : s.dropWhile isStrWhiteSpace = s := by
    cases s with
    | nil => rfl
    | cons c rest =>
        obtain ⟨x, hx⟩ := h.head
        rw [List.dropWhile_cons_of_neg (by simp [isStrWhiteSpace_hex hx])]
  have hdigits : (s.map hexVal).takeWhile Option.isSome = s.map hexVal := by
    rw [List.takeWhile_eq_self_iff]
    intro value hvalue
    obtain ⟨c, hc, rfl⟩ := List.mem_map.mp hvalue
    exact h c hc
  have hnonempty : (s.map hexVal).isEmpty = false := by simpa using hne
  simp only [parseInt16, hdrop, parseSign_hex h, dropHexMark_hex h, hdigits, hnonempty,
    Bool.false_eq_true, if_false, one_mul, hexNumber]

/-- What decoding leaves in the `nTime` field. -/
def fieldTime (nTime : Str) : Nat := leVal (hexField 4 nTime).reverse

theorem fieldTime_hex {s : Str} (h : IsHex s) (hlen : s.length = 8) : fieldTime s = hexNumber s := by
  have hbytes : (bufferFromHex s).length = 4 := by rw [bufferFromHex_length h, hlen]
  rw [fieldTime, hexField, ByteArr.copy_toList hbytes, leVal, List.map_reverse, ← horner_reverse,
    List.reverse_reverse, hexNumber]
  exact horner_bufferFromHex 0 h ⟨4, hlen⟩

/-! ## Credits -/

/-- An accepted share with the strings it came from; `submitTime` is in
milliseconds. -/
structure HeaderCredit where
  shareData : ShareData
  submission : Submission
  submitTime : Nat
  deriving DecidableEq

/-- The pool, and the shares it accepted. -/
structure CreditPool where
  pool : PoolState
  credited : List HeaderCredit

/-- What the submission of a credit is known to have passed. -/
structure HeaderCredit.Sound (env : PoolEnv) (c : HeaderCredit) : Prop where
  extraNonce1 : ∃ bytes : ByteArr 4, c.submission.extraNonce1 = toHex bytes.toList
  extraNonce2_length : jsLength c.submission.extraNonce2 = 16
  nTime_length : jsLength c.submission.nTime = 8
  nonce_length : jsLength c.submission.nonce = 8
  inRange : nTimeOutOfRange c.shareData.job.rpcData.curtime c.submission.nTime c.submitTime = false
  coinbase : c.shareData.coinbase = coinbaseBuffer c.shareData.job.toTemplate c.submission
  header : headerBuffer env.lib env.doubleSHA256 c.shareData.job.toTemplate c.submission
    = some c.shareData.header

theorem HeaderCredit.Sound.extraNonce1_length {env : PoolEnv} {c : HeaderCredit}
    (h : c.Sound env) : (bufferFromHex c.submission.extraNonce1).length = 4 := by
  obtain ⟨bytes, heq⟩ := h.extraNonce1
  rw [heq, bufferFromHex_toHex, ByteArr.length]

/-- The bytes the strings of a submission put into a header. -/
def decoded (submission : Submission) : List UInt8 × List UInt8 × List UInt8 × List UInt8 :=
  (bufferFromHex submission.extraNonce1, bufferFromHex submission.extraNonce2,
    hexField 4 submission.nTime, hexField 4 submission.nonce)

/-- The range the protocol leaves to `nTime`. -/
def TimeInRange (c : HeaderCredit) (time : Nat) : Prop :=
  c.shareData.job.rpcData.curtime ≤ time ∧ time ≤ c.submitTime / 1000 + 7200

section
variable {env : PoolEnv} (hlib : env.lib.Correct)
include hlib

/-- Two headers of a job are equal just when the strings decode alike, if one
merkle root means one coinbase. -/
theorem header_eq_iff {a b : HeaderCredit} (ha : a.Sound env) (hb : b.Sound env)
    (hjob : a.shareData.job = b.shareData.job)
    (hcollision : headerRoot a.shareData.header = headerRoot b.shareData.header →
      a.shareData.coinbase = b.shareData.coinbase) :
    a.shareData.header = b.shareData.header ↔ decoded a.submission = decoded b.submission := by
  have hheader := ha.header
  have hheader' := hb.header
  rw [← hjob] at hheader'
  constructor
  · intro heq
    rw [heq] at hheader
    have hcoinbase := hcollision (congrArg headerRoot heq)
    obtain ⟨-, htime, hnonce⟩ := handleHeader_inj (fastRoot_length hlib _ _)
      (fastRoot_length hlib _ _) hheader hheader'
    rw [ha.coinbase, hb.coinbase, ← hjob] at hcoinbase
    simp only [coinbaseBuffer, Template.handleCoinbase, List.append_assoc] at hcoinbase
    obtain ⟨hextra₁, hrest⟩ := List.append_inj (List.append_cancel_left hcoinbase)
      (ha.extraNonce1_length.trans hb.extraNonce1_length.symm)
    rw [decoded, decoded, hextra₁, List.append_cancel_right hrest, htime, hnonce]
  · intro heq
    simp only [decoded, Prod.mk.injEq] at heq
    obtain ⟨hextra₁, hextra₂, htime, hnonce⟩ := heq
    rw [headerBuffer, handleHeader_eq_flatten _ _ (fastRoot_length hlib _ _)] at hheader hheader'
    simp only [headerFields, hextra₁, hextra₂, htime, hnonce] at hheader
    exact Option.some.inj (hheader.symm.trans hheader')

theorem headerTime_credit {c : HeaderCredit} (h : c.Sound env) :
    headerTime c.shareData.header = fieldTime c.submission.nTime :=
  headerTime_eq (fastRoot_length hlib _ _) h.header

end

/-- `parseInt` keeps the field of hex digits in range. -/
theorem HeaderCredit.Sound.timeInRange {env : PoolEnv} {c : HeaderCredit} (h : c.Sound env)
    (hhex : IsHex c.submission.nTime) : TimeInRange c (fieldTime c.submission.nTime) := by
  have hlen : c.submission.nTime.length = 8 := by rw [← jsLength_hex hhex, h.nTime_length]
  have hne : c.submission.nTime ≠ [] := by
    intro hnil
    rw [hnil] at hlen
    exact nomatch hlen
  have hrange := h.inRange
  rw [nTimeOutOfRange, parseInt16_hex hhex hne] at hrange
  simp only [Bool.or_eq_false_iff, decide_eq_false_iff_not, not_lt] at hrange
  rw [fieldTime_hex hhex hlen]
  refine ⟨hrange.1, ?_⟩
  have hint := hrange.2.trans (Int.add_le_add_right (toInt32_le _) 7200)
  exact_mod_cast hint

namespace CreditPool

def initial : CreditPool := ⟨.initial, []⟩

/-- The credit of an event. -/
def creditOf : ManagerEvent → Option ShareResult → Option HeaderCredit
  | .submit client _ extraNonce2 nTime nonce submitTime, some (.accepted shareData) =>
      some ⟨shareData, submissionOf client extraNonce2 nTime nonce, submitTime⟩
  | _, _ => none

section
variable (config : PoolConfig) (env : PoolEnv)

def step (s : CreditPool) (e : ManagerEvent) : Option CreditPool :=
  let handled := s.pool.handleEvent config env e
  some { pool := handled.1, credited := s.credited ++ (creditOf e handled.2).toList }

/-- The credit an event brings, if any. -/
def Credits (s : CreditPool) (e : ManagerEvent) (c : HeaderCredit) : Prop :=
  creditOf e (s.pool.handleEvent config env e).2 = some c

/-- No header is credited twice to a job, and every credited header has its time in
range. -/
structure CreditedOnce (s : CreditPool) : Prop where
  distinct : s.credited.Pairwise fun a b =>
    a.shareData.job = b.shareData.job → a.shareData.header ≠ b.shareData.header
  inRange : ∀ c ∈ s.credited, TimeInRange c (headerTime c.shareData.header)

/-- Of the coinbases credited to a job no two have one merkle root. -/
def NoCollision (s : CreditPool) (e : ManagerEvent) : Prop :=
  ∀ c, Credits config env s e c → ∀ earlier ∈ s.credited,
    earlier.shareData.job = c.shareData.job →
    headerRoot earlier.shareData.header = headerRoot c.shareData.header →
    earlier.shareData.coinbase = c.shareData.coinbase

/-- A submission that meets what is asked of it, so that its key is not yet on the job's list,
decodes to other bytes than what was credited to the job before, and its `nTime` is made of hex
digits or happens to decode into the range. -/
def Decodes (s : CreditPool) (e : ManagerEvent) : Prop :=
  ∀ client jobId extraNonce2 nTime nonce submitTime shareData,
    e = .submit client jobId extraNonce2 nTime nonce submitTime →
    ShareMeets env s.pool.manager client jobId (submissionOf client extraNonce2 nTime nonce)
      submitTime shareData →
    (∀ earlier ∈ s.credited, earlier.shareData.job = shareData.job →
      decoded earlier.submission ≠ decoded (submissionOf client extraNonce2 nTime nonce)) ∧
    (IsHex nTime ∨ TimeInRange
      ⟨shareData, submissionOf client extraNonce2 nTime nonce, submitTime⟩ (fieldTime nTime))

end

variable {config : PoolConfig} {env : PoolEnv}

theorem credits_passed {s : CreditPool} {e : ManagerEvent} {c : HeaderCredit}
    (h : Credits config env s e c) :
    ∃ jobId, SharePassed env s.pool.manager (s.pool.handleEvent config env e).1.manager jobId
        c.submission c.submitTime c.shareData ∧ c.Sound env := by
  unfold Credits creditOf at h
  split at h
  · rename_i client jobId extraNonce2 nTime nonce submitTime shareData hresult
    cases h
    obtain ⟨_, _, _, _, _, _, hevent, hpassed⟩ := handleEvent_accepted hresult
    cases hevent
    exact ⟨jobId, hpassed, ⟨client.extraNonce1, rfl⟩, hpassed.extraNonce2_length,
      hpassed.nTime_length, hpassed.nonce_length, hpassed.inRange, hpassed.coinbase,
      hpassed.header⟩
  · exact nomatch h

/-- What is credited has met what is asked of it, and the other way round. -/
theorem credits_iff {s : CreditPool} {e : ManagerEvent} {c : HeaderCredit} :
    Credits config env s e c ↔ ∃ client jobId extraNonce2 nTime nonce submitTime,
      e = .submit client jobId extraNonce2 nTime nonce submitTime ∧
      c.submission = submissionOf client extraNonce2 nTime nonce ∧ c.submitTime = submitTime ∧
      ShareMeets env s.pool.manager client jobId c.submission c.submitTime c.shareData := by
  constructor
  · intro h
    unfold Credits creditOf at h
    split at h
    · rename_i client jobId extraNonce2 nTime nonce submitTime shareData hresult
      cases h
      exact ⟨client, jobId, extraNonce2, nTime, nonce, submitTime, rfl, rfl, rfl,
        handleShare_accepted_iff.mp (Option.some.inj hresult)⟩
    · cases h
  · rintro ⟨client, jobId, extraNonce2, nTime, nonce, submitTime, rfl, hsubmission, htime, hmeets⟩
    obtain ⟨shareData, submission, time⟩ := c
    cases hsubmission
    cases htime
    have hshare : (s.pool.manager.handleShare env client jobId
        (submissionOf client extraNonce2 nTime nonce) time).2 = .accepted shareData :=
      handleShare_accepted_iff.mpr hmeets
    rw [Credits, PoolState.handleEvent, hshare, creditOf]
    rfl

theorem decodes_iff (config : PoolConfig) {s : CreditPool} {e : ManagerEvent} :
    Decodes env s e ↔ ∀ c, Credits config env s e c →
      (∀ earlier ∈ s.credited, earlier.shareData.job = c.shareData.job →
        decoded earlier.submission ≠ decoded c.submission) ∧
      (IsHex c.submission.nTime ∨ TimeInRange c (fieldTime c.submission.nTime)) := by
  constructor
  · intro h c hc
    obtain ⟨client, jobId, extraNonce2, nTime, nonce, submitTime, he, hsubmission, htime, hmeets⟩ :=
      credits_iff.mp hc
    obtain ⟨shareData, submission, time⟩ := c
    cases hsubmission
    cases htime
    exact h _ _ _ _ _ _ _ he hmeets
  · intro h client jobId extraNonce2 nTime nonce submitTime shareData he hmeets
    exact h ⟨shareData, submissionOf client extraNonce2 nTime nonce, submitTime⟩
      (credits_iff.mpr ⟨_, _, _, _, _, _, he, rfl, rfl, hmeets⟩)

theorem step_accepted {s : CreditPool} {client : Client} {jobId extraNonce2 nTime nonce : Str}
    {submitTime : Nat} {manager' : Manager} {shareData : ShareData}
    (h : s.pool.manager.handleShare env client jobId (submissionOf client extraNonce2 nTime nonce)
      submitTime = (manager', .accepted shareData)) :
    step config env s (.submit client jobId extraNonce2 nTime nonce submitTime)
      = some {
        pool := { s.pool with manager := manager' }
        credited := s.credited
          ++ [⟨shareData, submissionOf client extraNonce2 nTime nonce, submitTime⟩] } := by
  simp only [step, PoolState.handleEvent, h, creditOf, Option.toList]

/-- All credits are sound. -/
def AllSound (env : PoolEnv) (s : CreditPool) : Prop := ∀ c ∈ s.credited, c.Sound env

theorem mem_credited {s s' : CreditPool} {e : ManagerEvent} (hstep : step config env s e = some s')
    {c : HeaderCredit} : c ∈ s'.credited ↔ c ∈ s.credited ∨ Credits config env s e c := by
  cases hstep
  rw [List.mem_append, Option.mem_toList]
  rfl

theorem allSound_step (s : CreditPool) (e : ManagerEvent) (s' : CreditPool) (h : AllSound env s)
    (hstep : step config env s e = some s') : AllSound env s' := by
  intro c hc
  rcases (mem_credited hstep).mp hc with hc | hc
  · exact h c hc
  · obtain ⟨-, -, hsound⟩ := credits_passed hc
    exact hsound

theorem creditedOnce_step (hlib : env.lib.Correct) (s : CreditPool) (e : ManagerEvent)
    (s' : CreditPool) (hsound : AllSound env s) (hcollision : NoCollision config env s e)
    (h : CreditedOnce s) (hstep : step config env s e = some s') :
    CreditedOnce s' ↔ Decodes env s e := by
  cases hcredit : creditOf e (s.pool.handleEvent config env e).2 with
  | none =>
      have hsame : s'.credited = s.credited := by
        cases hstep
        simp [hcredit]
      constructor
      · intro _
        refine (decodes_iff config).mpr fun c hc => ?_
        rw [Credits, hcredit] at hc
        cases hc
      · intro _
        exact ⟨hsame ▸ h.distinct, fun c hc => h.inRange c (hsame ▸ hc)⟩
  | some c =>
      have hlist : s'.credited = s.credited ++ [c] := by
        cases hstep
        simp [hcredit]
      have hc : c.Sound env := by
        obtain ⟨-, -, hc⟩ := credits_passed hcredit
        exact hc
      have hpair : ∀ earlier ∈ s.credited, earlier.shareData.job = c.shareData.job →
          (earlier.shareData.header = c.shareData.header ↔
            decoded earlier.submission = decoded c.submission) := fun earlier hearlier hjob =>
        header_eq_iff hlib (hsound earlier hearlier) hc hjob
          (hcollision c hcredit earlier hearlier hjob)
      constructor
      · intro h'
        refine (decodes_iff config).mpr fun c' hc' => ?_
        cases hcredit.symm.trans hc'
        constructor
        · intro earlier hearlier hjob hdecoded
          have hdistinct := h'.distinct
          rw [hlist, List.pairwise_append] at hdistinct
          exact hdistinct.2.2 earlier hearlier c List.mem_cons_self hjob
            ((hpair earlier hearlier hjob).mpr hdecoded)
        · right
          rw [← headerTime_credit hlib hc]
          exact h'.inRange c ((mem_credited hstep).mpr (.inr hcredit))
      · intro hdecodes
        obtain ⟨hapart, htime⟩ := (decodes_iff config).mp hdecodes c hcredit
        constructor
        · rw [hlist, List.pairwise_append]
          refine ⟨h.distinct, List.pairwise_singleton _ c, fun earlier hearlier c' hc' hjob heq => ?_⟩
          cases List.mem_singleton.mp hc'
          exact hapart earlier hearlier hjob ((hpair earlier hearlier hjob).mp heq)
        · intro c' hc'
          rcases (mem_credited hstep).mp hc' with hc' | hc'
          · exact h.inRange c' hc'
          · cases hcredit.symm.trans hc'
            rw [headerTime_credit hlib hc]
            exact htime.elim hc.timeInRange id

/-! ## Strings of hex digits decode apart -/

def HexStrings (submission : Submission) : Prop :=
  IsHex submission.extraNonce2 ∧ IsHex submission.nTime ∧ IsHex submission.nonce

/-- Of hex digits of the checked lengths, what decodes alike has one key. -/
theorem key_of_decoded (hlower : ∀ s, IsHex s → env.toLowerCase s = s.map Char.toLower)
    {a b : HeaderCredit} (ha : a.Sound env) (hb : b.Sound env) (hahex : HexStrings a.submission)
    (hbhex : HexStrings b.submission) (h : decoded a.submission = decoded b.submission) :
    submissionKey env a.submission = submissionKey env b.submission := by
  have hkey : ∀ c : HeaderCredit, c.Sound env → HexStrings c.submission →
      submissionKey env c.submission = c.submission.extraNonce1.map Char.toLower
        ++ c.submission.extraNonce2.map Char.toLower ++ c.submission.nTime.map Char.toLower
        ++ c.submission.nonce.map Char.toLower := by
    intro c hc hhex
    obtain ⟨bytes, hextra⟩ := hc.extraNonce1
    rw [submissionKey, hlower]
    · simp only [List.map_append]
    · intro d hd
      simp only [List.mem_append] at hd
      rcases hd with ((hd | hd) | hd) | hd
      · exact isHex_toHex bytes.toList d (hextra ▸ hd)
      · exact hhex.1 d hd
      · exact hhex.2.1 d hd
      · exact hhex.2.2 d hd
  -- eight digits fill a field
  have hfield : ∀ s t : Str, IsHex s → IsHex t → jsLength s = 8 → jsLength t = 8 →
      hexField 4 s = hexField 4 t → s.map Char.toLower = t.map Char.toLower := by
    intro s t hs ht hslen htlen heq
    rw [jsLength_hex hs] at hslen
    rw [jsLength_hex ht] at htlen
    rw [hexField, hexField, ByteArr.copy_toList (by rw [bufferFromHex_length hs, hslen]),
      ByteArr.copy_toList (by rw [bufferFromHex_length ht, htlen])] at heq
    exact lower_of_decode hs ht ⟨4, hslen⟩ ⟨4, htlen⟩ heq
  simp only [decoded, Prod.mk.injEq] at h
  obtain ⟨hextra₁, hextra₂, htime, hnonce⟩ := h
  have hlow₁ : a.submission.extraNonce1 = b.submission.extraNonce1 := by
    obtain ⟨bytes, ha₁⟩ := ha.extraNonce1
    obtain ⟨bytes', hb₁⟩ := hb.extraNonce1
    rw [ha₁, hb₁, bufferFromHex_toHex, bufferFromHex_toHex] at hextra₁
    rw [ha₁, hb₁, hextra₁]
  have hlow₂ := lower_of_decode hahex.1 hbhex.1
    ⟨8, (jsLength_hex hahex.1).symm.trans ha.extraNonce2_length⟩
    ⟨8, (jsLength_hex hbhex.1).symm.trans hb.extraNonce2_length⟩ hextra₂
  rw [hkey a ha hahex, hkey b hb hbhex, hlow₁, hlow₂,
    hfield _ _ hahex.2.1 hbhex.2.1 ha.nTime_length hb.nTime_length htime,
    hfield _ _ hahex.2.2 hbhex.2.2 ha.nonce_length hb.nonce_length hnonce]

/-- What the strings of hex digits credited so far have left with the manager. -/
structure HexCredits (env : PoolEnv) (s : CreditPool) : Prop where
  sound : AllSound env s
  hex : ∀ c ∈ s.credited, HexStrings c.submission
  numbered : s.pool.manager.Numbered
  serial : ∀ c ∈ s.credited, c.shareData.job.serial < s.pool.manager.templates
  kept : ∀ c ∈ s.credited,
    submissionKey env c.submission ∈ s.pool.manager.submissions c.shareData.job.serial

/-- The event's strings, if it is a submission, are hex digits. -/
def HexEvent (config : PoolConfig) (env : PoolEnv) (s : CreditPool) (e : ManagerEvent) : Prop :=
  ∀ c, Credits config env s e c → HexStrings c.submission

theorem hexCredits_step (s : CreditPool) (e : ManagerEvent) (s' : CreditPool)
    (h : HexCredits env s) (hok : HexEvent config env s e)
    (hstep : step config env s e = some s') : HexCredits env s' := by
  have hmanager : s'.pool.manager = (s.pool.handleEvent config env e).1.manager := by
    cases hstep
    rfl
  obtain ⟨hnumbered, hextends⟩ := handleEvent_numbered config env h.numbered e
  rw [← hmanager] at hnumbered hextends
  have hnew : ∀ c, Credits config env s e c →
      c.shareData.job.serial < s.pool.manager.templates ∧
      submissionKey env c.submission ∈ s'.pool.manager.submissions c.shareData.job.serial := by
    intro c hc
    obtain ⟨jobId, hpassed, -⟩ := credits_passed hc
    rw [← hmanager] at hpassed
    exact ⟨h.numbered _ (.inr ⟨jobId, hpassed.job⟩), hpassed.isKept⟩
  refine ⟨allSound_step s e s' h.sound hstep, ?_, hnumbered, ?_, ?_⟩
  · intro c hc
    rcases (mem_credited hstep).mp hc with hc | hc
    · exact h.hex c hc
    · exact hok c hc
  · intro c hc
    rcases (mem_credited hstep).mp hc with hc | hc
    · exact (h.serial c hc).trans_le hextends.templates
    · exact (hnew c hc).1.trans_le hextends.templates
  · intro c hc
    rcases (mem_credited hstep).mp hc with hc | hc
    · exact hextends.submissions _ (h.serial c hc) (h.kept c hc)
    · exact (hnew c hc).2

theorem HexCredits.decodes (hlower : ∀ s, IsHex s → env.toLowerCase s = s.map Char.toLower)
    {s : CreditPool} {e : ManagerEvent} (h : HexCredits env s) (hok : HexEvent config env s e) :
    Decodes env s e := by
  refine (decodes_iff config).mpr fun c hc => ?_
  obtain ⟨jobId, hpassed, hsound⟩ := credits_passed hc
  refine ⟨fun earlier hearlier hjob hdecoded => ?_, .inl (hok c hc).2.1⟩
  -- the key of the earlier credit is still on the job's list
  have hkept := h.kept earlier hearlier
  rw [hjob, key_of_decoded hlower (h.sound earlier hearlier) hsound (h.hex earlier hearlier)
    (hok c hc) hdecoded] at hkept
  exact hpassed.isNew hkept

/-- The condition of `credited_iff` is met by every run whose credited strings are
hex digits. -/
theorem decodes_of_hex (config : PoolConfig)
    (hlower : ∀ s, IsHex s → env.toLowerCase s = s.map Char.toLower) (es : List ManagerEvent)
    (hhex : Run.Along (step config env) (HexEvent config env) initial es) :
    Run.Along (step config env) (Decodes env) initial es := by
  have hnone : ∀ c, c ∉ initial.credited := fun _ => List.not_mem_nil
  have hinit : HexCredits env initial :=
    ⟨fun c hc => absurd hc (hnone c), fun c hc => absurd hc (hnone c), Manager.initial_numbered,
      fun c hc => absurd hc (hnone c), fun c hc => absurd hc (hnone c)⟩
  have halways := Run.along_of_always (Q := fun _ => True) (I := HexCredits env)
    (fun s e s' h hok hstep _ => ⟨h.decodes hlower hok, hexCredits_step s e s' h hok hstep⟩)
    hinit hhex
  exact halways (Run.always_of_step (I := fun _ => True) (fun _ _ _ _ _ => trivial) trivial)

/-! ## Whole runs -/

/-- A header is credited once and in range along just the runs in which what is
credited decodes apart and in range. -/
theorem credited_iff (config : PoolConfig) (env : PoolEnv) (hlib : env.lib.Correct)
    (es : List ManagerEvent)
    (hcollision : Run.Along (step config env) (NoCollision config env) initial es) :
    Run.Always (step config env) CreditedOnce initial es ↔
      Run.Along (step config env) (Decodes env) initial es := by
  have hsound : AllSound env initial := fun c hc => nomatch hc
  have honce : CreditedOnce initial := ⟨List.Pairwise.nil, fun c hc => nomatch hc⟩
  constructor
  · intro h
    refine Run.along_of_always (I := fun s => AllSound env s ∧ CreditedOnce s)
      (fun s e s' hinv hpre hstep h' => ?_) ⟨hsound, honce⟩ hcollision h
    exact ⟨(creditedOnce_step hlib s e s' hinv.1 hpre hinv.2 hstep).mp h',
      allSound_step s e s' hinv.1 hstep, h'⟩
  · intro h
    have halways := Run.always_of_along (I := fun s => AllSound env s ∧ CreditedOnce s)
      (fun s e s' hinv hok hstep => ⟨allSound_step s e s' hinv.1 hstep,
        (creditedOnce_step hlib s e s' hinv.1 hok.1 hinv.2 hstep).mpr hok.2⟩)
      ⟨hsound, honce⟩ (hcollision.and h)
    exact halways.mono fun s hinv => hinv.2

/-! ## Strings that are not hex -/

def sampleConfig : PoolConfig := ⟨false, [], fun _ => some []⟩

def sampleClient : Client := ⟨ByteArr.fill 4 0, "addr".toList, 1, none⟩

/-- A template of second 1. -/
def sampleBlock : BlockTemplate := emptyTemplate (byteHash 0) 1 1

def submitWith (nTime nonce : Str) : ManagerEvent :=
  .submit sampleClient "1".toList "0000000000000000".toList nTime nonce 0

theorem submitWith_credit {s : CreditPool} {nTime nonce : Str} {c : HeaderCredit}
    (h : Credits sampleConfig sampleEnv s (submitWith nTime nonce) c) :
    c.submission = submissionOf sampleClient "0000000000000000".toList nTime nonce ∧
      c.submitTime = 0 := by
  unfold Credits creditOf submitWith at h
  split at h
  · rename_i hevent hresult
    cases hevent
    cases h
    exact ⟨rfl, rfl⟩
  · exact nomatch h

/-- A template and two shares that differ in the nonce. -/
def hexRun : List ManagerEvent :=
  [.primaryTemplate false true (.success sampleBlock) 0,
    submitWith "00000001".toList "00000000".toList, submitWith "00000001".toList "0000000a".toList]

theorem credited_hexRun :
    Run.Always (step sampleConfig sampleEnv) CreditedOnce initial hexRun := by
  have htemplate : ∀ s c, ¬ Credits sampleConfig sampleEnv s
      (.primaryTemplate false true (.success sampleBlock) 0) c := fun s c hc => nomatch hc
  have hhex : ∀ s nonce, IsHex nonce →
      HexEvent sampleConfig sampleEnv s (submitWith "00000001".toList nonce) := by
    intro s nonce hnonce c hc
    rw [(submitWith_credit hc).1]
    have hextra : IsHex "0000000000000000".toList := by decide
    have htime : IsHex "00000001".toList := by decide
    exact ⟨hextra, htime, hnonce⟩
  refine (credited_iff sampleConfig sampleEnv leafMerkle_correct hexRun ?_).mpr
    (decodes_of_hex sampleConfig (fun _ _ => rfl) hexRun ?_)
  · intro s₁ hs₁
    have hnone : ∀ c, c ∉ s₁.credited := by
      intro c hc
      exact ((mem_credited hs₁).mp hc).elim List.not_mem_nil (htemplate _ c)
    refine ⟨fun c hc => absurd hc (htemplate _ c), fun s₂ hs₂ => ⟨?_, fun s₃ hs₃ => ⟨?_, trivial⟩⟩⟩
    · intro c hc earlier hearlier
      exact absurd hearlier (hnone earlier)
    · intro c hc earlier hearlier hjob _
      -- the one share before has the same extra nonces
      rcases (mem_credited hs₂).mp hearlier with hearlier | hearlier
      · exact absurd hearlier (hnone earlier)
      · obtain ⟨-, -, hsound⟩ := credits_passed hc
        obtain ⟨-, -, hsound'⟩ := credits_passed hearlier
        rw [hsound'.coinbase, hsound.coinbase, hjob, (submitWith_credit hc).1,
          (submitWith_credit hearlier).1]
        simp only [coinbaseBuffer, submissionOf]
  · intro s₁ hs₁
    refine ⟨fun c hc => absurd hc (htemplate _ c), fun s₂ hs₂ => ⟨?_, fun s₃ hs₃ => ⟨?_, trivial⟩⟩⟩
    · exact hhex _ _ (by decide)
    · exact hhex _ _ (by decide)

theorem submitWith_credits {s : CreditPool} {job : Job} (nTime nonce : Str)
    (hid : job.jobId = "1".toList) (hdata : job.rpcData = sampleBlock.rpcData)
    (hjob : s.pool.manager.validJobs "1".toList = some job) (htime : jsLength nTime = 8)
    (hrange : nTimeOutOfRange 1 nTime 0 = false) (hnonce : jsLength nonce = 8)
    (hkey : submissionKey sampleEnv
      (submissionOf sampleClient "0000000000000000".toList nTime nonce)
        ∉ s.pool.manager.submissions job.serial) :
    ∃ s' c, step sampleConfig sampleEnv s (submitWith nTime nonce) = some s' ∧
      s'.credited = s.credited ++ [c] ∧ c.shareData.job = job ∧
      c.submission = submissionOf sampleClient "0000000000000000".toList nTime nonce ∧
      c.submitTime = 0 ∧ s'.pool.manager.validJobs = s.pool.manager.validJobs ∧
      s'.pool.manager.submissions job.serial
        = s.pool.manager.submissions job.serial ++ [submissionKey sampleEnv c.submission] := by
  obtain ⟨header, hheader⟩ := headerBuffer_isSome sampleEnv leafMerkle_correct
    job.toTemplate (submissionOf sampleClient "0000000000000000".toList nTime nonce)
    (by rw [hdata]; decide)
  rw [← hid] at hjob
  have hextra : jsLength "0000000000000000".toList = 16 := by decide
  have hshare := handleShare_eq sampleClient 0 hjob hextra htime
    (by rw [hdata]; exact hrange) hnonce (by decide) hkey hheader rfl
  rw [hid] at hshare
  exact ⟨_, _, step_accepted hshare, rfl, rfl, rfl, rfl, rfl, Function.update_self _ _ _⟩

/-- Two shares whose strings are not hex. -/
def notHexRun : List ManagerEvent :=
  [.primaryTemplate false true (.success sampleBlock) 0,
    submitWith "zzzzzzzz".toList "zzzzzzzz".toList, submitWith "zzzzzzzz".toList "yyyyyyyy".toList]

theorem notHexRun_twice :
    ∃ s a b, Run.exec (step sampleConfig sampleEnv) initial notHexRun = some s ∧
      s.credited = [a, b] ∧ a.shareData.job = b.shareData.job ∧
      a.shareData.header = b.shareData.header ∧
      ¬ TimeInRange a (headerTime a.shareData.header) ∧ ¬ CreditedOnce s := by
  have hjob : ∃ s job, step sampleConfig sampleEnv initial
      (.primaryTemplate false true (.success sampleBlock) 0) = some s ∧ s.credited = [] ∧
      s.pool.manager.validJobs "1".toList = some job ∧ job.jobId = "1".toList ∧
      job.rpcData = sampleBlock.rpcData ∧ s.pool.manager.submissions job.serial = [] :=
    ⟨_, _, rfl, rfl, rfl, rfl, rfl, rfl⟩
  obtain ⟨s₁, job, hs₁, hnone, hjob, hid, hdata, hnew⟩ := hjob
  obtain ⟨s₂, a, hs₂, hcredited, hajob, hasub, hatime, hvalid, hkeys⟩ := submitWith_credits
    "zzzzzzzz".toList "zzzzzzzz".toList hid hdata hjob (by decide) (by decide)
    (by decide) (by rw [hnew]; exact List.not_mem_nil)
  rw [hnew, hasub] at hkeys
  obtain ⟨s₃, b, hs₃, hcredited', hbjob, hbsub, -, -, -⟩ := submitWith_credits
    "zzzzzzzz".toList "yyyyyyyy".toList hid hdata (hvalid ▸ hjob) (by decide)
    (by decide) (by decide) (by rw [hkeys]; decide)
  rw [hcredited, hnone] at hcredited'
  have hexec : Run.exec (step sampleConfig sampleEnv) initial notHexRun = some s₃ := by
    rw [notHexRun, Run.exec, hs₁, Option.bind_some, Run.exec, hs₂, Option.bind_some, Run.exec, hs₃]
    rfl
  have hsound : AllSound sampleEnv s₃ := (Run.always_of_step allSound_step
    (fun c hc => absurd hc List.not_mem_nil)).exec hexec
  have ha : a.Sound sampleEnv := hsound a (by rw [hcredited']; simp)
  have hb : b.Sound sampleEnv := hsound b (by rw [hcredited']; simp)
  have hsame : a.shareData.job = b.shareData.job := hajob.trans hbjob.symm
  have hheader : a.shareData.header = b.shareData.header := by
    refine (header_eq_iff leafMerkle_correct ha hb hsame fun _ => ?_).mpr ?_
    · rw [ha.coinbase, hb.coinbase, hsame, hasub, hbsub]
      simp only [coinbaseBuffer, submissionOf]
    · rw [hasub, hbsub]
      decide
  refine ⟨s₃, a, b, hexec, hcredited', hsame, hheader, ?_, ?_⟩
  · -- nothing is decoded, and the job's second is 1
    rw [headerTime_credit leafMerkle_correct ha, hasub]
    intro hrange
    have hcurtime := hrange.1
    rw [hajob, hdata] at hcurtime
    exact absurd hcurtime (by decide)
  · intro h
    have hdistinct := h.distinct
    rw [hcredited', List.nil_append, List.singleton_append, List.pairwise_pair] at hdistinct
    exact hdistinct hsame hheader

end CreditPool

end DogeConnect
