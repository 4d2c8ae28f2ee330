/-
The wire format of transactions and blocks.

Numbers are written least significant byte first; the length of a list, which is
written in front of it, takes one, three, five or nine bytes and always as few
as can be.  A transaction with witnesses has a mark where others have the number
of their inputs, which is never zero.

All codes are prefix codes, so that a text has at most one reading.
-/
import DogeConnect.Lib.PrefixCode
import Mathlib.Algebra.Order.Group.Nat

namespace TxFormat

open PrefixCode

/-! ## Numbers -/

/-- The `n` least significant bytes. -/
def leText : Nat → Nat → List UInt8
  | 0, _ => []
  | n + 1, v => UInt8.ofNat v :: leText n (v / 256)

/-- A number is its least significant byte and the rest. -/
def leEquiv (n : Nat) : UInt8 × Fin (256 ^ n) ≃ Fin (256 ^ (n + 1)) where
  toFun p := ⟨p.1.toNat + 256 * p.2.1, by
    have hb := p.1.toNat_lt
    have hv := p.2.2
    rw [Nat.pow_succ]
    omega⟩
  invFun v := (UInt8.ofNat v.1, ⟨v.1 / 256, by
    have hv : v.1 < 256 ^ n * 256 := v.2
    omega⟩)
  left_inv := by
    rintro ⟨b, v⟩
    have hb := b.toNat_lt
    apply Prod.ext
    · apply UInt8.toNat_inj.mp
      change (UInt8.ofNat (b.toNat + 256 * v.1)).toNat = b.toNat
      rw [UInt8.toNat_ofNat']
      omega
    · apply Fin.ext
      change (b.toNat + 256 * v.1) / 256 = v.1
      omega
  right_inv := by
    intro v
    apply Fin.ext
    change (UInt8.ofNat v.1).toNat + 256 * (v.1 / 256) = v.1
    rw [UInt8.toNat_ofNat']
    omega

/-- The numbers of `n` bytes. -/
def le : (n : Nat) → PrefixCode UInt8 (Fin (256 ^ n))
  | 0 => nothing.iso ⟨fun _ => ⟨0, by decide⟩, fun _ => (), fun _ => rfl, fun v => by omega⟩
  | n + 1 => (symbol.seq (le n)).iso (leEquiv n)

theorem encode_le {n : Nat} (v : Fin (256 ^ n)) : (le n).encode v = leText n v.1 := by
  induction n with
  | zero => rfl
  | succ n ih => exact congrArg (UInt8.ofNat v.1 :: ·) (ih _)

/-- A number of at least `lo` that takes `n` bytes. -/
def decodeWide (n : Nat) (h : 256 ^ n ≤ 2 ^ 64) (lo : Nat) (s : List UInt8) :
    Option (Fin (2 ^ 64) × List UInt8) :=
  ((le n).decode s).bind fun q => if lo ≤ q.1.1 then some (q.1.castLE h, q.2) else none

theorem decodeWide_eq_some {n : Nat} (h : 256 ^ n ≤ 2 ^ 64) {lo : Nat} {s rest : List UInt8}
    {v : Fin (2 ^ 64)} :
    decodeWide n h lo s = some (v, rest) ↔ lo ≤ v.1 ∧ v.1 < 256 ^ n ∧ s = leText n v.1 ++ rest := by
  rw [decodeWide, Option.bind_eq_some_iff]
  constructor
  · rintro ⟨⟨w, t⟩, hdecode, hif⟩
    split at hif
    · next hlo =>
        cases hif
        refine ⟨hlo, w.2, ?_⟩
        rw [(le n).decode_eq_some.mp hdecode, encode_le]
        rfl
    · cases hif
  · rintro ⟨hlo, hlt, rfl⟩
    refine ⟨(⟨v.1, hlt⟩, rest), ?_, ?_⟩
    · rw [(le n).decode_eq_some, encode_le]
    · rw [if_pos hlo]
      rfl

/-- The text of a length, as short as can be. -/
def sizeText (v : Nat) : List UInt8 :=
  if v < 0xfd then [UInt8.ofNat v]
  else if v ≤ 0xffff then 0xfd :: leText 2 v
  else if v ≤ 0xffffffff then 0xfe :: leText 4 v
  else 0xff :: leText 8 v

/-- A length is read by its first byte; what would have been shorter is refused. -/
def decodeSize : List UInt8 → Option (Fin (2 ^ 64) × List UInt8)
  | [] => none
  | b :: s =>
      if b.toNat < 0xfd then some (⟨b.toNat, b.toNat_lt.trans (by decide)⟩, s)
      else if b = 0xfd then decodeWide 2 (by decide) 0xfd s
      else if b = 0xfe then decodeWide 4 (by decide) 0x10000 s
      else decodeWide 8 (by decide) 0x100000000 s

theorem decodeSize_sizeText (v : Fin (2 ^ 64)) (rest : List UInt8) :
    decodeSize (sizeText v.1 ++ rest) = some (v, rest) := by
  have hv := v.2
  rw [sizeText]
  split
  · next h =>
      have hbyte : (UInt8.ofNat v.1).toNat = v.1 := by
        rw [UInt8.toNat_ofNat']
        omega
      rw [List.singleton_append, decodeSize, if_pos (by rw [hbyte]; exact h)]
      exact congrArg (fun w => some (w, rest)) (Fin.ext hbyte)
  · next hfd =>
      split
      · next hfe =>
          rw [List.cons_append, decodeSize, if_neg (by decide), if_pos rfl, decodeWide_eq_some]
          exact ⟨by omega, by omega, rfl⟩
      · next hfe =>
          split
          · next hff =>
              rw [List.cons_append, decodeSize, if_neg (by decide), if_neg (by decide),
                if_pos rfl, decodeWide_eq_some]
              exact ⟨by omega, by omega, rfl⟩
          · next hff =>
              rw [List.cons_append, decodeSize, if_neg (by decide), if_neg (by decide),
                if_neg (by decide), decodeWide_eq_some]
              exact ⟨by omega, by omega, rfl⟩

theorem sizeText_decodeSize {s rest : List UInt8} {v : Fin (2 ^ 64)}
    (h : decodeSize s = some (v, rest)) : s = sizeText v.1 ++ rest := by
  cases s with
  | nil => cases h
  | cons b s =>
      have hb := b.toNat_lt
      rw [decodeSize] at h
      split at h
      · next hlt =>
          cases h
          rw [sizeText, if_pos hlt, UInt8.ofNat_toNat]
          rfl
      · split at h
        · next hmark =>
            obtain ⟨hlo, hhi, rfl⟩ := (decodeWide_eq_some _).mp h
            rw [sizeText, if_neg (by omega), if_pos (by omega), hmark]
            rfl
        · split at h
          · next hmark =>
              obtain ⟨hlo, hhi, rfl⟩ := (decodeWide_eq_some _).mp h
              rw [sizeText, if_neg (by omega), if_neg (by omega), if_pos (by omega), hmark]
              rfl
          · next hge hfd hfe =>
              obtain ⟨hlo, hhi, rfl⟩ := (decodeWide_eq_some _).mp h
              have hff : b = 0xff := by
                apply UInt8.toNat_inj.mp
                have h1 : b.toNat ≠ 0xfd := fun he => hfd (UInt8.toNat_inj.mp he)
                have h2 : b.toNat ≠ 0xfe := fun he => hfe (UInt8.toNat_inj.mp he)
                change b.toNat = 255
                omega
              rw [sizeText, if_neg (by omega), if_neg (by omega), if_neg (by omega), hff]
              rfl

def compactSize : PrefixCode UInt8 (Fin (2 ^ 64)) where
  encode v := sizeText v.1
  decode := decodeSize
  decode_eq_some := by
    intro s v rest
    constructor
    · exact sizeText_decodeSize
    · rintro rfl
      exact decodeSize_sizeText v rest

theorem sizeText_head {v : Nat} (h : v ≠ 0) (s : List UInt8) : (sizeText v ++ s).head? ≠ some 0 := by
  rw [sizeText]
  split
  · next hlt =>
      intro hzero
      have hbyte := congrArg UInt8.toNat (Option.some.inj hzero)
      rw [UInt8.toNat_ofNat'] at hbyte
      change v % 256 = 0 at hbyte
      omega
  · have hmark {b : UInt8} (hb : b ≠ 0) (t : List UInt8) : (b :: t).head? ≠ some 0 := by
      intro hzero
      exact hb (Option.some.inj hzero)
    split
    · exact hmark (by decide) _
    · split
      · exact hmark (by decide) _
      · exact hmark (by decide) _

/-! ## Transactions -/

/-- Bytes behind their number. -/
abbrev VarBytes := Short (2 ^ 64) UInt8

def varBytes : PrefixCode UInt8 VarBytes := counted compactSize symbol

/-- Exactly `n` bytes. -/
abbrev Bytes (n : Nat) := {bs : List UInt8 // bs.length = n}

structure TxIn where
  prevHash : Bytes 32
  prevIndex : Fin (256 ^ 4)
  script : VarBytes
  sequence : Fin (256 ^ 4)

def txIn : PrefixCode UInt8 TxIn :=
  ((symbol.many 32).seq ((le 4).seq (varBytes.seq (le 4)))).iso {
    toFun := fun p => ⟨p.1, p.2.1, p.2.2.1, p.2.2.2⟩
    invFun := fun t => (t.prevHash, t.prevIndex, t.script, t.sequence)
    left_inv := fun _ => rfl
    right_inv := fun _ => rfl }

theorem encode_txIn (t : TxIn) : txIn.encode t = t.prevHash.1 ++ (leText 4 t.prevIndex.1
    ++ (varBytes.encode t.script ++ leText 4 t.sequence.1)) := by
  have hself : t.prevHash.1.flatMap symbol.encode = t.prevHash.1 := List.flatMap_singleton' _
  change t.prevHash.1.flatMap symbol.encode ++ ((le 4).encode t.prevIndex
    ++ (varBytes.encode t.script ++ (le 4).encode t.sequence)) = _
  rw [hself, encode_le, encode_le]

structure TxOut where
  value : Fin (256 ^ 8)
  script : VarBytes

def txOut : PrefixCode UInt8 TxOut :=
  ((le 8).seq varBytes).iso {
    toFun := fun p => ⟨p.1, p.2⟩
    invFun := fun t => (t.value, t.script)
    left_inv := fun _ => rfl
    right_inv := fun _ => rfl }

/-- The inputs, at least one, and the outputs. -/
abbrev Body := {body : Short (2 ^ 64) TxIn × Short (2 ^ 64) TxOut // body.1.1 ≠ []}

def body : PrefixCode UInt8 Body :=
  ((counted compactSize txIn).seq (counted compactSize txOut)).restrict fun body => body.1.1 ≠ []

/-- The stacks of the witnesses, one for each input. -/
abbrev Witness (b : Body) := 
  {ws : List (Short (2 ^ 64) VarBytes) // ws.length = b.1.1.1.length}

def witness (b : Body) : PrefixCode UInt8 (Witness b) := (counted compactSize varBytes).many _

/-- In front of inputs with witnesses: no inputs, and a flag. -/
def witnessMark : List UInt8 := [0, 1]

theorem body_unmarked (b : Body) (rest : List UInt8) : ¬ witnessMark <+: body.encode b ++ rest := by
  rintro ⟨t, ht⟩
  have hlength : b.1.1.1.length ≠ 0 := fun h => b.2 (List.eq_nil_of_length_eq_zero h)
  have hhead := sizeText_head hlength
    (b.1.1.1.flatMap txIn.encode ++ ((counted compactSize txOut).encode b.1.2 ++ rest))
  apply hhead
  have hencode : body.encode b ++ rest = sizeText b.1.1.1.length
      ++ (b.1.1.1.flatMap txIn.encode ++ ((counted compactSize txOut).encode b.1.2 ++ rest)) := by
    change (sizeText _ ++ _) ++ _ ++ rest = _
    simp only [List.append_assoc]
    rfl
  rw [← hencode, ← ht]
  rfl

structure Tx where
  version : Fin (256 ^ 4)
  body : Body
  witness : Option (Witness body)
  lockTime : Fin (256 ^ 4)

/-- Inputs and outputs, with witnesses or without. -/
def witnessEquiv : Body ⊕ (Σ b, Witness b) ≃ Σ b, Option (Witness b) where
  toFun
    | .inl b => ⟨b, none⟩
    | .inr p => ⟨p.1, some p.2⟩
  invFun
    | ⟨b, none⟩ => .inl b
    | ⟨b, some w⟩ => .inr ⟨b, w⟩
  left_inv := by
    rintro (b | p) <;> rfl
  right_inv := by
    rintro ⟨b, _ | w⟩ <;> rfl

def tx : PrefixCode UInt8 Tx :=
  ((le 4).seq (((body.either (body.sigma witness) witnessMark body_unmarked).iso witnessEquiv).seq
    (le 4))).iso {
    toFun := fun p => ⟨p.1, p.2.1.1, p.2.1.2, p.2.2⟩
    invFun := fun t => (t.version, ⟨t.body, t.witness⟩, t.lockTime)
    left_inv := fun _ => rfl
    right_inv := fun _ => rfl }

theorem encode_tx (version lockTime : Fin (256 ^ 4)) (b : Body) :
    tx.encode ⟨version, b, none, lockTime⟩ = leText 4 version.1
      ++ (sizeText b.1.1.1.length ++ b.1.1.1.flatMap txIn.encode
        ++ (sizeText b.1.2.1.length ++ b.1.2.1.flatMap txOut.encode))
      ++ leText 4 lockTime.1 := by
  change (le 4).encode version ++ (body.encode b ++ (le 4).encode lockTime) = _
  rw [encode_le, encode_le, List.append_assoc]
  rfl

namespace Tx

def ins (t : Tx) : List TxIn := t.body.1.1.1

def outs (t : Tx) : List TxOut := t.body.1.2.1

/-- What the transaction's id is the hash of. -/
def strip (t : Tx) : Tx := { t with witness := none }

end Tx

/-! ## Blocks -/

structure Block where
  header : Bytes 80
  txs : Short (2 ^ 64) Tx

def block : PrefixCode UInt8 Block :=
  ((symbol.many 80).seq (counted compactSize tx)).iso {
    toFun := fun p => ⟨p.1, p.2⟩
    invFun := fun b => (b.header, b.txs)
    left_inv := fun _ => rfl
    right_inv := fun _ => rfl }

end TxFormat
