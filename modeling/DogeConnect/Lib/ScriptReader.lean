/-
Reading a script: which bytes its operations push.

The first byte of an operation is the number of bytes it pushes, or says how
many bytes that number has, or is the code of an operation; two of the codes and
those of the small numbers push one byte of their own.  A script that ends
inside an operation cannot be read.
-/
import DogeConnect.Lib.TxFormat

namespace ScriptReader

/-- An operation, as far as it can be told without running the script. -/
inductive Op where
  | push (bytes : List UInt8)
  | code (n : Nat)
  deriving DecidableEq, Repr

def takeBytes (n : Nat) (s : List UInt8) : Option (Op × List UInt8) :=
  if n ≤ s.length then some (.push (s.take n), s.drop n) else none

/-- A push whose number of bytes is written in `k` bytes. -/
def readPush (k : Nat) (s : List UInt8) : Option (Op × List UInt8) :=
  ((TxFormat.le k).decode s).bind fun q => takeBytes q.1.1 q.2

def readOp : List UInt8 → Option (Op × List UInt8)
  | [] => none
  | b :: s =>
      if b.toNat ≤ 75 then takeBytes b.toNat s
      else if b.toNat = 76 then readPush 1 s
      else if b.toNat = 77 then readPush 2 s
      else if b.toNat = 78 then readPush 4 s
      else if b.toNat = 79 then some (.push [0x81], s)
      else if 81 ≤ b.toNat ∧ b.toNat ≤ 96 then some (.push [UInt8.ofNat (b.toNat - 80)], s)
      else some (.code b.toNat, s)

/-- At most `fuel` operations. -/
def readOps : Nat → List UInt8 → Option (List Op)
  | _, [] => some []
  | 0, _ :: _ => none
  | fuel + 1, b :: s => (readOp (b :: s)).bind fun q => (readOps fuel q.2).map (q.1 :: ·)

/-- An operation takes at least a byte. -/
def readScript (s : List UInt8) : Option (List Op) := readOps s.length s

theorem takeBytes_append (bytes rest : List UInt8) :
    takeBytes bytes.length (bytes ++ rest) = some (.push bytes, rest) := by
  rw [takeBytes, if_pos (by rw [List.length_append]; omega), List.take_left, List.drop_left]

theorem readPush_append {k : Nat} {bytes : List UInt8} (h : bytes.length < 256 ^ k)
    (rest : List UInt8) :
    readPush k (TxFormat.leText k bytes.length ++ (bytes ++ rest)) = some (.push bytes, rest) := by
  have hdecode := (TxFormat.le k).decode_encode ⟨bytes.length, h⟩ (bytes ++ rest)
  rw [TxFormat.encode_le] at hdecode
  rw [readPush, hdecode]
  exact takeBytes_append bytes rest

theorem readOp_small {bytes : List UInt8} (h : bytes.length ≤ 75) (rest : List UInt8) :
    readOp (UInt8.ofNat bytes.length :: (bytes ++ rest)) = some (.push bytes, rest) := by
  have hbyte : (UInt8.ofNat bytes.length).toNat = bytes.length := by
    rw [UInt8.toNat_ofNat']
    omega
  rw [readOp, hbyte, if_pos h]
  exact takeBytes_append bytes rest

theorem readOps_cons {fuel : Nat} {s rest : List UInt8} {op : Op} (h : readOp s = some (op, rest)) :
    readOps (fuel + 1) s = (readOps fuel rest).map (op :: ·) := by
  cases s with
  | nil => cases h
  | cons b s => rw [readOps, h, Option.bind_some]

theorem readOps_flatMap {α : Type} {text : α → List UInt8} {op : α → Op} {as : List α}
    (hread : ∀ a ∈ as, ∀ rest, readOp (text a ++ rest) = some (op a, rest)) {fuel : Nat}
    (hfuel : as.length ≤ fuel) : readOps fuel (as.flatMap text) = some (as.map op) := by
  induction as generalizing fuel with
  | nil => cases fuel <;> rfl
  | cons a as ih =>
      obtain ⟨fuel, rfl⟩ : ∃ m, fuel = m + 1 := ⟨fuel - 1, by rw [List.length_cons] at hfuel; omega⟩
      have hrest := ih (fun b hb => hread b (List.mem_cons_of_mem a hb))
        (Nat.le_of_succ_le_succ hfuel)
      rw [List.flatMap_cons, readOps_cons (hread a List.mem_cons_self _), hrest]
      rfl

theorem readScript_flatMap {α : Type} {text : α → List UInt8} {op : α → Op} {as : List α}
    (hread : ∀ a ∈ as, ∀ rest, readOp (text a ++ rest) = some (op a, rest)) :
    readScript (as.flatMap text) = some (as.map op) := by
  refine readOps_flatMap hread ?_
  -- no text is empty, since none reads as an operation
  have hpos : ∀ a ∈ as, 1 ≤ (text a).length := by
    intro a ha
    by_contra hzero
    have hnil : text a = [] := List.eq_nil_of_length_eq_zero (by omega)
    have hnone := hread a ha []
    rw [hnil] at hnone
    cases hnone
  clear hread
  induction as with
  | nil => exact Nat.le_refl 0
  | cons a as ih =>
      have hrest := ih fun b hb => hpos b (List.mem_cons_of_mem a hb)
      have ha := hpos a List.mem_cons_self
      rw [List.flatMap_cons, List.length_append, List.length_cons]
      omega

end ScriptReader
