/-
`hash_util.cpp`: hex conversion, the merkle root, the target comparison.

A `std::string` is a list of characters, one per byte.  Double SHA-256 is a
parameter wherever it occurs; nothing here depends on what it computes.

The hex pair is used in both byte orders on both sides of the dispatcher, so
its two facts are stated for arbitrary lists: printing and reading back is the
identity, and on well-formed input the reader is the digit-wise one although
the code goes through `strtol`, which also accepts blanks and signs.
-/
import DogeConnect.Bytes

namespace DogeConnect

/-- `std::string`, and the strings of the JSON values that travel in it. -/
abbrev Str := List Char

/-- `enum class ByteArrayFormat`. -/
inductive ByteArrayFormat
  | LittleEndian
  | BigEndian
  deriving DecidableEq, Repr

/-! ## Hex digits -/

/-- The value of a hex digit of either case. -/
def hexVal (c : Char) : Option Nat :=
  if '0' ≤ c ∧ c ≤ '9' then some (c.toNat - 48)
  else if 'a' ≤ c ∧ c ≤ 'f' then some (c.toNat - 87)
  else if 'A' ≤ c ∧ c ≤ 'F' then some (c.toNat - 55)
  else none

/-- A lower-case hex digit. -/
def hexDigit (n : Nat) : Char :=
  if n < 10 then Char.ofNat (48 + n) else Char.ofNat (87 + n)

theorem hexVal_hexDigit {n : Nat} (h : n < 16) : hexVal (hexDigit n) = some n := by
  have : ∀ k : Fin 16, hexVal (hexDigit k) = some k.val := by decide
  exact this ⟨n, h⟩

theorem toNat_of_hexVal {c : Char} {x : Nat} (h : hexVal c = some x) :
    (48 ≤ c.toNat ∧ c.toNat ≤ 57 ∧ x = c.toNat - 48) ∨
    (97 ≤ c.toNat ∧ c.toNat ≤ 102 ∧ x = c.toNat - 87) ∨
    (65 ≤ c.toNat ∧ c.toNat ≤ 70 ∧ x = c.toNat - 55) := by
  simp only [hexVal, Char.le_def, UInt32.le_iff_toNat_le] at h
  change (if 48 ≤ c.toNat ∧ c.toNat ≤ 57 then some (c.toNat - 48)
    else if 97 ≤ c.toNat ∧ c.toNat ≤ 102 then some (c.toNat - 87)
    else if 65 ≤ c.toNat ∧ c.toNat ≤ 70 then some (c.toNat - 55) else none) = some x at h
  split_ifs at h with h₁ h₂ h₃
  · cases h
    exact .inl ⟨h₁.1, h₁.2, rfl⟩
  · cases h
    exact .inr (.inl ⟨h₂.1, h₂.2, rfl⟩)
  · cases h
    exact .inr (.inr ⟨h₃.1, h₃.2, rfl⟩)

theorem hexVal_lt {c : Char} {x : Nat} (h : hexVal c = some x) : x < 16 := by
  rcases toNat_of_hexVal h with h | h | h
  · omega
  · omega
  · omega

/-- `isspace` in the C locale. -/
def isSpace (c : Char) : Bool := c = ' ' || ('\t' ≤ c && c ≤ '\r')

/-- The digits `strtol(s, NULL, 16)` reads: up to the first character that is
not a hex digit. -/
def hexPrefixVal (s : Str) : Nat :=
  (s.takeWhile (fun c => (hexVal c).isSome)).foldl (fun acc c => acc * 16 + (hexVal c).getD 0) 0

/-- `strtol(s, NULL, 16)` on a string of at most two characters: blanks, a sign,
digits.  The optional `0x` needs a third character to matter. -/
def strtolHex (s : Str) : Int :=
  match s.dropWhile isSpace with
  | '-' :: ds => -(hexPrefixVal ds : Int)
  | '+' :: ds => hexPrefixVal ds
  | ds => hexPrefixVal ds

/-- The cast `(uint8_t)` of a `long`. -/
def toByte (i : Int) : UInt8 := UInt8.ofNat (i % 256).toNat

/-! ## `hexToBytes` and `bytesToHex` -/

/-- The loop of `hexToBytes`: two characters at a time, an odd last one left. -/
def hexPairs : Str → List UInt8
  | a :: b :: rest => toByte (strtolHex [a, b]) :: hexPairs rest
  | _ => []

def hexToBytes (hex : Str) (byteFormat : ByteArrayFormat) : List UInt8 :=
  match byteFormat with
  | .LittleEndian => (hexPairs hex).reverse
  | .BigEndian => hexPairs hex

/-- One byte through `std::hex`, `setw(2)` and `setfill('0')`. -/
def byteToHex (b : UInt8) : Str := [hexDigit (b.toNat / 16), hexDigit (b.toNat % 16)]

def bytesToHex (bytes : List UInt8) (byteFormat : ByteArrayFormat) : Str :=
  match byteFormat with
  | .BigEndian => bytes.flatMap byteToHex
  | .LittleEndian => bytes.reverse.flatMap byteToHex

/-- A string of hex digits. -/
def IsHex (s : Str) : Prop := ∀ c ∈ s, (hexVal c).isSome

instance (s : Str) : Decidable (IsHex s) :=
  decidable_of_iff (s.all (fun c => (hexVal c).isSome) = true) (by simp [IsHex])

theorem not_space_of_hexVal {c : Char} (h : (hexVal c).isSome) :
    isSpace c = false ∧ c ≠ '-' ∧ c ≠ '+' := by
  refine ⟨?_, fun hc => by subst hc; simp [hexVal] at h, fun hc => by subst hc; simp [hexVal] at h⟩
  rw [← Bool.not_eq_true]
  intro hs
  simp only [isSpace, Bool.or_eq_true, decide_eq_true_eq, Bool.and_eq_true, Char.le_def,
    UInt32.le_iff_toNat_le] at hs
  rcases hs with rfl | ⟨-, h2⟩
  · simp [hexVal] at h
  · simp only [hexVal, Char.le_def, UInt32.le_iff_toNat_le] at h
    simp at h2
    simp at h
    split at h
    · omega
    split at h
    · omega
    split at h
    · omega
    · cases h

/-- On two hex digits `strtol` reads the two-digit number. -/
theorem strtolHex_of_hexVal {a b : Char} {x y : Nat} (ha : hexVal a = some x)
    (hb : hexVal b = some y) : strtolHex [a, b] = ((x * 16 + y : Nat) : Int) := by
  obtain ⟨hs, hm, hp⟩ := not_space_of_hexVal (c := a) (by simp [ha])
  have hdrop : [a, b].dropWhile isSpace = [a, b] := by simp [List.dropWhile, hs]
  have hval : hexPrefixVal [a, b] = x * 16 + y := by
    simp [hexPrefixVal, List.takeWhile, ha, hb]
  unfold strtolHex
  rw [hdrop]
  split
  · next h => cases h; exact absurd rfl hm
  · next h => cases h; exact absurd rfl hp
  · rw [hval]

theorem toByte_natCast (n : Nat) : toByte (n : Int) = UInt8.ofNat n := by
  apply UInt8.toNat_inj.mp
  simp only [toByte, UInt8.toNat_ofNat']
  omega

theorem toNat_twoDigits {x y : Nat} (hx : x < 16) (hy : y < 16) :
    (UInt8.ofNat (x * 16 + y)).toNat = x * 16 + y := by
  rw [UInt8.toNat_ofNat', Nat.mod_eq_of_lt (by omega)]

theorem byteToHex_twoDigits {x y : Nat} (hx : x < 16) (hy : y < 16) :
    byteToHex (UInt8.ofNat (x * 16 + y)) = [hexDigit x, hexDigit y] := by
  rw [byteToHex, toNat_twoDigits hx hy, show (x * 16 + y) / 16 = x by omega,
    show (x * 16 + y) % 16 = y by omega]

theorem hexPairs_byteToHex (b : UInt8) (rest : Str) :
    hexPairs (byteToHex b ++ rest) = b :: hexPairs rest := by
  have hb : b.toNat < 256 := b.toNat_lt
  have hhi := hexVal_hexDigit (show b.toNat / 16 < 16 by omega)
  have hlo := hexVal_hexDigit (show b.toNat % 16 < 16 by omega)
  have hsum : b.toNat / 16 * 16 + b.toNat % 16 = b.toNat := by omega
  simp only [byteToHex, List.cons_append, List.nil_append, hexPairs,
    strtolHex_of_hexVal hhi hlo, toByte_natCast, hsum, UInt8.ofNat_toNat]

theorem hexPairs_flatMap : ∀ bytes : List UInt8, hexPairs (bytes.flatMap byteToHex) = bytes
  | [] => rfl
  | b :: bs => by rw [List.flatMap_cons, hexPairs_byteToHex, hexPairs_flatMap bs]

theorem hexToBytes_bytesToHex (bytes : List UInt8) (f : ByteArrayFormat) :
    hexToBytes (bytesToHex bytes f) f = bytes := by
  cases f with
  | BigEndian => exact hexPairs_flatMap bytes
  | LittleEndian => simp [hexToBytes, bytesToHex, hexPairs_flatMap]

theorem hexPairs_length : ∀ s : Str, (hexPairs s).length = s.length / 2
  | [] => rfl
  | [_] => by simp [hexPairs]
  | _ :: _ :: rest => by
      simp only [hexPairs, List.length_cons, hexPairs_length rest]
      omega

@[simp] theorem hexToBytes_length (s : Str) (f : ByteArrayFormat) :
    (hexToBytes s f).length = s.length / 2 := by
  cases f <;> simp [hexToBytes, hexPairs_length]

@[simp] theorem byteToHex_length (b : UInt8) : (byteToHex b).length = 2 := rfl

@[simp] theorem bytesToHex_length (bytes : List UInt8) (f : ByteArrayFormat) :
    (bytesToHex bytes f).length = 2 * bytes.length := by
  have h : ∀ bs : List UInt8, (bs.flatMap byteToHex).length = 2 * bs.length := by
    intro bs
    induction bs with
    | nil => rfl
    | cons b bs ih => simp only [List.flatMap_cons, List.length_append, byteToHex_length, ih,
        List.length_cons]; omega
  cases f <;> simp [bytesToHex, h]

theorem bytesToHex_inj {bs cs : List UInt8} {f : ByteArrayFormat}
    (h : bytesToHex bs f = bytesToHex cs f) : bs = cs := by
  rw [← hexToBytes_bytesToHex bs f, ← hexToBytes_bytesToHex cs f, h]

/-! ## The merkle root of a coinbase -/

section
variable (doubleSHA256 : List UInt8 → ByteArr 32)

def calculateMerkleRoot (coinbase1 coinbase2 extraNonce1 extraNonce2 : List UInt8)
    (merkleBranches : List (List UInt8)) : ByteArr 32 :=
  let coinbase := coinbase1 ++ extraNonce1 ++ extraNonce2 ++ coinbase2
  merkleBranches.foldl (fun currentHash branch => doubleSHA256 (currentHash.toList ++ branch))
    (doubleSHA256 coinbase)

end

/-! ## The target comparison -/

/-- The loop of `verifyHashVsTarget` from index `i - 1` down to 0. -/
def verifyHashFrom (hash target : ByteArr 32) : Nat → Bool
  | 0 => true
  | i + 1 =>
      if hash.byte i < target.byte i then true
      else if hash.byte i > target.byte i then false
      else verifyHashFrom hash target i

def verifyHashVsTarget (hash target : ByteArr 32) : Bool := verifyHashFrom hash target 32

/-- The loop is the comparison of the low `k` bytes from the top. -/
theorem verifyHashFrom_eq (hash target : ByteArr 32) : ∀ k ≤ 32,
    verifyHashFrom hash target k
      = Digits.msdLe (((hash.toList.map UInt8.toNat).take k).zip
          ((target.toList.map UInt8.toNat).take k)).reverse
  | 0, _ => rfl
  | k + 1, hk => by
      have hh : k < (hash.toList.map UInt8.toNat).length := by simp; omega
      have ht : k < (target.toList.map UInt8.toNat).length := by simp; omega
      have hlen : ((hash.toList.map UInt8.toNat).take k).length
          = ((target.toList.map UInt8.toNat).take k).length := by simp
      rw [List.take_add_one, List.take_add_one, List.getElem?_eq_getElem hh,
        List.getElem?_eq_getElem ht]
      simp only [Option.toList_some]
      rw [List.zip_append hlen, List.reverse_append]
      simp only [List.zip_cons_cons, List.zip_nil_right, List.reverse_cons, List.reverse_nil,
        List.nil_append, List.singleton_append, Digits.msdLe, verifyHashFrom,
        hash.byte_eq_getElem (by simpa using hh), target.byte_eq_getElem (by simpa using ht), List.getElem_map, UInt8.lt_iff_toNat_lt,
        gt_iff_lt, verifyHashFrom_eq hash target k (by omega)]

/-- The comparison is `≤` on the numbers. -/
theorem verifyHashVsTarget_iff (hash target : ByteArr 32) :
    verifyHashVsTarget hash target = true ↔ hash.val ≤ target.val := by
  have hh : (hash.toList.map UInt8.toNat).length ≤ 32 := by simp
  have ht : (target.toList.map UInt8.toNat).length ≤ 32 := by simp
  rw [verifyHashVsTarget, verifyHashFrom_eq hash target 32 le_rfl, List.take_of_length_le hh,
    List.take_of_length_le ht]
  exact Digits.msdLe_iff (by simp) (digits_lt _) (digits_lt _)

end DogeConnect
