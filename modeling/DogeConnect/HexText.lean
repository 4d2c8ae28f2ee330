/-
`hash_util.cpp`, the hex pair statement by statement.

HashUtil has the pair as what it computes.  Here `hexToBytes` runs an index over
the string and hands two characters at a time to `strtol`, and `bytesToHex`
prints into a `std::stringstream`, which keeps its base and its fill character
but forgets the width after every number.

    strtol_eq             on two characters `strtol` is the reader of HashUtil
    putBytes_str          a stream in hex and zeros prints two digits a byte
    hexToBytes_eq,
    bytesToHex_eq         the pair is that of HashUtil
    exists_writeAll_iff   what is printed: an even number of lower-case digits
    hexEquiv              bytes and these strings are in bijection

A byte's two digits are a layout of fixed width, and both round trips are those
of lists of such values.
-/
import DogeConnect.HashUtil
import DogeConnect.Lib.Layout
import Mathlib.Logic.Equiv.Defs

namespace DogeConnect

namespace HexText

/-! ## `strtol` -/

/-- The string that `s.c_str()` points to: a C string ends at the first NUL. -/
def cStr (s : Str) : Str := s.takeWhile (· ≠ Char.ofNat 0)

/-- In base 16 a mark `0x` is skipped, if a digit follows it. -/
def skipHexMark : Str → Str
  | '0' :: x :: c :: s =>
    if (x = 'x' ∨ x = 'X') ∧ (hexVal c).isSome then c :: s else '0' :: x :: c :: s
  | s => s

def LONG_MAX : Int := 2 ^ 63 - 1

def LONG_MIN : Int := -2 ^ 63

/-- `strtol(s.c_str(), NULL, 16)`: blanks, a sign, a mark, digits. -/
def strtol (s : Str) : Int :=
  match (cStr s).dropWhile isSpace with
  | '-' :: ds => max LONG_MIN (-(hexPrefixVal (skipHexMark ds) : Int))
  | '+' :: ds => min LONG_MAX (hexPrefixVal (skipHexMark ds))
  | ds => min LONG_MAX (hexPrefixVal (skipHexMark ds))

/-! ## `std::stringstream` -/

/-- What the stream holds between two insertions. -/
structure StringStream where
  base : Nat := 10
  fill : Char := ' '
  width : Nat := 0
  str : Str := []

namespace StringStream

/-- `ss << std::hex`. -/
def hex (ss : StringStream) : StringStream := { ss with base := 16 }

def setfill (ss : StringStream) (c : Char) : StringStream := { ss with fill := c }

def setw (ss : StringStream) (n : Nat) : StringStream := { ss with width := n }

/-- `ss << n` for an `int` that is not negative: filled up on the left to the
width, which goes back to zero. -/
def put (ss : StringStream) (n : Nat) : StringStream :=
  { ss with str := ss.str ++ (Nat.toDigits ss.base n).leftpad ss.width ss.fill, width := 0 }

/-- The loop over the bytes. -/
def putBytes (ss : StringStream) (bytes : List UInt8) : StringStream :=
  bytes.foldl (fun ss byte => (ss.setw 2).put byte.toNat) ss

end StringStream

/-! ## The pair -/

/-- `s.substr(pos, n)`. -/
def substr (s : Str) (pos n : Nat) : Str := (s.drop pos).take n

def hexToBytes (hex : Str) (byteFormat : ByteArrayFormat) : List UInt8 :=
  let lengthFullBytes := 2 * (hex.length / 2)
  -- i = 0, 2, 4, … below `lengthFullBytes`
  let bytes := (List.range' 0 (lengthFullBytes / 2) 2).foldl
    (fun bytes i => bytes ++ [toByte (strtol (substr hex i 2))]) []
  match byteFormat with
  | .LittleEndian => bytes.reverse
  | .BigEndian => bytes

def bytesToHex (bytes : List UInt8) (byteFormat : ByteArrayFormat) : Str :=
  if bytes.isEmpty then []
  else
    let ss := (StringStream.hex {}).setfill '0'
    match byteFormat with
    | .BigEndian => (ss.putBytes bytes).str
    | .LittleEndian => (ss.putBytes bytes.reverse).str

/-! ## Reading two characters -/

theorem hexPrefixVal_cStr (s : Str) : hexPrefixVal (cStr s) = hexPrefixVal s := by
  have hdigits : (cStr s).takeWhile (fun c => (hexVal c).isSome)
      = s.takeWhile fun c => (hexVal c).isSome := by
    induction s with
    | nil => rfl
    | cons c s ih =>
        rw [cStr, List.takeWhile_cons]
        rw [cStr] at ih
        by_cases hnul : c = Char.ofNat 0
        · subst hnul
          rfl
        · rw [if_pos (by simpa using hnul), List.takeWhile_cons, ih, List.takeWhile_cons]
  rw [hexPrefixVal, hexPrefixVal, hdigits]

theorem cStr_cons {c : Char} (h : c ≠ Char.ofNat 0) (s : Str) : cStr (c :: s) = c :: cStr s := by
  rw [cStr, List.takeWhile_cons, if_pos (by simpa using h), cStr]

theorem dropWhile_cStr (s : Str) : (cStr s).dropWhile isSpace = cStr (s.dropWhile isSpace) := by
  induction s with
  | nil => rfl
  | cons c s ih =>
      by_cases hspace : isSpace c = true
      · have hnul : c ≠ Char.ofNat 0 := by
          rintro rfl
          exact absurd hspace (by decide)
        rw [cStr_cons hnul, List.dropWhile_cons_of_pos hspace, List.dropWhile_cons_of_pos hspace, ih]
      · rw [List.dropWhile_cons_of_neg hspace]
        by_cases hnul : c = Char.ofNat 0
        · subst hnul
          rfl
        · rw [cStr_cons hnul, List.dropWhile_cons_of_neg hspace]

theorem skipHexMark_of_length {s : Str} (h : s.length ≤ 2) : skipHexMark s = s := by
  unfold skipHexMark
  split
  next c rest =>
    simp only [List.length_cons] at h
    omega
  next => rfl

/-- Up to two digits do not reach the limits of a `long`. -/
theorem hexPrefixVal_lt (s : Str) : hexPrefixVal s < 16 ^ s.length := by
  have hvalue : hexPrefixVal s = Nat.ofDigits 16
      ((s.takeWhile fun c => (hexVal c).isSome).map fun c => (hexVal c).getD 0).reverse := by
    rw [← Digits.horner_reverse, List.reverse_reverse, Digits.horner, List.foldl_map, hexPrefixVal]
  have hdigits : ∀ d ∈ ((s.takeWhile fun c => (hexVal c).isSome).map fun c =>
      (hexVal c).getD 0).reverse, d < 16 := by
    intro d hd
    obtain ⟨c, -, rfl⟩ := List.mem_map.mp (List.mem_reverse.mp hd)
    cases hc : hexVal c with
    | none => exact Nat.zero_lt_succ 15
    | some x => exact hexVal_lt hc
  have hlt := Nat.ofDigits_lt_base_pow_length (by decide) hdigits
  rw [List.length_reverse, List.length_map] at hlt
  rw [hvalue]
  exact Nat.lt_of_lt_of_le hlt
    (Nat.pow_le_pow_right (by decide) (List.takeWhile_sublist _).length_le)

theorem hexPrefixVal_skipHexMark {s : Str} (h : s.length ≤ 2) :
    hexPrefixVal (skipHexMark (cStr s)) = hexPrefixVal s := by
  have hlen : (cStr s).length ≤ 2 := Nat.le_trans (List.takeWhile_sublist _).length_le h
  rw [skipHexMark_of_length hlen, hexPrefixVal_cStr]

theorem hexPrefixVal_le_max {s : Str} (h : s.length ≤ 2) : (hexPrefixVal s : Int) ≤ LONG_MAX := by
  have hlt := hexPrefixVal_lt s
  have hpow : 16 ^ s.length ≤ 16 ^ 2 := Nat.pow_le_pow_right (by decide) h
  rw [LONG_MAX]
  omega

/-- On two characters there is no room for a mark, and nothing overflows. -/
theorem strtol_eq {s : Str} (h : s.length ≤ 2) : strtol s = strtolHex s := by
  have hlen : (s.dropWhile isSpace).length ≤ 2 :=
    Nat.le_trans (List.dropWhile_sublist _).length_le h
  rw [strtol, strtolHex, dropWhile_cStr]
  generalize s.dropWhile isSpace = t at hlen
  cases t with
  | nil => rfl
  | cons c ds =>
      have hds : ds.length ≤ 2 := by
        rw [List.length_cons] at hlen
        omega
      have hmax := hexPrefixVal_le_max hds
      have hmax' := hexPrefixVal_le_max hlen
      by_cases hminus : c = '-'
      · subst hminus
        rw [cStr_cons (by decide)]
        simp only [hexPrefixVal_skipHexMark hds]
        rw [LONG_MIN]
        rw [LONG_MAX] at hmax
        omega
      by_cases hplus : c = '+'
      · subst hplus
        rw [cStr_cons (by decide)]
        simp only [hexPrefixVal_skipHexMark hds]
        omega
      by_cases hnul : c = Char.ofNat 0
      · subst hnul
        rfl
      have hvalue : hexPrefixVal (skipHexMark (c :: cStr ds)) = hexPrefixVal (c :: ds) := by
        rw [← cStr_cons hnul, hexPrefixVal_skipHexMark hlen]
      rw [cStr_cons hnul]
      split
      next heq => exact absurd (List.cons.inj heq).1 hminus
      next heq => exact absurd (List.cons.inj heq).1 hplus
      next =>
        split
        next heq => exact absurd (List.cons.inj heq).1 hminus
        next heq => exact absurd (List.cons.inj heq).1 hplus
        next => rw [hvalue, min_eq_right hmax']

/-- A byte as its two digits. -/
def hexLayout : Layout Char UInt8 where
  width := 2
  write := byteToHex
  read s := toByte (strtol (s.take 2))
  write_length _ := rfl
  read_write b rest := by
    have hread := hexPairs_byteToHex b []
    rw [List.append_nil, byteToHex, hexPairs] at hread
    rw [List.take_left' (byteToHex_length b), strtol_eq (byteToHex_length b).le, byteToHex]
    exact (List.cons.inj hread).1
  read_append s more h := by rw [List.take_append_of_le_length h]

theorem hexToBytes_bigEndian (hex : Str) : hexToBytes hex .BigEndian = hexLayout.readAll hex := by
  unfold hexToBytes
  dsimp only
  rw [List.foldl_append_eq_append, List.nil_append, Nat.mul_div_cancel_left _ (by decide),
    ← List.flatMap_def, ← List.map_eq_flatMap]
  rfl

theorem hexToBytes_littleEndian (hex : Str) :
    hexToBytes hex .LittleEndian = (hexToBytes hex .BigEndian).reverse := rfl

/-! ## Printing a byte -/

theorem hexDigit_eq_digitChar {n : Nat} (h : n < 16) : hexDigit n = n.digitChar := by
  have hall : ∀ k : Fin 16, hexDigit k = (k : Nat).digitChar := by decide
  exact hall ⟨n, h⟩

theorem leftpad_toDigits (b : UInt8) :
    (Nat.toDigits 16 b.toNat).leftpad 2 '0' = byteToHex b := by
  have hb : b.toNat < 256 := b.toNat_lt
  have hlow : b.toNat % 16 < 16 := Nat.mod_lt _ (by decide)
  rw [byteToHex, hexDigit_eq_digitChar hlow]
  rcases Nat.lt_or_ge b.toNat 16 with hsmall | hlarge
  · rw [Nat.toDigits_of_lt_base hsmall, Nat.div_eq_of_lt hsmall, Nat.mod_eq_of_lt hsmall]
    rfl
  · have hhigh : b.toNat / 16 < 16 := by omega
    rw [Nat.toDigits_of_base_le (by decide) hlarge, Nat.toDigits_of_lt_base hhigh,
      hexDigit_eq_digitChar hhigh]
    rfl

namespace StringStream

/-- In hex and filled with zeros. -/
def IsHex (ss : StringStream) : Prop := ss.base = 16 ∧ ss.fill = '0'

theorem isHex_hex : ((StringStream.hex {}).setfill '0').IsHex := ⟨rfl, rfl⟩

theorem isHex_put {ss : StringStream} (h : ss.IsHex) (b : UInt8) :
    ((ss.setw 2).put b.toNat).IsHex := h

theorem put_str {ss : StringStream} (h : ss.IsHex) (b : UInt8) :
    ((ss.setw 2).put b.toNat).str = ss.str ++ byteToHex b := by
  rw [put, setw]
  dsimp only
  rw [h.1, h.2, leftpad_toDigits]

theorem putBytes_str {ss : StringStream} (h : ss.IsHex) (bytes : List UInt8) :
    (ss.putBytes bytes).str = ss.str ++ hexLayout.writeAll bytes := by
  induction bytes generalizing ss with
  | nil => exact (List.append_nil _).symm
  | cons b bytes ih =>
      have hrest := ih (isHex_put h b)
      rw [putBytes] at hrest
      rw [putBytes, List.foldl_cons, hrest, put_str h, Layout.writeAll_cons, List.append_assoc]
      rfl

end StringStream

theorem bytesToHex_bigEndian (bytes : List UInt8) :
    bytesToHex bytes .BigEndian = hexLayout.writeAll bytes := by
  rw [bytesToHex]
  split
  next hempty =>
    rw [List.isEmpty_iff.mp hempty]
    rfl
  next =>
    dsimp only
    rw [StringStream.putBytes_str StringStream.isHex_hex]
    rfl

theorem bytesToHex_littleEndian (bytes : List UInt8) :
    bytesToHex bytes .LittleEndian = bytesToHex bytes.reverse .BigEndian := by
  rw [bytesToHex, bytesToHex, List.isEmpty_reverse]

/-! ## The pair of HashUtil -/

theorem length_lt_two {s : Str} (h : ∀ a b rest, s = a :: b :: rest → False) : s.length < 2 := by
  cases s with
  | nil => exact Nat.zero_lt_succ 1
  | cons a s =>
      cases s with
      | nil => exact Nat.lt_succ_self 1
      | cons b rest => exact absurd rfl (h a b rest)

theorem hexPairs_eq_readAll : ∀ s : Str, hexPairs s = hexLayout.readAll s := by
  intro s
  induction s using hexPairs.induct with
  | case1 a b rest ih =>
      have hpair : hexLayout.read (a :: b :: rest) = toByte (strtolHex [a, b]) := by
        rw [← strtol_eq (s := [a, b]) (Nat.le_refl 2)]
        rfl
      rw [Layout.readAll_of_le (Nat.zero_lt_succ 1) (Nat.le_add_left 2 rest.length), hpair,
        hexPairs, ih]
      rfl
  | case2 s hshort =>
      rw [Layout.readAll_of_lt (length_lt_two hshort), hexPairs]
      exact hshort

theorem hexToBytes_eq (hex : Str) (f : ByteArrayFormat) :
    hexToBytes hex f = DogeConnect.hexToBytes hex f := by
  cases f with
  | BigEndian => rw [hexToBytes_bigEndian, DogeConnect.hexToBytes, hexPairs_eq_readAll]
  | LittleEndian =>
      rw [hexToBytes_littleEndian, hexToBytes_bigEndian, DogeConnect.hexToBytes,
        hexPairs_eq_readAll]

theorem bytesToHex_eq (bytes : List UInt8) (f : ByteArrayFormat) :
    bytesToHex bytes f = DogeConnect.bytesToHex bytes f := by
  cases f with
  | BigEndian => exact bytesToHex_bigEndian bytes
  | LittleEndian =>
      rw [bytesToHex_littleEndian, bytesToHex_bigEndian]
      rfl

/-! ## Strings of lower-case digits -/

/-- A hex digit in lower case. -/
def IsLowerHexDigit (c : Char) : Prop := ('0' ≤ c ∧ c ≤ '9') ∨ ('a' ≤ c ∧ c ≤ 'f')

instance (c : Char) : Decidable (IsLowerHexDigit c) := inferInstanceAs (Decidable (_ ∨ _))

/-- A string of such digits. -/
def IsLowerHex (s : Str) : Prop := ∀ c ∈ s, IsLowerHexDigit c

instance (s : Str) : Decidable (IsLowerHex s) :=
  decidable_of_iff (s.all (fun c => decide (IsLowerHexDigit c)) = true) (by simp [IsLowerHex])

theorem isLowerHexDigit_hexDigit {n : Nat} (h : n < 16) : IsLowerHexDigit (hexDigit n) := by
  have hall : ∀ k : Fin 16, IsLowerHexDigit (hexDigit k) := by decide
  exact hall ⟨n, h⟩

theorem exists_hexDigit {c : Char} (h : IsLowerHexDigit c) : ∃ n < 16, hexDigit n = c := by
  simp only [IsLowerHexDigit, Char.le_def, UInt32.le_iff_toNat_le] at h
  change (48 ≤ c.toNat ∧ c.toNat ≤ 57) ∨ (97 ≤ c.toNat ∧ c.toNat ≤ 102) at h
  rcases h with hdigit | hletter
  · refine ⟨c.toNat - 48, by omega, ?_⟩
    rw [hexDigit, if_pos (by omega), Nat.add_sub_cancel' hdigit.1, Char.ofNat_toNat]
  · refine ⟨c.toNat - 87, by omega, ?_⟩
    rw [hexDigit, if_neg (by omega), Nat.add_sub_cancel' (by omega), Char.ofNat_toNat]

theorem isLowerHex_writeAll (bytes : List UInt8) : IsLowerHex (hexLayout.writeAll bytes) := by
  intro c hc
  obtain ⟨b, -, hc⟩ := List.mem_flatMap.mp hc
  have hb : b.toNat < 256 := b.toNat_lt
  rcases List.mem_pair.mp hc with rfl | rfl
  · exact isLowerHexDigit_hexDigit (by omega)
  · exact isLowerHexDigit_hexDigit (by omega)

theorem exists_byteToHex {a b : Char} (ha : IsLowerHexDigit a) (hb : IsLowerHexDigit b) :
    ∃ byte, byteToHex byte = [a, b] := by
  obtain ⟨x, hx, rfl⟩ := exists_hexDigit ha
  obtain ⟨y, hy, rfl⟩ := exists_hexDigit hb
  exact ⟨UInt8.ofNat (x * 16 + y), byteToHex_twoDigits hx hy⟩

/-- What is printed are the strings of lower-case digits of even length. -/
theorem exists_writeAll_iff {s : Str} :
    (∃ bytes, hexLayout.writeAll bytes = s) ↔ s.length % 2 = 0 ∧ IsLowerHex s := by
  constructor
  · rintro ⟨bytes, rfl⟩
    refine ⟨?_, isLowerHex_writeAll bytes⟩
    rw [Layout.length_writeAll]
    exact Nat.mul_mod_right 2 bytes.length
  · rintro ⟨heven, hlower⟩
    induction s using hexPairs.induct with
    | case1 a b rest ih =>
        obtain ⟨byte, hbyte⟩ := exists_byteToHex (hlower a List.mem_cons_self)
          (hlower b (List.mem_cons_of_mem a List.mem_cons_self))
        have hrest : rest.length % 2 = 0 := by
          rw [List.length_cons, List.length_cons] at heven
          omega
        obtain ⟨bytes, hbytes⟩ := ih hrest fun c hc =>
          hlower c (List.mem_cons_of_mem a (List.mem_cons_of_mem b hc))
        refine ⟨byte :: bytes, ?_⟩
        rw [Layout.writeAll_cons, hbytes]
        exact congrArg (· ++ rest) hbyte
    | case2 s hshort =>
        have hlt := length_lt_two hshort
        refine ⟨[], (List.length_eq_zero_iff.mp ?_).symm⟩
        omega

/-! ## The round trips -/

theorem hexToBytes_bytesToHex (bytes : List UInt8) (f : ByteArrayFormat) :
    hexToBytes (bytesToHex bytes f) f = bytes := by
  rw [hexToBytes_eq, bytesToHex_eq, DogeConnect.hexToBytes_bytesToHex]

theorem bytesToHex_hexToBytes {s : Str} (heven : s.length % 2 = 0) (hlower : IsLowerHex s)
    (f : ByteArrayFormat) : bytesToHex (hexToBytes s f) f = s := by
  have hprinted : bytesToHex (hexToBytes s .BigEndian) .BigEndian = s := by
    rw [bytesToHex_bigEndian, hexToBytes_bigEndian]
    exact Layout.writeAll_readAll (Nat.zero_lt_succ 1) (exists_writeAll_iff.mpr ⟨heven, hlower⟩)
  cases f with
  | BigEndian => exact hprinted
  | LittleEndian =>
      rw [bytesToHex_littleEndian, hexToBytes_littleEndian, List.reverse_reverse, hprinted]

theorem hexToBytes_dropLast {s : Str} (hodd : s.length % 2 = 1) (f : ByteArrayFormat) :
    hexToBytes s f = hexToBytes s.dropLast f := by
  have hne : s ≠ [] := by
    rintro rfl
    cases hodd
  have heven : 2 ∣ s.dropLast.length := by
    rw [List.length_dropLast]
    omega
  have hread : hexToBytes s .BigEndian = hexToBytes s.dropLast .BigEndian := by
    conv_lhs => rw [← List.dropLast_concat_getLast hne]
    rw [hexToBytes_bigEndian, hexToBytes_bigEndian]
    exact Layout.readAll_append heven (Nat.lt_succ_self 1)
  cases f with
  | BigEndian => exact hread
  | LittleEndian => rw [hexToBytes_littleEndian, hread, ← hexToBytes_littleEndian]

theorem bytesToHex_lower (bytes : List UInt8) (f : ByteArrayFormat) :
    (bytesToHex bytes f).length % 2 = 0 ∧ IsLowerHex (bytesToHex bytes f) := by
  cases f with
  | BigEndian => exact exists_writeAll_iff.mp ⟨bytes, (bytesToHex_bigEndian bytes).symm⟩
  | LittleEndian =>
      rw [bytesToHex_littleEndian]
      exact exists_writeAll_iff.mp ⟨bytes.reverse, (bytesToHex_bigEndian bytes.reverse).symm⟩

/-- A string that stands for bytes. -/
@[ext] structure HexString where
  text : Str
  even : text.length % 2 = 0
  lower : IsLowerHex text

def HexString.ofBytes (bytes : List UInt8) (f : ByteArrayFormat) : HexString :=
  ⟨bytesToHex bytes f, (bytesToHex_lower bytes f).1, (bytesToHex_lower bytes f).2⟩

def HexString.bytes (s : HexString) (f : ByteArrayFormat) : List UInt8 := hexToBytes s.text f

/-- In either format, byte lists and the strings that stand for them. -/
def hexEquiv (f : ByteArrayFormat) : List UInt8 ≃ HexString where
  toFun bytes := HexString.ofBytes bytes f
  invFun s := s.bytes f
  left_inv bytes := hexToBytes_bytesToHex bytes f
  right_inv s := HexString.ext (bytesToHex_hexToBytes s.even s.lower f)

/-- Both round trips, the two byte orders, and what an odd length does. -/
theorem hex_bijection :
    (∀ (bytes : List UInt8) (f : ByteArrayFormat), hexToBytes (bytesToHex bytes f) f = bytes) ∧
    (∀ (s : Str) (f : ByteArrayFormat), s.length % 2 = 0 → IsLowerHex s →
      bytesToHex (hexToBytes s f) f = s) ∧
    (∀ s : Str, hexToBytes s .LittleEndian = (hexToBytes s .BigEndian).reverse) ∧
    ∀ (s : Str) (f : ByteArrayFormat), s.length % 2 = 1 →
      hexToBytes s f = hexToBytes s.dropLast f :=
  ⟨hexToBytes_bytesToHex, fun _ f heven hlower => bytesToHex_hexToBytes heven hlower f,
    hexToBytes_littleEndian, fun _ f hodd => hexToBytes_dropLast hodd f⟩

/-- Of `0aff` and `0af`. -/
theorem hex_bijection_word :
    bytesToHex (hexToBytes ['0', 'a', 'f', 'f'] .LittleEndian) .LittleEndian
        = ['0', 'a', 'f', 'f'] ∧
      hexToBytes ['0', 'a', 'f'] .BigEndian = hexToBytes ['0', 'a'] .BigEndian :=
  ⟨hex_bijection.2.1 ['0', 'a', 'f', 'f'] .LittleEndian (by decide) (by decide),
    hex_bijection.2.2.2 ['0', 'a', 'f'] .BigEndian (by decide)⟩

end HexText

end DogeConnect
