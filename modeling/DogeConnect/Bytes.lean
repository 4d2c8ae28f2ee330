/-
Bytes: the fixed-size arrays of the C++ side, and little-endian numbers.

`ByteArr n` is `std::array<uint8_t, n>`: a byte list that carries its length,
so that a header field of the wrong size cannot be built.  `leVal` reads a byte
list as a number, least significant byte first, and `leBytes` is the memory
image of an unsigned integer of a given width; they are inverse to each other
on the right lengths.
-/
import DogeConnect.Lib.Digits

namespace DogeConnect

/-! ## Fixed-size arrays -/

/-- `std::array<uint8_t, n>`. -/
structure ByteArr (n : Nat) where
  toList : List UInt8
  length_toList : toList.length = n
  deriving DecidableEq, Repr

namespace ByteArr

variable {n : Nat}

@[ext] theorem ext {a b : ByteArr n} (h : a.toList = b.toList) : a = b := by
  cases a; cases b; cases h; rfl

@[simp] theorem length (a : ByteArr n) : a.toList.length = n := a.length_toList

/-- The element at an index; the code never reads outside the array. -/
def byte (a : ByteArr n) (i : Nat) : UInt8 := a.toList.getD i 0

/-- An array with all elements equal, as `fill` leaves it. -/
def fill (n : Nat) (b : UInt8) : ByteArr n := ⟨List.replicate n b, List.length_replicate⟩

/-- Write one element. -/
def set (a : ByteArr n) (i : Nat) (b : UInt8) : ByteArr n :=
  ⟨a.toList.set i b, by simp⟩

/-- The array filled by a `memcpy` of exactly `n` bytes out of `bs`; short input
is padded with zeros. -/
def copy (n : Nat) (bs : List UInt8) : ByteArr n :=
  ⟨bs.take n ++ List.replicate (n - bs.length) 0, by simp; omega⟩

theorem copy_toList {bs : List UInt8} (h : bs.length = n) : (copy n bs).toList = bs := by
  simp [copy, h]

@[simp] theorem copy_self (a : ByteArr n) : copy n a.toList = a :=
  ext (copy_toList a.length)

theorem copy_toList_append (a : ByteArr n) (rest : List UInt8) : copy n (a.toList ++ rest) = a :=
  ext (by simp [copy])

/-- Bytes behind the first `n` make no difference. -/
theorem copy_append {bs : List UInt8} (more : List UInt8) (h : n ≤ bs.length) :
    copy n (bs ++ more) = copy n bs := by
  have h0 : n - bs.length = 0 := by omega
  have h1 : n - (bs.length + more.length) = 0 := by omega
  exact ext (by simp [copy, h0, h1, List.take_append_of_le_length h])

theorem byte_eq_getElem (a : ByteArr n) {i : Nat} (h : i < a.toList.length) :
    a.byte i = a.toList[i] := by
  rw [byte, List.getD_eq_getElem]

instance : Inhabited (ByteArr n) := ⟨fill n 0⟩

end ByteArr

/-! ## Little-endian numbers -/

/-- The number a byte list stands for, least significant byte first. -/
def leVal (bs : List UInt8) : Nat := Nat.ofDigits 256 (bs.map UInt8.toNat)

/-- The `n`-byte memory image of an unsigned integer. -/
def leBytes : Nat → Nat → List UInt8
  | 0, _ => []
  | n + 1, v => UInt8.ofNat v :: leBytes n (v / 256)

@[simp] theorem leVal_nil : leVal [] = 0 := rfl

@[simp] theorem leVal_cons (b : UInt8) (bs : List UInt8) :
    leVal (b :: bs) = b.toNat + 256 * leVal bs := by
  simp [leVal, Nat.ofDigits_cons]

theorem leVal_append (bs cs : List UInt8) :
    leVal (bs ++ cs) = leVal bs + 256 ^ bs.length * leVal cs := by
  simp [leVal, Nat.ofDigits_append]

theorem digits_lt (bs : List UInt8) : ∀ d ∈ bs.map UInt8.toNat, d < 256 := by
  intro d hd
  obtain ⟨b, -, rfl⟩ := List.mem_map.mp hd
  exact b.toNat_lt

theorem leVal_lt (bs : List UInt8) : leVal bs < 256 ^ bs.length := by
  simpa [leVal] using Nat.ofDigits_lt_base_pow_length (by decide : 1 < 256) (digits_lt bs)

@[simp] theorem leBytes_length : ∀ (n v : Nat), (leBytes n v).length = n
  | 0, _ => rfl
  | n + 1, v => by simp [leBytes, leBytes_length n]

theorem leVal_leBytes : ∀ (n v : Nat), leVal (leBytes n v) = v % 256 ^ n
  | 0, v => by simp [leBytes, Nat.mod_one]
  | n + 1, v => by
      rw [leBytes, leVal_cons, leVal_leBytes n, Nat.pow_succ', Nat.mod_mul]
      simp [UInt8.toNat_ofNat']

theorem leVal_leBytes_of_lt {n v : Nat} (h : v < 256 ^ n) : leVal (leBytes n v) = v := by
  rw [leVal_leBytes, Nat.mod_eq_of_lt h]

theorem leBytes_leVal : ∀ bs : List UInt8, leBytes bs.length (leVal bs) = bs
  | [] => rfl
  | b :: bs => by
      have hb : b.toNat < 256 := b.toNat_lt
      have hdiv : (b.toNat + 256 * leVal bs) / 256 = leVal bs := by omega
      have hhead : UInt8.ofNat (b.toNat + 256 * leVal bs) = b := by
        apply UInt8.toNat_inj.mp
        rw [UInt8.toNat_ofNat']
        omega
      rw [List.length_cons, leBytes, leVal_cons, hdiv, hhead, leBytes_leVal bs]

theorem leBytes_mod (n v : Nat) : leBytes n (v % 256 ^ n) = leBytes n v := by
  have h := leBytes_leVal (leBytes n v)
  rwa [leBytes_length, leVal_leBytes] at h

/-- The number an array stands for. -/
def ByteArr.val {n : Nat} (a : ByteArr n) : Nat := leVal a.toList

theorem ByteArr.val_lt {n : Nat} (a : ByteArr n) : a.val < 256 ^ n := by
  simpa [ByteArr.val] using leVal_lt a.toList

end DogeConnect
