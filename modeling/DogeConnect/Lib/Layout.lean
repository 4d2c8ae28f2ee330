/-
Fixed-width memory layouts.

A layout writes a value as a fixed number of symbols and reads one back from
the front of a buffer, whatever follows.  Layouts are put one after another
(`seq`), which is what a packed struct is, and carried along a change of
representation (`map`), so the round trip of a struct is the round trip of its
fields and needs no proof of its own.

Values of one layout are also written one behind the other, as many as there
are (`writeAll`), and read back at the multiples of the width (`readAll`).  A
rest that is shorter than a value is not looked at.
-/
import Mathlib.Data.List.Basic

/-- A fixed-width encoding of `α` over symbols `β`. -/
structure Layout (β α : Type) where
  width : Nat
  write : α → List β
  /-- Reads the front of a buffer; total, the callers check the length. -/
  read : List β → α
  write_length : ∀ a, (write a).length = width
  read_write : ∀ a rest, read (write a ++ rest) = a
  /-- Only the first `width` symbols are looked at. -/
  read_append : ∀ buf more, width ≤ buf.length → read (buf ++ more) = read buf

namespace Layout

variable {β α γ : Type}

/-- One symbol; a default is read from an empty buffer. -/
def symbol (default : β) : Layout β β where
  width := 1
  write a := [a]
  read buf := buf.headD default
  write_length _ := rfl
  read_write _ _ := rfl
  read_append buf more h := by
    cases buf with
    | nil => exact absurd h (by simp)
    | cons b buf => rfl

/-- The second value directly behind the first. -/
def seq (l : Layout β α) (m : Layout β γ) : Layout β (α × γ) where
  width := l.width + m.width
  write p := l.write p.1 ++ m.write p.2
  read buf := (l.read buf, m.read (buf.drop l.width))
  write_length p := by rw [List.length_append, l.write_length, m.write_length]
  read_write p rest := by
    have hdrop : (l.write p.1 ++ (m.write p.2 ++ rest)).drop l.width = m.write p.2 ++ rest :=
      List.drop_left' (l.write_length p.1)
    rw [List.append_assoc, l.read_write, hdrop, m.read_write]
  read_append buf more h := by
    rw [l.read_append buf more (by omega), List.drop_append_of_le_length (by omega),
      m.read_append _ more (by simp only [List.length_drop]; omega)]

/-- The same layout for another representation of the value. -/
def map (l : Layout β α) (f : α → γ) (g : γ → α) (hfg : ∀ c, f (g c) = c) : Layout β γ where
  width := l.width
  write c := l.write (g c)
  read buf := f (l.read buf)
  write_length c := l.write_length (g c)
  read_write c rest := by rw [l.read_write, hfg]
  read_append buf more h := by rw [l.read_append buf more h]

variable (l : Layout β α)

@[simp] theorem length_write (a : α) : (l.write a).length = l.width := l.write_length a

@[simp] theorem drop_write (a : α) (rest : List β) : (l.write a ++ rest).drop l.width = rest :=
  List.drop_left' (l.write_length a)

/-- A value is read from the bytes of its width as from a longer buffer. -/
theorem read_take {buf : List β} (h : l.width ≤ buf.length) :
    l.read (buf.take l.width) = l.read buf := by
  have hwhole : l.read (buf.take l.width ++ buf.drop l.width) = l.read (buf.take l.width) :=
    l.read_append _ _ (by rw [List.length_take]; omega)
  rw [List.take_append_drop] at hwhole
  exact hwhole.symm

/-! ## Lists of values -/

/-- The values one behind the other. -/
def writeAll (as : List α) : List β := as.flatMap l.write

@[simp] theorem writeAll_cons (a : α) (as : List α) :
    l.writeAll (a :: as) = l.write a ++ l.writeAll as := List.flatMap_cons

/-- The values at the multiples of the width, as long as they are complete. -/
def readAll (buf : List β) : List α :=
  (List.range' 0 (buf.length / l.width) l.width).map fun i => l.read (buf.drop i)

theorem length_writeAll (as : List α) : (l.writeAll as).length = l.width * as.length := by
  induction as with
  | nil => rfl
  | cons a as ih =>
      rw [writeAll_cons, List.length_append, l.write_length, ih, List.length_cons, Nat.mul_succ,
        Nat.add_comm]

variable {l}

theorem readAll_of_lt {buf : List β} (h : buf.length < l.width) : l.readAll buf = [] := by
  rw [readAll, Nat.div_eq_of_lt h]
  rfl

theorem readAll_of_le {buf : List β} (hwidth : 0 < l.width) (h : l.width ≤ buf.length) :
    l.readAll buf = l.read buf :: l.readAll (buf.drop l.width) := by
  have hcount : buf.length / l.width = (buf.drop l.width).length / l.width + 1 := by
    rw [List.length_drop, ← Nat.add_div_right _ hwidth, Nat.sub_add_cancel h]
  rw [readAll, hcount, List.range'_succ, List.map_cons, List.drop_zero, readAll,
    Nat.add_comm 0 l.width, ← List.map_add_range' 0 _ l.width, List.map_map]
  congr 1
  apply List.map_congr_left
  intro i _
  rw [Function.comp_apply, List.drop_drop]

/-- What was written is read back, also in front of an incomplete value. -/
theorem readAll_writeAll (hwidth : 0 < l.width) (as : List α) {rest : List β}
    (hrest : rest.length < l.width) : l.readAll (l.writeAll as ++ rest) = as := by
  induction as with
  | nil => exact readAll_of_lt hrest
  | cons a as ih =>
      have hle : l.width ≤ (l.write a ++ (l.writeAll as ++ rest)).length := by
        rw [List.length_append, l.write_length]
        exact Nat.le_add_right _ _
      rw [writeAll_cons, List.append_assoc, readAll_of_le hwidth hle, l.read_write, l.drop_write,
        ih]

theorem readAll_append {buf rest : List β} (hbuf : l.width ∣ buf.length)
    (hrest : rest.length < l.width) : l.readAll (buf ++ rest) = l.readAll buf := by
  obtain ⟨n, hn⟩ := hbuf
  have hwidth : 0 < l.width := by omega
  have hcount : (buf ++ rest).length / l.width = n := by
    rw [List.length_append, hn, Nat.mul_add_div hwidth, Nat.div_eq_of_lt hrest, Nat.add_zero]
  rw [readAll, readAll, hcount, hn, Nat.mul_div_cancel_left n hwidth]
  apply List.map_congr_left
  intro i hi
  obtain ⟨j, hj, rfl⟩ := List.mem_range'.mp hi
  have hend : l.width * j + l.width ≤ buf.length := by
    rw [← Nat.mul_succ, hn]
    exact Nat.mul_le_mul_left _ hj
  rw [Nat.zero_add, List.drop_append_of_le_length (by omega), l.read_append]
  rw [List.length_drop]
  omega

/-- Symbols that some values are written as are written again from what is read. -/
theorem writeAll_readAll (hwidth : 0 < l.width) {buf : List β} (h : ∃ as, l.writeAll as = buf) :
    l.writeAll (l.readAll buf) = buf := by
  obtain ⟨as, rfl⟩ := h
  have hread := readAll_writeAll hwidth as (show ([] : List β).length < l.width from hwidth)
  rw [List.append_nil] at hread
  rw [hread]

end Layout
