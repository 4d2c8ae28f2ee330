/-
Arrays in memory: random access to values of one layout.

The values of a layout written one behind the other are read and overwritten at
the multiples of its width (`read_drop_writeAll`, `writeAt_writeAll`).  An array
of a fixed number of values has a layout of its own (`vec`), so arrays of arrays
need nothing new, and a combination of symbols position by position is the
combination of the values (`zipWith_writeAll`).
-/
import DogeConnect.Lib.Layout
import DogeConnect.Lib.Loop
import DogeConnect.Lib.Writes

namespace Layout

variable {β α : Type} (l : Layout β α)

theorem writeAll_append (as bs : List α) :
    l.writeAll (as ++ bs) = l.writeAll as ++ l.writeAll bs := List.flatMap_append

/-! ## Random access -/

theorem drop_writeAll (as : List α) (i : Nat) (rest : List β) (h : i ≤ as.length) :
    (l.writeAll as ++ rest).drop (l.width * i) = l.writeAll (as.drop i) ++ rest := by
  have hfront : (l.writeAll (as.take i)).length = l.width * i := by
    rw [length_writeAll, List.length_take, Nat.min_eq_left h]
  conv => lhs; rw [← List.take_append_drop i as, writeAll_append, List.append_assoc]
  exact List.drop_left' hfront

theorem read_drop_writeAll {as : List α} {i : Nat} (rest : List β) (h : i < as.length) :
    l.read ((l.writeAll as ++ rest).drop (l.width * i)) = as[i] := by
  rw [drop_writeAll l as i rest (by omega), List.drop_eq_getElem_cons h, writeAll_cons,
    List.append_assoc, l.read_write]

theorem writeAt_writeAll {as : List α} {i : Nat} (a : α) (h : i < as.length) :
    Writes.writeAt (l.writeAll as) (l.width * i, l.write a) = l.writeAll (as.set i a) := by
  have hold : l.writeAll as
      = l.writeAll (as.take i) ++ (l.write as[i] ++ l.writeAll (as.drop (i + 1))) := by
    rw [← writeAll_cons, ← List.drop_eq_getElem_cons h, ← writeAll_append, List.take_append_drop]
  have hfront : l.width * i = (l.writeAll (as.take i)).length := by
    rw [length_writeAll, List.length_take, Nat.min_eq_left (by omega)]
  rw [hold, Writes.writeAt_append hfront (by simp), List.set_eq_take_append_cons_drop, if_pos h,
    writeAll_append, writeAll_cons]

/-! ## Arrays -/

/-- As many values as the array has. -/
def vec (n : Nat) : Layout β (Vector α n) where
  width := l.width * n
  write v := l.writeAll v.toList
  read buf := Vector.ofFn fun i => l.read (buf.drop (l.width * i))
  write_length v := by rw [length_writeAll, Vector.length_toList]
  read_write v rest := by
    apply Vector.ext
    intro i hi
    rw [Vector.getElem_ofFn, l.read_drop_writeAll rest (by simpa using hi), Vector.getElem_toList]
  read_append buf more h := by
    apply Vector.ext
    intro i hi
    have hend : l.width * i + l.width ≤ buf.length :=
      Nat.le_trans (by rw [← Nat.mul_succ]; exact Nat.mul_le_mul_left _ hi) h
    rw [Vector.getElem_ofFn, Vector.getElem_ofFn]
    dsimp only
    rw [List.drop_append_of_le_length (by omega), l.read_append]
    rw [List.length_drop]
    omega

variable {n : Nat}

theorem write_vec (v : Vector α n) : (l.vec n).write v = l.writeAll v.toList := rfl

theorem take_vec [Inhabited α] (v : Vector α n) {i : Nat} (h : i < n) :
    (((l.vec n).write v).drop (l.width * i)).take l.width = l.write v[i]! := by
  have hdrop := l.drop_writeAll v.toList i [] (by simp; omega)
  have hi : i < v.toList.length := by simpa using h
  rw [List.append_nil, List.append_nil, List.drop_eq_getElem_cons hi, writeAll_cons] at hdrop
  rw [write_vec, hdrop, List.take_left' (l.write_length _), Vector.getElem_toList,
    getElem!_pos v i h]

theorem writeAt_vec (v : Vector α n) {i : Nat} (a : α) (h : i < n) :
    Writes.writeAt ((l.vec n).write v) (l.width * i, l.write a) = (l.vec n).write (v.set! i a) := by
  have hset : (v.set! i a).toList = v.toList.set i a := by
    rw [Vector.set!_eq_setIfInBounds, Vector.toList_setIfInBounds]
  rw [write_vec, write_vec, l.writeAt_writeAll a (by simpa using h), hset]

/-- A buffer of the right length is what some array is written as, if that is so
for a single value. -/
theorem write_read_vec (hl : ∀ buf, buf.length = l.width → l.write (l.read buf) = buf) (n : Nat)
    {buf : List β} (h : buf.length = l.width * n) :
    (l.vec n).write ((l.vec n).read buf) = buf := by
  induction n generalizing buf with
  | zero =>
      have hnil : buf = [] := List.eq_nil_of_length_eq_zero (by rw [h, Nat.mul_zero])
      rw [hnil]
      rfl
  | succ n ih =>
      rw [Nat.mul_succ] at h
      have hcons : ((l.vec (n + 1)).read buf).toList
          = l.read buf :: ((l.vec n).read (buf.drop l.width)).toList := by
        simp only [vec, Vector.toList_ofFn, List.ofFn_succ, Fin.val_zero, Nat.mul_zero,
          List.drop_zero, Fin.val_succ, Nat.mul_succ, List.drop_drop, Nat.add_comm]
      have htake : (buf.take l.width).length = l.width := by
        rw [List.length_take]
        omega
      have hdrop : (buf.drop l.width).length = l.width * n := by
        rw [List.length_drop]
        omega
      have hrest := ih hdrop
      rw [write_vec] at hrest
      rw [write_vec, hcons, writeAll_cons, hrest, ← l.read_take (by omega), hl _ htake,
        List.take_append_drop]

/-! ## Combination by position -/

variable {l} {f : β → β → β} {g : α → α → α}

theorem zipWith_writeAll (hfg : ∀ a b, List.zipWith f (l.write a) (l.write b) = l.write (g a b))
    {as bs : List α} (h : as.length = bs.length) :
    List.zipWith f (l.writeAll as) (l.writeAll bs) = l.writeAll (List.zipWith g as bs) := by
  induction as generalizing bs with
  | nil =>
      cases bs with
      | nil => rfl
      | cons b bs => exact absurd h (by simp)
  | cons a as ih =>
      cases bs with
      | nil => exact absurd h (by simp)
      | cons b bs =>
          rw [writeAll_cons, writeAll_cons, List.zipWith_append (by simp), hfg,
            ih (by simpa using h), List.zipWith_cons_cons, writeAll_cons]

theorem zipWith_vec (hfg : ∀ a b, List.zipWith f (l.write a) (l.write b) = l.write (g a b))
    (v w : Vector α n) :
    List.zipWith f ((l.vec n).write v) ((l.vec n).write w)
      = (l.vec n).write (Vector.zipWith g v w) := by
  have hlist : (Vector.zipWith g v w).toList = List.zipWith g v.toList w.toList := by
    rw [Vector.toList_zipWith]
  rw [write_vec, write_vec, write_vec, zipWith_writeAll hfg (by simp), hlist]

end Layout
