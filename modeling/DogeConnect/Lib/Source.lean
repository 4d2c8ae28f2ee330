/-
Reading from a connection that delivers what it likes.

A source holds the symbols the other side has sent, and for each read to come
the most it delivers: a short read is a small number, and 0 stands for a read
that brings nothing (a timeout, an error, the end).  Every segmentation and
timing of finitely many reads is such a list.

    read       one read
    readAll    read until a number of symbols has come, or a read brings nothing
    arrive     whether that number comes, by the reads alone

What was sent is a sequence of frames, and the question about a reader is where
among them it stops: between two (`AtBoundary`), or inside one (`Inside`).
-/
import Mathlib.Data.List.Basic

structure Source (β : Type) where
  pending : List β
  /-- The most that each read to come delivers. -/
  reads : List Nat

namespace Source

variable {β : Type}

/-- One read of at most `size` symbols. -/
def read (s : Source β) (size : Nat) : List β × Source β :=
  match s.reads with
  | [] => ([], s)
  | k :: reads => (s.pending.take (min k size), ⟨s.pending.drop (min k size), reads⟩)

/-- What reading in a loop has come to. -/
structure Taken (β : Type) where
  complete : Bool
  data : List β
  rest : Source β

/-- The loop, with `data` read so far. -/
def readAllFrom (size : Nat) (data pending : List β) : List Nat → Taken β
  | [] => ⟨decide (size ≤ data.length), data, ⟨pending, []⟩⟩
  | k :: reads =>
    if data.length < size then
      match pending.take (min k (size - data.length)) with
      | [] => ⟨false, data, ⟨pending, reads⟩⟩
      | bytes => readAllFrom size (data ++ bytes) (pending.drop bytes.length) reads
    else ⟨true, data, ⟨pending, k :: reads⟩⟩

def readAll (s : Source β) (size : Nat) : Taken β := readAllFrom size [] s.pending s.reads

theorem reads_read (s : Source β) {size : Nat} (h : (s.read size).1 ≠ []) :
    (s.read size).2.reads.length + 1 = s.reads.length := by
  unfold read at h ⊢
  cases hreads : s.reads with
  | nil => rw [hreads] at h; exact absurd rfl h
  | cons k reads => rfl

theorem reads_readAllFrom_le (size : Nat) : ∀ (reads : List Nat) (data pending : List β),
    (readAllFrom size data pending reads).rest.reads.length ≤ reads.length
  | [], _, _ => Nat.le_refl 0
  | k :: reads, data, pending => by
      rw [readAllFrom]
      split
      · split
        · exact Nat.le_succ _
        · exact Nat.le_succ_of_le (reads_readAllFrom_le size reads _ _)
      · exact Nat.le_refl _

theorem reads_readAll_le (s : Source β) (size : Nat) :
    (s.readAll size).rest.reads.length ≤ s.reads.length :=
  reads_readAllFrom_le size s.reads [] s.pending

/-! ## Whether it arrives -/

/-- The reads left when `size` symbols have come, if no read before that brings
nothing. -/
def arrive : Nat → List Nat → Option (List Nat)
  | 0, reads => some reads
  | _ + 1, [] => none
  | size + 1, k :: reads => if k = 0 then none else arrive (size + 1 - k) reads

theorem arrive_zero (reads : List Nat) : arrive 0 reads = some reads := by
  rw [arrive]

/-- One after another. -/
def arriveEach (sizes : List Nat) (reads : List Nat) : Option (List Nat) :=
  sizes.foldlM (fun reads size => arrive size reads) reads

theorem arriveEach_cons (size : Nat) (sizes reads : List Nat) :
    arriveEach (size :: sizes) reads = (arrive size reads).bind (arriveEach sizes) := rfl

theorem arriveEach_singleton (size : Nat) (reads : List Nat) :
    arriveEach [size] reads = arrive size reads := by
  rw [arriveEach_cons]
  cases arrive size reads <;> rfl

/-- A size in pieces of at most `chunk`. -/
def pieces (chunk size : Nat) : List Nat := List.replicate (size / chunk) chunk ++ [size % chunk]

theorem pieces_of_lt {chunk size : Nat} (h : size < chunk) : pieces chunk size = [size] := by
  rw [pieces, Nat.div_eq_of_lt h, Nat.mod_eq_of_lt h]
  rfl

theorem pieces_of_le {chunk size : Nat} (hpos : 0 < chunk) (h : chunk ≤ size) :
    pieces chunk size = chunk :: pieces chunk (size - chunk) := by
  rw [pieces, Nat.div_eq_sub_div hpos h, Nat.mod_eq_sub_mod h, List.replicate_succ]
  rfl

theorem arrive_cons {k : Nat} {reads : List Nat} {front : List β} (hk : k ≠ 0)
    (hfront : front ≠ []) :
    arrive front.length (k :: reads) = arrive (front.drop k).length reads := by
  cases front with
  | nil => exact absurd rfl hfront
  | cons b front => rw [List.length_cons, arrive, if_neg hk, List.length_drop, List.length_cons]

theorem readAllFrom_cons {k : Nat} {reads : List Nat} {front : List β} (data back : List β)
    (hk : k ≠ 0) (hfront : front ≠ []) :
    readAllFrom (data.length + front.length) data (front ++ back) (k :: reads)
      = readAllFrom ((data ++ front.take k).length + (front.drop k).length)
          (data ++ front.take k) (front.drop k ++ back) reads := by
  have hpos : 0 < front.length := List.length_pos_of_ne_nil hfront
  have hsize : (data ++ front.take k).length + (front.drop k).length
      = data.length + front.length := by
    rw [List.length_append, Nat.add_assoc, ← List.length_append, List.take_append_drop]
  have htake : (front ++ back).take (min k (data.length + front.length - data.length))
      = front.take k := by
    rw [Nat.add_sub_cancel_left, List.take_append_of_le_length (Nat.min_le_right _ _),
      List.take_eq_take_iff, Nat.min_assoc, Nat.min_self]
  have hdrop : (front ++ back).drop (front.take k).length = front.drop k ++ back := by
    conv_lhs => rw [← List.take_append_drop k front, List.append_assoc]
    rw [List.take_append_drop, List.drop_left]
  have hne : front.take k ≠ [] := by
    rw [ne_eq, List.take_eq_nil_iff]
    exact fun h => h.elim hk hfront
  rw [readAllFrom, if_pos (Nat.lt_add_of_pos_right hpos), htake, hsize]
  split
  next hnil => exact absurd hnil hne
  next => rw [hdrop]

/-- The reads bring all of `front`, or stop inside it. -/
theorem readAllFrom_spec : ∀ (reads : List Nat) (data front back : List β),
    (∃ reads', arrive front.length reads = some reads' ∧
      readAllFrom (data.length + front.length) data (front ++ back) reads
        = ⟨true, data ++ front, ⟨back, reads'⟩⟩) ∨
    (arrive front.length reads = none ∧ ∃ got left reads', front = got ++ left ∧ left ≠ [] ∧
      readAllFrom (data.length + front.length) data (front ++ back) reads
        = ⟨false, data ++ got, ⟨left ++ back, reads'⟩⟩)
  | [], data, [], back => by
      refine .inl ⟨[], rfl, ?_⟩
      simp [readAllFrom]
  | k :: reads, data, [], back => by
      refine .inl ⟨k :: reads, rfl, ?_⟩
      simp [readAllFrom]
  | [], data, b :: front, back => by
      refine .inr ⟨rfl, [], b :: front, [], rfl, List.cons_ne_nil _ _, ?_⟩
      simp [readAllFrom]
  | k :: reads, data, b :: front, back => by
      by_cases hk : k = 0
      · refine .inr ⟨if_pos hk, [], b :: front, reads, rfl, List.cons_ne_nil _ _, ?_⟩
        simp [readAllFrom, hk]
      · rw [arrive_cons hk (List.cons_ne_nil b front),
          readAllFrom_cons data back hk (List.cons_ne_nil b front)]
        rcases readAllFrom_spec reads (data ++ (b :: front).take k) ((b :: front).drop k) back with
          ⟨reads', harrive, hread⟩ | ⟨harrive, got, left, reads', hsplit, hleft, hread⟩
        · refine .inl ⟨reads', harrive, ?_⟩
          rw [hread, List.append_assoc, List.take_append_drop]
        · refine .inr ⟨harrive, (b :: front).take k ++ got, left, reads', ?_, hleft, ?_⟩
          · rw [List.append_assoc, ← hsplit, List.take_append_drop]
          · rw [hread, List.append_assoc]

theorem readAll_spec (reads : List Nat) (front back : List β) :
    (∃ reads', arrive front.length reads = some reads' ∧
      readAll ⟨front ++ back, reads⟩ front.length = ⟨true, front, ⟨back, reads'⟩⟩) ∨
    (arrive front.length reads = none ∧ ∃ got left reads', front = got ++ left ∧ left ≠ [] ∧
      readAll ⟨front ++ back, reads⟩ front.length = ⟨false, got, ⟨left ++ back, reads'⟩⟩) := by
  have h := readAllFrom_spec reads [] front back
  simp only [List.length_nil, Nat.zero_add, List.nil_append] at h
  exact h

/-! ## Frames -/

/-- Whole frames have been taken. -/
def AtBoundary (frames : List (List β)) (pending : List β) : Prop :=
  ∃ taken left, frames = taken ++ left ∧ pending = left.flatten

/-- The last frame has been taken in part. -/
def Inside (frames : List (List β)) (pending : List β) : Prop :=
  ∃ taken front back left, frames = taken ++ (front ++ back) :: left ∧ front ≠ [] ∧ back ≠ [] ∧
    pending = back ++ left.flatten

theorem AtBoundary.refl (frames : List (List β)) : AtBoundary frames frames.flatten :=
  ⟨[], frames, rfl, rfl⟩

theorem AtBoundary.cons {frames : List (List β)} {pending : List β} (frame : List β)
    (h : AtBoundary frames pending) : AtBoundary (frame :: frames) pending := by
  obtain ⟨taken, left, hframes, hpending⟩ := h
  exact ⟨frame :: taken, left, by rw [hframes, List.cons_append], hpending⟩

theorem Inside.cons {frames : List (List β)} {pending : List β} (frame : List β)
    (h : Inside frames pending) : Inside (frame :: frames) pending := by
  obtain ⟨taken, front, back, left, hframes, hfront, hback, hpending⟩ := h
  exact ⟨frame :: taken, front, back, left, by rw [hframes, List.cons_append], hfront, hback,
    hpending⟩

theorem Inside.head {front back : List β} (frames : List (List β)) (hfront : front ≠ [])
    (hback : back ≠ []) : Inside ((front ++ back) :: frames) (back ++ frames.flatten) :=
  ⟨[], front, back, frames, rfl, hfront, hback, rfl⟩

theorem Inside.not_atBoundary {frames : List (List β)} {pending : List β}
    (h : Inside frames pending) : ¬ AtBoundary frames pending := by
  rintro ⟨taken', left', hframes', hpending'⟩
  obtain ⟨taken, front, back, left, hframes, hfront, hback, hpending⟩ := h
  have hfront := List.length_pos_of_ne_nil hfront
  have hback := List.length_pos_of_ne_nil hback
  have hlength : back.length + left.flatten.length = left'.flatten.length := by
    rw [← List.length_append, ← hpending, hpending']
  rw [hframes] at hframes'
  rcases List.append_eq_append_iff.mp hframes' with ⟨more, -, hmore⟩ | ⟨more, -, hmore⟩
  · cases more with
    | nil =>
        rw [List.nil_append] at hmore
        rw [← hmore, List.flatten_cons, List.length_append, List.length_append] at hlength
        omega
    | cons frame more =>
        rw [List.cons_append] at hmore
        obtain ⟨-, hmore⟩ := List.cons.inj hmore
        rw [hmore, List.flatten_append, List.length_append] at hlength
        omega
  · rw [hmore, List.flatten_append, List.flatten_cons, List.length_append, List.length_append,
      List.length_append] at hlength
    omega

end Source
