/-
Cutting a byte stream into frames, one read at a time.

A receiver keeps what it has not yet consumed, appends each read to it, and
takes complete frames off the front.  Whether the result depends on how the
network grouped the bytes is a question about the *framer* only: if a complete
frame at the front stays the front frame when more bytes follow, the frames
and the leftover after any sequence of reads are those of the concatenation.

    feed r₁, feed r₂, …, feed rₙ   =   drain (r₁ ++ r₂ ++ … ++ rₙ)      (`foldl_feed`)

The symbols are arbitrary, and so is the rule that finds the frame's end.
-/
import Mathlib.Data.List.Basic

/-- A rule that finds the end of the frame at the front of a buffer. -/
structure Framer (β : Type) where
  /-- The length of the complete frame at the front, if there is one. -/
  next : List β → Option Nat
  next_pos : ∀ {buf n}, next buf = some n → 0 < n
  next_le : ∀ {buf n}, next buf = some n → n ≤ buf.length
  /-- Bytes that arrive later do not move the end of a complete frame. -/
  next_append : ∀ {buf n} (more : List β), next buf = some n → next (buf ++ more) = some n

namespace Framer

variable {β : Type} (F : Framer β)

/-- Take complete frames off the front until none is left. -/
def drain (buf : List β) : List (List β) × List β :=
  match _h : F.next buf with
  | none => ([], buf)
  | some n => ((buf.take n) :: (drain (buf.drop n)).1, (drain (buf.drop n)).2)
termination_by buf.length
decreasing_by
  all_goals
    have h₁ := F.next_pos _h
    have h₂ := F.next_le _h
    simp only [List.length_drop]
    omega

theorem drain_none {buf : List β} (h : F.next buf = none) : F.drain buf = ([], buf) := by
  rw [drain]
  split <;> simp_all

theorem drain_some {buf : List β} {n : Nat} (h : F.next buf = some n) :
    F.drain buf = (buf.take n :: (F.drain (buf.drop n)).1, (F.drain (buf.drop n)).2) := by
  rw [drain]
  split <;> simp_all

/-- Induction along `drain`: a buffer with no complete frame, or a frame and
what follows it. -/
theorem drain_induction {P : List β → Prop}
    (rest : ∀ buf, F.next buf = none → P buf)
    (frame : ∀ buf n, F.next buf = some n → P (buf.drop n) → P buf) : ∀ buf, P buf := by
  intro buf
  induction hlen : buf.length using Nat.strongRecOn generalizing buf with
  | ind len ih =>
      cases h : F.next buf with
      | none => exact rest buf h
      | some n =>
          have h₁ := F.next_pos h
          have h₂ := F.next_le h
          exact frame buf n h (ih _ (by simp only [List.length_drop]; omega) _ rfl)

theorem drain_flatten (buf : List β) : (F.drain buf).1.flatten ++ (F.drain buf).2 = buf := by
  induction buf using F.drain_induction with
  | rest buf h => simp [F.drain_none h]
  | frame buf n h ih =>
      rw [F.drain_some h]
      simp only [List.flatten_cons, List.append_assoc, ih, List.take_append_drop]

theorem drain_rest (buf : List β) : F.next (F.drain buf).2 = none := by
  induction buf using F.drain_induction with
  | rest buf h => simpa [F.drain_none h] using h
  | frame buf n h ih => simpa [F.drain_some h] using ih

/-- Draining late is draining early and then draining what is left. -/
theorem drain_append (buf more : List β) :
    F.drain (buf ++ more) =
      ((F.drain buf).1 ++ (F.drain ((F.drain buf).2 ++ more)).1,
        (F.drain ((F.drain buf).2 ++ more)).2) := by
  induction buf using F.drain_induction with
  | rest buf h => simp [F.drain_none h]
  | frame buf n h ih =>
      have hn := F.next_le h
      rw [F.drain_some (F.next_append more h), F.drain_some h, List.take_append_of_le_length hn,
        List.drop_append_of_le_length hn, ih]
      rfl

/-- One read: append it, take the complete frames. -/
def feed (st : List (List β) × List β) (chunk : List β) : List (List β) × List β :=
  (st.1 ++ (F.drain (st.2 ++ chunk)).1, (F.drain (st.2 ++ chunk)).2)

/-- **Chunking independence.**  Any sequence of reads yields the frames and the
leftover of their concatenation. -/
theorem foldl_feed : ∀ (chunks : List (List β)) (fs : List (List β)) {r : List β},
    F.next r = none →
    chunks.foldl F.feed (fs, r)
      = (fs ++ (F.drain (r ++ chunks.flatten)).1, (F.drain (r ++ chunks.flatten)).2)
  | [], fs, r, hr => by simp [F.drain_none hr]
  | c :: cs, fs, r, hr => by
      rw [List.foldl_cons, feed, foldl_feed cs _ (F.drain_rest _), List.flatten_cons,
        ← List.append_assoc, F.drain_append (r ++ c)]
      simp

/-- A list of exact frames followed by an incomplete one drains to just that. -/
theorem drain_flatten_append : ∀ {frames : List (List β)} {tail : List β},
    (∀ f ∈ frames, F.next f = some f.length) → F.next tail = none →
    F.drain (frames.flatten ++ tail) = (frames, tail)
  | [], _, _, ht => F.drain_none ht
  | f :: fs, tail, hf, ht => by
      have hhead : F.next (f ++ (fs.flatten ++ tail)) = some f.length :=
        F.next_append _ (hf f List.mem_cons_self)
      rw [List.flatten_cons, List.append_assoc, F.drain_some hhead, List.take_left,
        List.drop_left, drain_flatten_append (fun g hg => hf g (List.mem_cons_of_mem _ hg)) ht]

end Framer
