/-
Positional notation, the part a byte-level program needs.

A number arrives as a list of bytes, least significant first, and the value
of the list is Mathlib's `Nat.ofDigits` at radix 256.  Three things are done
to such lists everywhere: they are compared from the most significant end,
they are divided by a short divisor, and they are cut into words.  This file
states each once, over an arbitrary radix, and names nothing of any program.

    compare   first difference from the top decides        (`msdLe_iff`)
    divide    one remainder carried downwards               (`longDiv_spec`)
    pack      or-ing shifted digits is the digit sum         (`foldl_or_digits`)
-/
import Mathlib.Data.Nat.Digits.Lemmas
import Mathlib.Data.Nat.Bitwise
import Mathlib.Tactic.Ring
import Mathlib.Tactic.Linarith

namespace Digits

/-! ## Horner's rule -/

/-- The value of a digit list written most significant first, continued from
`acc`: what a loop that shifts and adds computes. -/
def horner (B acc : Nat) (ds : List Nat) : Nat :=
  ds.foldl (fun a d => a * B + d) acc

@[simp] theorem horner_nil (B acc : Nat) : horner B acc [] = acc := rfl

@[simp] theorem horner_cons (B acc d : Nat) (ds : List Nat) :
    horner B acc (d :: ds) = horner B (acc * B + d) ds := rfl

theorem horner_append (B acc : Nat) (ds es : List Nat) :
    horner B acc (ds ++ es) = horner B (horner B acc ds) es := by
  simp [horner]

/-- Horner's rule from zero, on the reversed list, is `Nat.ofDigits`. -/
theorem horner_reverse (B : Nat) : ∀ ds : List Nat, horner B 0 ds.reverse = Nat.ofDigits B ds
  | [] => rfl
  | d :: ds => by
      rw [List.reverse_cons, horner_append, horner_reverse B ds, Nat.ofDigits_cons]
      simp only [horner_cons, horner_nil]
      ring

/-! ## Comparison from the most significant digit -/

/-- Walk down two digit lists of one length, most significant first; the first
difference decides, and equality counts as `≤`. -/
def msdLe {α : Type} [LT α] [DecidableLT α] : List (α × α) → Bool
  | [] => true
  | (x, y) :: rest => if x < y then true else if y < x then false else msdLe rest

theorem horner_lt_of_lt {B : Nat} : ∀ {xs ys : List Nat} {a b : Nat},
    xs.length = ys.length → (∀ x ∈ xs, x < B) → a < b → horner B a xs < horner B b ys
  | [], [], _, _, _, _, hab => hab
  | x :: xs, y :: ys, a, b, hlen, hx, hab => by
      have hlen' : xs.length = ys.length := by simpa using hlen
      have hxB : x < B := hx x List.mem_cons_self
      have hstep : a * B + x < b * B + y := by
        have : (a + 1) * B ≤ b * B := Nat.mul_le_mul_right B hab
        have : a * B + B ≤ b * B := by simpa [Nat.add_mul] using this
        omega
      show horner B (a * B + x) xs < horner B (b * B + y) ys
      exact horner_lt_of_lt hlen' (fun z hz => hx z (List.mem_cons_of_mem _ hz)) hstep

theorem msdLe_iff_horner {B : Nat} : ∀ {xs ys : List Nat} (acc : Nat),
    xs.length = ys.length → (∀ x ∈ xs, x < B) → (∀ y ∈ ys, y < B) →
    (msdLe (xs.zip ys) = true ↔ horner B acc xs ≤ horner B acc ys)
  | [], [], _, _, _, _ => by simp [msdLe]
  | x :: xs, y :: ys, acc, hlen, hx, hy => by
      have hlen' : xs.length = ys.length := by simpa using hlen
      have hx' : ∀ z ∈ xs, z < B := fun z hz => hx z (List.mem_cons_of_mem _ hz)
      have hy' : ∀ z ∈ ys, z < B := fun z hz => hy z (List.mem_cons_of_mem _ hz)
      simp only [List.zip_cons_cons, msdLe, horner_cons]
      -- the three outcomes of comparing the leading digits
      rcases Nat.lt_trichotomy x y with h | h | h
      · have := horner_lt_of_lt (B := B) hlen' hx' (show acc * B + x < acc * B + y by omega)
        simp [h, this.le]
      · subst h
        simpa using msdLe_iff_horner (acc * B + x) hlen' hx' hy'
      · have := horner_lt_of_lt (B := B) hlen'.symm hy' (show acc * B + y < acc * B + x by omega)
        simp [h, Nat.not_lt.mpr h.le, this]

/-- `msdLe` on lists given least significant first. -/
theorem msdLe_iff {B : Nat} {xs ys : List Nat} (hlen : xs.length = ys.length)
    (hx : ∀ x ∈ xs, x < B) (hy : ∀ y ∈ ys, y < B) :
    msdLe (xs.zip ys).reverse = true ↔ Nat.ofDigits B xs ≤ Nat.ofDigits B ys := by
  have hzip : (xs.zip ys).reverse = xs.reverse.zip ys.reverse := by
    rw [List.zip_eq_zipWith, List.zip_eq_zipWith, List.reverse_zipWith hlen]
  rw [hzip, ← horner_reverse, ← horner_reverse]
  exact msdLe_iff_horner 0 (by simpa using hlen)
    (fun x h => hx x (List.mem_reverse.mp h)) (fun y h => hy y (List.mem_reverse.mp h))

/-! ## Long division by a one-word divisor -/

/-- One round of schoolbook division: what is in hand, and what it leaves. -/
structure DivRound where
  remainder : Nat
  current : Nat
  quotient : Nat
  next : Nat
  deriving DecidableEq, Repr

/-- All rounds of the long division of `ws`, most significant word first. -/
def longDiv (B d : Nat) : Nat → List Nat → List DivRound
  | _, [] => []
  | r, w :: ws =>
      let current := r * B + w
      ⟨r, current, current / d, current % d⟩ :: longDiv B d (current % d) ws

/-- The remainder left by the last round. -/
def longDivRem (B d : Nat) (r : Nat) (ws : List Nat) : Nat :=
  ws.foldl (fun r w => (r * B + w) % d) r

@[simp] theorem longDiv_length (B d : Nat) : ∀ (r : Nat) (ws : List Nat),
    (longDiv B d r ws).length = ws.length
  | _, [] => rfl
  | r, w :: ws => by simp [longDiv, longDiv_length B d _ ws]

/-- The division invariant: quotient so far times divisor, plus the remainder
in hand, is the part of the dividend consumed. -/
theorem longDiv_invariant (B d : Nat) : ∀ (ws : List Nat) (q r : Nat),
    horner B q ((longDiv B d r ws).map DivRound.quotient) * d + longDivRem B d r ws
      = horner B (q * d + r) ws
  | [], q, r => rfl
  | w :: ws, q, r => by
      have hround : (q * B + (r * B + w) / d) * d + (r * B + w) % d = (q * d + r) * B + w := by
        have := Nat.div_add_mod (r * B + w) d
        calc (q * B + (r * B + w) / d) * d + (r * B + w) % d
            = q * d * B + (d * ((r * B + w) / d) + (r * B + w) % d) := by ring
          _ = (q * d + r) * B + w := by rw [this]; ring
      simp only [longDiv, List.map_cons, horner_cons, longDivRem, List.foldl_cons]
      rw [← hround]
      exact longDiv_invariant B d ws _ _

theorem longDivRem_lt {B d : Nat} (hd : 0 < d) :
    ∀ (ws : List Nat) {r : Nat}, r < d → longDivRem B d r ws < d
  | [], _, hr => hr
  | _ :: ws, _, _ => longDivRem_lt hd ws (Nat.mod_lt _ hd)

theorem longDiv_quotient {B d : Nat} : ∀ {ws : List Nat} {r : Nat} {s : DivRound},
    s ∈ longDiv B d r ws → s.quotient = s.current / d
  | w :: ws, r, s, hs => by
      rcases List.mem_cons.mp hs with rfl | hs
      · rfl
      · exact longDiv_quotient hs

theorem longDiv_spec {B d : Nat} (hd : 0 < d) (ws : List Nat) :
    horner B 0 ((longDiv B d 0 ws).map DivRound.quotient) = horner B 0 ws / d := by
  have hinv := longDiv_invariant B d ws 0 0
  have hrem := longDivRem_lt (B := B) hd ws hd
  rw [Nat.zero_mul, Nat.zero_add] at hinv
  rw [← hinv, Nat.add_comm, Nat.add_mul_div_right _ _ hd, Nat.div_eq_of_lt hrem, Nat.zero_add]

/-- In every round the remainder in hand is below the divisor, so the round's
quotient is a single word. -/
theorem longDiv_rounds {B d : Nat} : ∀ (ws : List Nat) {r : Nat},
    0 < d → r < d → (∀ w ∈ ws, w < B) →
    ∀ s ∈ longDiv B d r ws, s.remainder < d ∧ s.current / d < B
  | [], _, _, _, _, s, hs => absurd hs List.not_mem_nil
  | w :: ws, r, hd, hr, hw, s, hs => by
      rcases List.mem_cons.mp hs with rfl | hs
      · refine ⟨hr, ?_⟩
        have hwB : w < B := hw w List.mem_cons_self
        rw [Nat.div_lt_iff_lt_mul hd]
        show r * B + w < B * d
        calc r * B + w < r * B + B := by omega
          _ = (r + 1) * B := by ring
          _ ≤ d * B := Nat.mul_le_mul_right B hr
          _ = B * d := Nat.mul_comm d B
      · exact longDiv_rounds ws hd (Nat.mod_lt _ hd)
          (fun x hx => hw x (List.mem_cons_of_mem _ hx)) s hs

/-! ## Packing digits with shifts and ors -/

theorem or_shiftLeft_of_lt {a b i : Nat} (ha : a < 2 ^ i) : a ||| (b <<< i) = a + b * 2 ^ i := by
  rw [Nat.lor_comm, ← Nat.shiftLeft_add_eq_or_of_lt ha, Nat.shiftLeft_eq, Nat.add_comm]

/-- A loop that ors the `j`-th digit in at bit `k * j` computes the value of the
first `n` digits at radix `2 ^ k`. -/
theorem foldl_or_digits (k : Nat) (ds : List Nat) (hd : ∀ d ∈ ds, d < 2 ^ k) :
    ∀ n : Nat, (List.range n).foldl (fun acc j => acc ||| (ds.getD j 0 <<< (k * j))) 0
      = Nat.ofDigits (2 ^ k) (ds.take n)
  | 0 => by simp
  | n + 1 => by
      rw [List.range_succ, List.foldl_append, foldl_or_digits k ds hd n]
      simp only [List.foldl_cons, List.foldl_nil]
      have htake : ∀ x ∈ ds.take n, x < 2 ^ k := fun x hx => hd x (List.mem_of_mem_take hx)
      by_cases hn : n < ds.length
      · have hlen : (ds.take n).length = n := by simp [hn.le]
        have hlt : Nat.ofDigits (2 ^ k) (ds.take n) < 2 ^ (k * n) := by
          by_cases hk : k = 0
          · -- radix one: every digit is zero
            subst hk
            have hz : ∀ x ∈ ds.take n, x = 0 := fun x hx => by
              have := htake x hx; simp at this; exact this
            have : Nat.ofDigits 1 (ds.take n) = 0 := by
              rw [Nat.ofDigits_one]
              exact List.sum_eq_zero hz
            simp [this]
          · have hk2 : 1 < 2 ^ k := Nat.one_lt_two_pow hk
            have := Nat.ofDigits_lt_base_pow_length hk2 htake
            rwa [hlen, ← pow_mul] at this
        rw [or_shiftLeft_of_lt hlt, List.take_add_one, List.getElem?_eq_getElem hn,
          Nat.ofDigits_append, hlen, List.getD_eq_getElem _ _ hn]
        simp [pow_mul, Nat.mul_comm]
      · have hn' : ds.length ≤ n := Nat.le_of_not_lt hn
        rw [List.getD_eq_default _ _ hn', List.take_of_length_le hn',
          List.take_of_length_le (Nat.le_succ_of_le hn')]
        simp

end Digits
