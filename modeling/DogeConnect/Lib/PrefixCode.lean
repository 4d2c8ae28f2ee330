/-
Prefix codes: encodings that say where they end.

A code writes a value as a list of symbols and takes one off the front of a
list.  The two are tied by one law, which says both that what is written is read
back, whatever follows, and that what is read was written: an accepted text has
one meaning, and a meaning one text.

Codes are put together from codes.  The one behind another may depend on the
value in front (`sigma`), so that a list can follow its length (`counted`); a
mark tells two codes apart (`either`); and a code can be cut down to some of the
values (`restrict`) or be read as another type (`iso`).
-/
import Mathlib.Logic.Equiv.Defs
import Mathlib.Data.List.Basic

/-- A code for `α` over symbols `β`. -/
structure PrefixCode (β α : Type) where
  encode : α → List β
  decode : List β → Option (α × List β)
  decode_eq_some : ∀ {s a rest}, decode s = some (a, rest) ↔ s = encode a ++ rest

namespace PrefixCode

variable {β α γ : Type}

section
variable (c : PrefixCode β α)

theorem decode_encode (a : α) (rest : List β) : c.decode (c.encode a ++ rest) = some (a, rest) :=
  c.decode_eq_some.mpr rfl

end

/-! ## Single symbols -/

/-- Nothing is written. -/
def nothing : PrefixCode β Unit where
  encode _ := []
  decode s := some ((), s)
  decode_eq_some := by
    intro s a rest
    simp

/-- One symbol for itself. -/
def symbol : PrefixCode β β where
  encode b := [b]
  decode
    | [] => none
    | b :: s => some (b, s)
  decode_eq_some := by
    intro s b rest
    cases s <;> simp

/-! ## Other types, fewer values -/

/-- The same texts for another type. -/
def iso (c : PrefixCode β α) (e : α ≃ γ) : PrefixCode β γ where
  encode g := c.encode (e.symm g)
  decode s := (c.decode s).map fun p => (e p.1, p.2)
  decode_eq_some := by
    intro s g rest
    rw [Option.map_eq_some_iff]
    constructor
    · rintro ⟨⟨a, t⟩, hdecode, h⟩
      cases h
      rw [e.symm_apply_apply]
      exact c.decode_eq_some.mp hdecode
    · intro h
      exact ⟨(e.symm g, rest), c.decode_eq_some.mpr h, by rw [e.apply_symm_apply]⟩

/-- The values that satisfy `p`; other texts are refused. -/
def restrict (c : PrefixCode β α) (p : α → Prop) [DecidablePred p] :
    PrefixCode β {a // p a} where
  encode a := c.encode a.1
  decode s := (c.decode s).bind fun q => if h : p q.1 then some (⟨q.1, h⟩, q.2) else none
  decode_eq_some := by
    intro s a rest
    rw [Option.bind_eq_some_iff]
    constructor
    · rintro ⟨⟨b, t⟩, hdecode, h⟩
      split at h
      · cases h
        exact c.decode_eq_some.mp hdecode
      · cases h
    · intro h
      refine ⟨(a.1, rest), c.decode_eq_some.mpr h, ?_⟩
      rw [dif_pos a.2]

/-! ## One behind the other -/

/-- The second code may depend on the first value. -/
def sigma (c : PrefixCode β α) {γ : α → Type} (d : ∀ a, PrefixCode β (γ a)) :
    PrefixCode β (Σ a, γ a) where
  encode p := c.encode p.1 ++ (d p.1).encode p.2
  decode s := (c.decode s).bind fun q => ((d q.1).decode q.2).map fun r => (⟨q.1, r.1⟩, r.2)
  decode_eq_some := by
    rintro s ⟨a, g⟩ rest
    rw [Option.bind_eq_some_iff]
    constructor
    · rintro ⟨⟨b, t⟩, hdecode, h⟩
      obtain ⟨⟨g', t'⟩, hdecode', h⟩ := Option.map_eq_some_iff.mp h
      cases h
      have ht : t = (d b).encode g' ++ t' := (d b).decode_eq_some.mp hdecode'
      rw [c.decode_eq_some.mp hdecode, ht, List.append_assoc]
    · intro h
      rw [List.append_assoc] at h
      refine ⟨(a, (d a).encode g ++ rest), c.decode_eq_some.mpr h, ?_⟩
      rw [decode_encode]
      rfl

/-- One value and then another. -/
def seq (c : PrefixCode β α) (d : PrefixCode β γ) : PrefixCode β (α × γ) :=
  (c.sigma fun _ => d).iso (Equiv.sigmaEquivProd α γ)

/-! ## Lists -/

/-- Read `n` values. -/
def decodeMany (c : PrefixCode β α) : Nat → List β → Option (List α × List β)
  | 0, s => some ([], s)
  | n + 1, s => (c.decode s).bind fun q => (decodeMany c n q.2).map fun r => (q.1 :: r.1, r.2)

theorem decodeMany_eq_some (c : PrefixCode β α) {n : Nat} {s rest : List β} {as : List α} :
    c.decodeMany n s = some (as, rest) ↔ as.length = n ∧ s = as.flatMap c.encode ++ rest := by
  induction n generalizing s as with
  | zero =>
      rw [decodeMany]
      constructor
      · intro h
        cases h
        exact ⟨rfl, rfl⟩
      · rintro ⟨hlength, rfl⟩
        rw [List.eq_nil_of_length_eq_zero hlength]
        rfl
  | succ n ih =>
      rw [decodeMany, Option.bind_eq_some_iff]
      constructor
      · rintro ⟨⟨a, t⟩, hdecode, h⟩
        obtain ⟨⟨as', t'⟩, hmany, h⟩ := Option.map_eq_some_iff.mp h
        cases h
        obtain ⟨hlength, ht⟩ := ih.mp hmany
        refine ⟨by rw [List.length_cons, hlength], ?_⟩
        rw [c.decode_eq_some.mp hdecode, show t = _ from ht, List.flatMap_cons, List.append_assoc]
      · rintro ⟨hlength, rfl⟩
        cases as with
        | nil => cases hlength
        | cons a as =>
            refine ⟨(a, as.flatMap c.encode ++ rest), ?_, ?_⟩
            · rw [List.flatMap_cons, List.append_assoc, decode_encode]
            · rw [ih.mpr ⟨Nat.succ.inj hlength, rfl⟩]
              rfl

/-- As many values as are expected. -/
def many (c : PrefixCode β α) (n : Nat) : PrefixCode β {as : List α // as.length = n} where
  encode as := as.1.flatMap c.encode
  decode s := (c.decodeMany n s).bind fun q =>
    if h : q.1.length = n then some (⟨q.1, h⟩, q.2) else none
  decode_eq_some := by
    rintro s ⟨as, hlength⟩ rest
    rw [Option.bind_eq_some_iff]
    constructor
    · rintro ⟨⟨as', t⟩, hmany, h⟩
      split at h
      · cases h
        exact (c.decodeMany_eq_some.mp hmany).2
      · cases h
    · intro h
      refine ⟨(as, rest), c.decodeMany_eq_some.mpr ⟨hlength, h⟩, ?_⟩
      rw [dif_pos hlength]

/-- Lists that are shorter than a bound. -/
abbrev Short (bound : Nat) (α : Type) := {as : List α // as.length < bound}

/-- A list is its length and that many values. -/
def shortEquiv (bound : Nat) (α : Type) :
    (Σ n : Fin bound, {as : List α // as.length = n.1}) ≃ Short bound α where
  toFun p := ⟨p.2.1, by rw [p.2.2]; exact p.1.2⟩
  invFun as := ⟨⟨as.1.length, as.2⟩, ⟨as.1, rfl⟩⟩
  left_inv := by
    rintro ⟨⟨n, hn⟩, ⟨as, h⟩⟩
    cases h
    rfl
  right_inv _ := rfl

/-- The length first. -/
def counted {bound : Nat} (size : PrefixCode β (Fin bound)) (c : PrefixCode β α) :
    PrefixCode β (Short bound α) :=
  (size.sigma fun n => c.many n.1).iso (shortEquiv bound α)

/-! ## Alternatives -/

/-- Two codes, of which the second is marked. -/
def either [DecidableEq β] (c : PrefixCode β α) (d : PrefixCode β γ) (mark : List β)
    (hmark : ∀ a rest, ¬ mark <+: c.encode a ++ rest) : PrefixCode β (α ⊕ γ) where
  encode
    | .inl a => c.encode a
    | .inr g => mark ++ d.encode g
  decode s :=
    if mark.isPrefixOf s then (d.decode (s.drop mark.length)).map fun q => (.inr q.1, q.2)
    else (c.decode s).map fun q => (.inl q.1, q.2)
  decode_eq_some := by
    intro s x rest
    split
    · next h =>
        obtain ⟨t, rfl⟩ := List.isPrefixOf_iff_prefix.mp h
        rw [List.drop_left, Option.map_eq_some_iff]
        constructor
        · rintro ⟨⟨g, t'⟩, hdecode, h⟩
          cases h
          rw [d.decode_eq_some.mp hdecode, List.append_assoc]
        · intro h
          cases x with
          | inl a => exact absurd ⟨t, h⟩ (hmark a rest)
          | inr g =>
              rw [List.append_assoc] at h
              exact ⟨(g, rest), d.decode_eq_some.mpr (List.append_cancel_left h), rfl⟩
    · next h =>
        rw [Option.map_eq_some_iff]
        constructor
        · rintro ⟨⟨a, t⟩, hdecode, h⟩
          cases h
          exact c.decode_eq_some.mp hdecode
        · intro heq
          cases x with
          | inl a => exact ⟨(a, rest), c.decode_eq_some.mpr heq, rfl⟩
          | inr g =>
              rw [List.append_assoc] at heq
              exact absurd (List.isPrefixOf_iff_prefix.mpr ⟨_, heq.symm⟩) h

end PrefixCode
