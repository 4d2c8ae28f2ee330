/-
`ConcurrentHashMap` and `ConcurrentQueue`.

Every method of the two classes holds the lock for its whole body, so between
threads a call is one atomic step and the classes are modelled by what they
hold.  The map carries the fact that no key occurs twice.
-/
import Mathlib.Data.List.Basic

namespace DogeConnect

/-! ## The map -/

structure ConcurrentHashMap (K V : Type) where
  entries : List (K × V)
  nodup_keys : (entries.map Prod.fst).Nodup

namespace ConcurrentHashMap

variable {K V : Type}

def empty : ConcurrentHashMap K V := ⟨[], List.nodup_nil⟩

instance : Inhabited (ConcurrentHashMap K V) := ⟨empty⟩

def clear (_ : ConcurrentHashMap K V) : ConcurrentHashMap K V := empty

def size (m : ConcurrentHashMap K V) : Nat := m.entries.length

variable [DecidableEq K]

def get (m : ConcurrentHashMap K V) (key : K) : Option V :=
  (m.entries.find? fun kv => kv.1 = key).map Prod.snd

/-- `m_map[key] = value`: an entry under the same key is overwritten. -/
def insert (m : ConcurrentHashMap K V) (key : K) (value : V) : ConcurrentHashMap K V where
  entries := (key, value) :: m.entries.filter fun kv => kv.1 ≠ key
  nodup_keys := by
    rw [List.map_cons, List.nodup_cons]
    constructor
    · intro h
      obtain ⟨kv, hkv, rfl⟩ := List.mem_map.mp h
      simp at hkv
    · exact m.nodup_keys.sublist (List.filter_sublist.map _)

@[simp] theorem get_clear (m : ConcurrentHashMap K V) (key : K) : m.clear.get key = none := rfl

@[simp] theorem get_insert_self (m : ConcurrentHashMap K V) (key : K) (value : V) :
    (m.insert key value).get key = some value := by
  simp [get, insert]

theorem get_insert_of_ne (m : ConcurrentHashMap K V) {key k : K} (value : V) (h : k ≠ key) :
    (m.insert key value).get k = m.get k := by
  have hne : ¬ key = k := fun e => h e.symm
  have hpred : (fun kv : K × V => decide (decide (kv.1 ≠ key) = true ∧ decide (kv.1 = k) = true))
      = fun kv => decide (kv.1 = k) := by
    funext kv
    by_cases hk : kv.1 = k
    · simp [hk, h]
    · simp [hk]
  simp only [get, insert, List.find?_cons, hne, decide_false, List.find?_filter, hpred]

theorem get_insert (m : ConcurrentHashMap K V) (key k : K) (value : V) :
    (m.insert key value).get k = if k = key then some value else m.get k := by
  split_ifs with h
  · rw [h, get_insert_self]
  · exact get_insert_of_ne m value h

end ConcurrentHashMap

/-! ## The queue -/

/-- The items, front first. -/
structure ConcurrentQueue (T : Type) where
  items : List T
  deriving Repr

namespace ConcurrentQueue

variable {T : Type}

def empty : ConcurrentQueue T := ⟨[]⟩

instance : Inhabited (ConcurrentQueue T) := ⟨empty⟩

def push (q : ConcurrentQueue T) (value : T) : ConcurrentQueue T := ⟨q.items ++ [value]⟩

/-- `try_pop`, and `pop` where it does not block. -/
def tryPop (q : ConcurrentQueue T) : Option (T × ConcurrentQueue T) :=
  match q.items with
  | [] => none
  | value :: rest => some (value, ⟨rest⟩)

def size (q : ConcurrentQueue T) : Nat := q.items.length

theorem tryPop_eq_some {q q' : ConcurrentQueue T} {v : T} :
    q.tryPop = some (v, q') ↔ q.items = v :: q'.items := by
  unfold tryPop
  cases h : q.items with
  | nil => simp
  | cons x xs =>
      simp only [Option.some.injEq, Prod.mk.injEq, List.cons.injEq]
      constructor
      · rintro ⟨rfl, rfl⟩; exact ⟨rfl, rfl⟩
      · rintro ⟨rfl, h⟩
        exact ⟨rfl, by cases q'; simp_all⟩

end ConcurrentQueue

end DogeConnect
