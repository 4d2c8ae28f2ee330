/-
The part of `nlohmann::json` the dispatcher uses.

A value is one of the library's kinds; a number keeps the kind the parser gave
it.  Accesses follow the library's documented behaviour: a mismatched access or
conversion throws `type_error`, a constant array read past its end is undefined
behaviour, and the *non-constant* `operator[]` inserts `null` where a key or an
index is missing instead of failing.
-/
import DogeConnect.HashUtil

namespace DogeConnect

inductive Json
  | null
  | boolean (b : Bool)
  | unsigned (n : Nat)
  | integer (i : Int)
  | float (q : Rat)
  | string (s : Str)
  | array (elements : List Json)
  | object (fields : List (Str × Json))
  deriving Repr, Inhabited

/-- What an access can do instead of returning. -/
inductive JsonError
  /-- `nlohmann::json::type_error` is thrown. -/
  | typeError
  /-- Undefined behaviour: a constant array is read past its end, or a float
  outside the range of the integer type is cast. -/
  | undefined
  deriving DecidableEq, Repr

namespace Json

/-! ## Access -/

/-- The value stored under a key. -/
def find? (fields : List (Str × Json)) (key : Str) : Option Json :=
  (fields.find? fun kv => kv.1 = key).map Prod.snd

/-- `contains(key)`. -/
def contains : Json → Str → Bool
  | object fields, key => (find? fields key).isSome
  | _, _ => false

/-- Non-constant `operator[](key)`: a missing key, or `null`, reads as `null`. -/
def field : Json → Str → Except JsonError Json
  | object fields, key => .ok ((find? fields key).getD null)
  | null, _ => .ok null
  | _, _ => .error .typeError

/-- Non-constant `operator[](idx)`: an array too short is filled with `null`. -/
def index : Json → Nat → Except JsonError Json
  | array elements, i => .ok (elements.getD i null)
  | null, _ => .ok null
  | _, _ => .error .typeError

/-- Constant `operator[](idx)`. -/
def constIndex : Json → Nat → Except JsonError Json
  | array elements, i => match elements[i]? with
    | some v => .ok v
    | none => .error .undefined
  | _, _ => .error .typeError

/-- The values a range-based `for` visits: the elements, the members' values,
nothing for `null`, and the value itself for any other kind. -/
def elements : Json → List Json
  | array elements => elements
  | object fields => fields.map Prod.snd
  | null => []
  | v => [v]

/-! ## Tests -/

/-- `== nullptr`. -/
def isNull : Json → Bool
  | null => true
  | _ => false

/-- `is_number_unsigned()`. -/
def isNumberUnsigned : Json → Bool
  | unsigned _ => true
  | _ => false

/-- `== n` for an integer literal: numbers of different kinds are compared by
value. -/
def eqInt : Json → Int → Bool
  | unsigned m, n => (m : Int) = n
  | integer i, n => i = n
  | float q, n => q = n
  | _, _ => false

/-- `== b` for a boolean literal. -/
def eqBool : Json → Bool → Bool
  | boolean c, b => c = b
  | _, _ => false

/-- `== s` for a string literal. -/
def eqString : Json → Str → Bool
  | string t, s => t = s
  | _, _ => false

/-! ## Conversions -/

def getBool : Json → Except JsonError Bool
  | boolean b => .ok b
  | _ => .error .typeError

def getString : Json → Except JsonError Str
  | string s => .ok s
  | _ => .error .typeError

/-- A float cast to an unsigned type of `w` bits: truncated towards zero, which
is undefined if the result does not fit. -/
def truncToUnsigned (w : Nat) (q : Rat) : Except JsonError Nat :=
  let t := q.num.tdiv q.den
  if 0 ≤ t ∧ t < 2 ^ w then .ok t.toNat else .error .undefined

/-- Conversion to `uint64_t`. -/
def getUInt64 : Json → Except JsonError UInt64
  | unsigned n => .ok (UInt64.ofNat n)
  | integer i => .ok (UInt64.ofNat (i % 2 ^ 64).toNat)
  | float q => (truncToUnsigned 64 q).map UInt64.ofNat
  | _ => .error .typeError

/-- Conversion to `unsigned int`, which also takes a boolean. -/
def getUInt32 : Json → Except JsonError UInt32
  | unsigned n => .ok (UInt32.ofNat n)
  | integer i => .ok (UInt32.ofNat (i % 2 ^ 32).toNat)
  | float q => (truncToUnsigned 32 q).map UInt32.ofNat
  | boolean b => .ok (if b then 1 else 0)
  | _ => .error .typeError

/-! ## Reading a stratum message -/

@[simp] theorem getString_string (s : Str) : (string s).getString = .ok s := rfl

theorem constIndex_array {xs : List Json} {i : Nat} {v : Json} (h : xs[i]? = some v) :
    (array xs).constIndex i = .ok v := by
  simp [constIndex, h]

end Json

theorem except_ok_bind {ε α β : Type} (a : α) (f : α → Except ε β) :
    (Except.ok a >>= f) = f a := rfl

theorem except_bind_eq_ok {ε α β : Type} {x : Except ε α} {f : α → Except ε β} {b : β} :
    x.bind f = .ok b ↔ ∃ a, x = .ok a ∧ f a = .ok b := by
  cases x with
  | error e => simp [Except.bind]
  | ok a => simp [Except.bind]

/-- `{"id": null, "method": method, "params": params}`: what a stratum server
sends unasked. -/
def stratumNotification (method : Str) (params : List Json) : Json :=
  .object [("id".toList, .null), ("method".toList, .string method), ("params".toList, .array params)]

end DogeConnect
