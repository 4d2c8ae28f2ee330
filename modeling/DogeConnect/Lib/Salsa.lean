/-
The Salsa20 core, as a function of a four by four matrix of words.

A quarter round mixes four words.  A row round applies it to every row,
beginning at the diagonal, a column round is the row round of the transpose,
and the core adds the input to what the double rounds make of it.
-/
import Mathlib.Logic.Function.Iterate
import Mathlib.Data.Fin.VecNotation

namespace Salsa

abbrev Matrix := Fin 4 → Fin 4 → UInt32

def rotl (n : Nat) (x : UInt32) : UInt32 := ⟨x.toBitVec.rotateLeft n⟩

/-- The four results, in the order of the arguments. -/
def quarterRound (y0 y1 y2 y3 : UInt32) : Fin 4 → UInt32 :=
  let z1 := y1 ^^^ rotl 7 (y0 + y3)
  let z2 := y2 ^^^ rotl 9 (z1 + y0)
  let z3 := y3 ^^^ rotl 13 (z2 + z1)
  let z0 := y0 ^^^ rotl 18 (z3 + z2)
  ![z0, z1, z2, z3]

/-- Row `i` from its diagonal element on. -/
def rowRound (M : Matrix) : Matrix := fun i j =>
  quarterRound (M i i) (M i (i + 1)) (M i (i + 2)) (M i (i + 3)) (j - i)

def transpose (M : Matrix) : Matrix := fun i j => M j i

def columnRound (M : Matrix) : Matrix := transpose (rowRound (transpose M))

def doubleRound (M : Matrix) : Matrix := rowRound (columnRound M)

/-- The core with `2 * n` rounds. -/
def core (n : Nat) (M : Matrix) : Matrix := fun i j => M i j + (doubleRound^[n] M) i j

end Salsa
