namespace CatalogLinker.Heap

structure FloatFormat where
  precision : Nat
  exponentBits : Nat
deriving DecidableEq, Repr

namespace FloatFormat

def single : FloatFormat := ⟨24, 8⟩

def double : FloatFormat := ⟨53, 11⟩

variable (f : FloatFormat)

def bias : Nat :=
  1 <<< (f.exponentBits - 1) - 1

/-- The quotient of `n` by `2 ^ k`, rounded to the nearest integer and to the even one of two. -/
def roundShift (n k : Nat) : Nat :=
  let q := n >>> k
  let r := n % (1 <<< k)
  if 2 * r > 1 <<< k ∨ (2 * r = 1 <<< k ∧ q % 2 = 1) then q + 1 else q

/-- The significand of a number that is not zero, scaled to the precision of the format. A value of
`2 ^ precision` stands for the next power of two. -/
def significand (n : Nat) : Nat :=
  if n.log2 < f.precision then n <<< (f.precision - 1 - n.log2)
  else roundShift n (n.log2 + 1 - f.precision)

def infinityBits : Nat :=
  (1 <<< f.exponentBits - 1) <<< (f.precision - 1)

/-- The bits of a natural number. The exponent takes up a carry from the significand, and what is
too large becomes infinity. -/
def natBits (n : Nat) : Nat :=
  if n = 0 then 0
  else min ((f.bias + n.log2 - 1) <<< (f.precision - 1) + f.significand n) f.infinityBits

def signBit : Nat :=
  1 <<< (f.precision - 1 + f.exponentBits)

/-- The bits of the format's number that is nearest to an integer, ties to the number with the even
significand. -/
def intBits (v : Int) : Nat :=
  if v < 0 then f.signBit + f.natBits v.natAbs else f.natBits v.natAbs

end FloatFormat

end CatalogLinker.Heap
