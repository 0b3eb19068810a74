import CatalogLinker.Text.Search

namespace CatalogLinker.Heap

structure Reading (n : Nat) where
  value : Int
  rest : List Char
  length_lt : rest.length < n

def Reading.within {m n : Nat} (r : Reading m) (h : m ≤ n) : Reading n :=
  { r with length_lt := Nat.lt_of_lt_of_le r.length_lt h }

namespace Expression

inductive Operator where
  | bar
  | shift

namespace Operator

def token : Operator → List Char
  | bar => ['|']
  | shift => ['>', '>']

/-- The operators work on signed 32-bit integers, to which they truncate their operands; the count
of a shift is taken modulo 32. -/
def apply (v w : Int) : Operator → Int
  | bar => (BitVec.ofInt 32 v ||| BitVec.ofInt 32 w).toInt
  | shift => ((BitVec.ofInt 32 v).sshiftRight ((BitVec.ofInt 32 w).toNat % 32)).toInt

theorem length_token_pos (o : Operator) : 0 < o.token.length := by
  cases o <;> decide

end Operator

def maxLiteral : Nat :=
  1 <<< 63 - 1

def skipSpaces (s : List Char) : List Char :=
  s.dropWhile (· == ' ')

def eat? (token s : List Char) : Option (List Char) :=
  Text.after? token (skipSpaces s)

variable {token s t : List Char}

theorem length_skipSpaces_le (s : List Char) : (skipSpaces s).length ≤ s.length :=
  (List.dropWhile_sublist _).length_le

theorem eat?_eq_some_iff : eat? token s = some t ↔ skipSpaces s = token ++ t :=
  Text.after?_eq_some_iff

theorem length_of_eat? (h : eat? token s = some t) : token.length + t.length ≤ s.length := by
  have hs := length_skipSpaces_le s
  rwa [eat?_eq_some_iff.1 h, List.length_append] at hs

theorem length_dropWhile_isDigit {n : Nat}
    (h : Text.decimal? (s.takeWhile Char.isDigit) = some n) :
    (s.dropWhile Char.isDigit).length < s.length := by
  have hne : s.takeWhile Char.isDigit ≠ [] := by
    intro hnil
    simp [hnil, Text.decimal?] at h
  have hpos := List.length_pos_iff.2 hne
  have hlength := congrArg List.length (List.takeWhile_append_dropWhile (p := Char.isDigit) (l := s))
  rw [List.length_append] at hlength
  omega

def literal? (s : List Char) : Option (Reading s.length) :=
  match h : Text.decimal? (s.takeWhile Char.isDigit) with
  | none => none
  | some n =>
    if n ≤ maxLiteral then some ⟨n, s.dropWhile Char.isDigit, length_dropWhile_isDigit h⟩ else none

mutual

def chain (o : Operator) (s : List Char) : Option (Reading s.length) :=
  (operand o s).bind fun r => (loop o r.value r.rest).map (·.within r.length_lt)
termination_by 6 * s.length + (match o with | .bar => 4 | .shift => 2)
decreasing_by
  · cases o <;> simp
  · have := r.length_lt
    cases o <;> omega

def operand (o : Operator) (s : List Char) : Option (Reading s.length) :=
  match o with
  | .bar => chain .shift s
  | .shift => atom s
termination_by 6 * s.length + (match o with | .bar => 3 | .shift => 1)

def loop (o : Operator) (v : Int) (s : List Char) : Option (Reading (s.length + 1)) :=
  match h : eat? o.token s with
  | none => some ⟨v, skipSpaces s, Nat.lt_succ_of_le (length_skipSpaces_le s)⟩
  | some t =>
    have ht : t.length < s.length := by
      have := length_of_eat? h
      have := o.length_token_pos
      omega
    (operand o t).bind fun r =>
      (loop o (o.apply v r.value) r.rest).map (·.within (by have := r.length_lt; omega))
termination_by 6 * s.length
decreasing_by
  · cases o <;> simp <;> omega
  · have := r.length_lt
    omega

def atom (s : List Char) : Option (Reading s.length) :=
  match h : eat? ['('] s with
  | none => (literal? (skipSpaces s)).map (·.within (length_skipSpaces_le s))
  | some t =>
    have ht : t.length < s.length := Nat.lt_of_lt_of_le (by simp) (length_of_eat? h)
    (chain .bar t).bind fun r =>
      match hr : eat? [')'] r.rest with
      | none => none
      | some u =>
        have hu : u.length < r.rest.length := Nat.lt_of_lt_of_le (by simp) (length_of_eat? hr)
        some ⟨r.value, u, Nat.lt_trans hu (Nat.lt_trans r.length_lt ht)⟩
termination_by 6 * s.length
decreasing_by
  omega

end

def evaluate? (s : List Char) : Option Int :=
  (chain .bar s).bind fun r => if (skipSpaces r.rest).isEmpty then some r.value else none

end Expression

end CatalogLinker.Heap
