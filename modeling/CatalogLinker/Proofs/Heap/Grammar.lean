import CatalogLinker.Heap.Expression
import CatalogLinker.Proofs.Text.Search
import Mathlib.Data.Int.Bitwise
import Mathlib.Data.Nat.Bitwise

namespace CatalogLinker.Heap

inductive Token where
  | numeral (value : Nat)
  | shift
  | bar
  | opening
  | closing

def signed (v : Int) : Int :=
  v.bmod (2 ^ 32)

/-- The bits of `v` moved down, with copies of its sign following. -/
def shifted (v w : Int) : Int :=
  signed v >>> (signed w % 32).toNat

def joined (v w : Int) : Int :=
  (signed v).lor (signed w)

inductive Level where
  | operand
  | shifts
  | bars

inductive Denotes : Level → List Token → Int → Prop
  | numeral (n : Nat) : Denotes .operand [.numeral n] n
  | enclosed {ts : List Token} {v : Int} :
      Denotes .bars ts v → Denotes .operand (.opening :: ts ++ [.closing]) v
  | shifts {ts : List Token} {v : Int} : Denotes .operand ts v → Denotes .shifts ts v
  | shift {ts us : List Token} {v w : Int} :
      Denotes .shifts ts v → Denotes .operand us w →
      Denotes .shifts (ts ++ .shift :: us) (shifted v w)
  | bars {ts : List Token} {v : Int} : Denotes .shifts ts v → Denotes .bars ts v
  | bar {ts us : List Token} {v w : Int} :
      Denotes .bars ts v → Denotes .shifts us w → Denotes .bars (ts ++ .bar :: us) (joined v w)

section Integers

variable {w : Nat}

theorem toInt_eq_cond (x : BitVec w) :
    x.toInt = if x.msb then Int.negSucc (~~~x).toNat else Int.ofNat x.toNat := by
  have hx := x.isLt
  rw [BitVec.toInt_eq_msb_cond]
  split
  · rw [Int.negSucc_eq, BitVec.toNat_not]
    generalize 2 ^ w = m at *
    omega
  · rfl

theorem ldiff_toNat_not (x y : BitVec w) : (~~~x).toNat.ldiff y.toNat = (~~~(x ||| y)).toNat := by
  refine Nat.eq_of_testBit_eq fun i => ?_
  simp only [Nat.testBit_ldiff, BitVec.testBit_toNat, BitVec.getLsbD_not, BitVec.getLsbD_or]
  cases x.getLsbD i <;> simp

theorem toInt_or (x y : BitVec w) : (x ||| y).toInt = x.toInt.lor y.toInt := by
  rw [toInt_eq_cond, toInt_eq_cond x, toInt_eq_cond y, BitVec.msb_or]
  cases x.msb <;> cases y.msb
  · rfl
  · exact congrArg Int.negSucc (by rw [BitVec.or_comm, ldiff_toNat_not])
  · exact congrArg Int.negSucc (ldiff_toNat_not x y).symm
  · exact congrArg Int.negSucc (by rw [BitVec.not_or, BitVec.toNat_and])

theorem toInt_ofInt (v : Int) : (BitVec.ofInt 32 v).toInt = signed v :=
  BitVec.toInt_ofInt v

theorem toNat_ofInt_mod (v : Int) :
    (BitVec.ofInt 32 v).toNat % 32 = (signed v % 32).toNat := by
  have hlt := (BitVec.ofInt 32 v).isLt
  rw [← toInt_ofInt, BitVec.toInt_eq_toNat_cond]
  split <;> omega

end Integers

structure IsNumeral (ds : List Char) (n : Nat) : Prop where
  ne_nil : ds ≠ []
  digits : ∀ c ∈ ds, c.isDigit
  value : Text.decimalValue ds = n
  bound : n ≤ 2 ^ 63 - 1

inductive IsSymbol : List Char → Token → Prop
  | shift : IsSymbol ['>', '>'] .shift
  | bar : IsSymbol ['|'] .bar
  | opening : IsSymbol ['('] .opening
  | closing : IsSymbol [')'] .closing

inductive Writes : List Char → Token → Prop
  | numeral {ds : List Char} {n : Nat} : IsNumeral ds n → Writes ds (.numeral n)
  | symbol {w : List Char} {t : Token} : IsSymbol w t → Writes w t

inductive Spells : List Char → List Token → Prop
  | nil : Spells [] []
  | space {s : List Char} {ts : List Token} : Spells s ts → Spells (' ' :: s) ts
  | token {w s : List Char} {t : Token} {ts : List Token} :
      Writes w t → Spells s ts → Spells (w ++ s) (t :: ts)

/-- A text is an expression of a value. -/
def Expresses (s : List Char) (v : Int) : Prop :=
  ∃ ts, Spells s ts ∧ Denotes .bars ts v

variable {s s' : List Char} {t : Token} {ts ts' us : List Token}

namespace Spells

theorem append (h : Spells s ts) (h' : Spells s' ts') : Spells (s ++ s') (ts ++ ts') := by
  induction h with
  | nil => exact h'
  | space _ ih => exact .space ih
  | token hw _ ih =>
    rw [List.append_assoc]
    exact .token hw ih

theorem spaces (h : ∀ c ∈ s, c = ' ') : Spells s [] := by
  induction s with
  | nil => exact .nil
  | cons c s ih =>
    obtain ⟨rfl, hs⟩ := List.forall_mem_cons.1 h
    exact .space (ih hs)

theorem eq_spaces (h : Spells s []) : ∀ c ∈ s, c = ' ' := by
  generalize hv : [] = vs at h
  induction h with
  | nil => exact List.forall_mem_nil _
  | space _ ih => exact List.forall_mem_cons.2 ⟨rfl, ih hv⟩
  | token _ _ _ => cases hv

theorem of_cons (h : Spells s (t :: ts)) :
    ∃ gap w s', s = gap ++ (w ++ s') ∧ (∀ c ∈ gap, c = ' ') ∧ Writes w t ∧ Spells s' ts := by
  generalize hv : t :: ts = vs at h
  induction h with
  | nil => cases hv
  | space _ ih =>
    obtain ⟨gap, w, s', rfl, hgap, hw, hs⟩ := ih hv
    exact ⟨' ' :: gap, w, s', rfl, List.forall_mem_cons.2 ⟨rfl, hgap⟩, hw, hs⟩
  | token hw hs _ =>
    obtain ⟨rfl, rfl⟩ := List.cons.inj hv
    exact ⟨[], _, _, rfl, List.forall_mem_nil _, hw, hs⟩

theorem of_symbol {w : List Char} (h : Spells s (t :: ts)) (hw : IsSymbol w t) :
    ∃ gap s', s = gap ++ (w ++ s') ∧ (∀ c ∈ gap, c = ' ') ∧ Spells s' ts := by
  obtain ⟨gap, w', s', rfl, hgap, hw', hs⟩ := h.of_cons
  have hsame : w' = w := by
    cases hw' with
    | numeral _ => cases hw
    | symbol hw' => cases hw <;> cases hw' <;> rfl
  exact ⟨gap, s', hsame ▸ rfl, hgap, hs⟩

theorem of_append (h : Spells s (ts ++ us)) :
    ∃ s₁ s₂, s = s₁ ++ s₂ ∧ Spells s₁ ts ∧ Spells s₂ us := by
  induction ts generalizing s with
  | nil => exact ⟨[], s, rfl, .nil, h⟩
  | cons t ts ih =>
    obtain ⟨gap, w, s', rfl, hgap, hw, hs⟩ := of_cons h
    obtain ⟨s₁, s₂, rfl, h₁, h₂⟩ := ih hs
    exact ⟨gap ++ (w ++ s₁), s₂, by simp, (spaces hgap).append (.token hw h₁), h₂⟩

end Spells

end CatalogLinker.Heap
