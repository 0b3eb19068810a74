import CatalogLinker.Text.Search
import Mathlib.Data.List.TakeDrop
import Mathlib.Data.List.TakeWhile
import Mathlib.Data.Nat.Digits.Defs

namespace CatalogLinker.Text

variable {s t u t' u' : List Char} {c : Char} {n : Nat}

theorem cutAt?_eq_some_iff : cutAt? c s = some (t, u) ↔ s = t ++ c :: u ∧ c ∉ t := by
  rw [cutAt?, List.span_eq_takeWhile_dropWhile]
  constructor
  · intro h
    have hsplit : s.takeWhile (· != c) ++ s.dropWhile (· != c) = s :=
      List.takeWhile_append_dropWhile
    have hhead := List.head?_dropWhile_not (· != c) s
    split at h
    · rename_i before a rest heq
      obtain ⟨rfl, rfl⟩ : before = t ∧ rest = u := by simpa using h
      obtain ⟨rfl, hdrop⟩ := Prod.mk.inj heq
      rw [hdrop] at hsplit hhead
      obtain rfl : a = c := by simpa using hhead
      refine ⟨hsplit.symm, fun hc => ?_⟩
      simpa using List.mem_takeWhile_imp hc
    · simp at h
  · rintro ⟨rfl, hc⟩
    have ht : ∀ a ∈ t, (a != c) = true := fun a ha => bne_iff_ne.2 fun hac => hc (hac ▸ ha)
    rw [List.takeWhile_append_of_pos ht, List.dropWhile_append_of_pos ht,
      List.takeWhile_cons_of_neg (by simp), List.dropWhile_cons_of_neg (by simp), List.append_nil]

theorem cutAt?_eq_none_iff : cutAt? c s = none ↔ c ∉ s := by
  rw [← not_iff_not, not_not, ← ne_eq, Option.ne_none_iff_exists']
  constructor
  · rintro ⟨⟨t, u⟩, h⟩
    obtain ⟨rfl, -⟩ := cutAt?_eq_some_iff.1 h
    exact List.mem_append_right t List.mem_cons_self
  · intro h
    obtain ⟨t, u, rfl, ht⟩ := List.eq_append_cons_of_mem h
    exact ⟨(t, u), cutAt?_eq_some_iff.2 ⟨rfl, ht⟩⟩

theorem cut_inj (h : t ++ c :: u = t' ++ c :: u') (ht : c ∉ t) (ht' : c ∉ t') : t = t' ∧ u = u' := by
  have hcut : cutAt? c (t ++ c :: u) = some (t, u) := cutAt?_eq_some_iff.2 ⟨rfl, ht⟩
  rw [cutAt?_eq_some_iff.2 ⟨h, ht'⟩] at hcut
  exact (Prod.mk.inj (Option.some.inj hcut)).imp Eq.symm Eq.symm

theorem dropWhile_ne_append (h : c ∉ t) : (t ++ c :: u).dropWhile (· ≠ c) = c :: u := by
  have ht : ∀ a ∈ t, a ≠ c := fun a ha hac => h (hac ▸ ha)
  rw [List.dropWhile_append_of_pos (by simpa using ht), List.dropWhile_cons_of_neg (by simp)]

theorem pieces_eq_splitOn (c : Char) (s : List Char) : pieces c s = s.splitOn c := by
  induction s with
  | nil => rw [pieces, List.splitOn_nil]
  | cons a s ih =>
    rw [pieces, List.splitOn_cons_eq_if_modifyHead, ih]
    by_cases ha : a = c
    · simp [ha]
    · simp only [if_neg ha, beq_iff_eq]
      cases hs : s.splitOn c with
      | nil => exact absurd hs (List.splitOn_ne_nil c s)
      | cons p ps => rfl

theorem not_mem_of_mem_pieces (h : t ∈ pieces c s) : c ∉ t := by
  induction s generalizing t with
  | nil =>
    rw [pieces, List.mem_singleton] at h
    simp [h]
  | cons a s ih =>
    rw [pieces] at h
    split at h
    · obtain rfl | ht := List.mem_cons.1 h
      · exact List.not_mem_nil
      · exact ih ht
    · rename_i ha
      have hca : c ≠ a := Ne.symm ha
      cases hs : pieces c s with
      | nil =>
        rw [hs, List.mem_singleton] at h
        simpa [h] using hca
      | cons p ps =>
        rw [hs] at h ih
        obtain rfl | ht := List.mem_cons.1 h
        · exact List.not_mem_cons_of_ne_of_not_mem hca (ih List.mem_cons_self)
        · exact ih (List.mem_cons_of_mem p ht)

def decimalValue (s : List Char) : Nat :=
  Nat.ofDigits 10 (s.reverse.map fun c => c.toNat - '0'.toNat)

theorem decimal?_eq_some_iff :
    decimal? s = some n ↔ s ≠ [] ∧ (∀ c ∈ s, c.isDigit) ∧ decimalValue s = n := by
  have hvalue : s.foldl (fun n c => 10 * n + (c.toNat - '0'.toNat)) 0 = decimalValue s := by
    rw [decimalValue, Nat.ofDigits_eq_foldr, List.foldr_map, List.foldr_reverse]
    simp [Nat.add_comm]
  rw [decimal?, hvalue]
  by_cases hs : s = []
  · simp [hs]
  · have hall : s.all Char.isDigit ↔ ∀ c ∈ s, c.isDigit := List.all_eq_true
    by_cases hd : s.all Char.isDigit
    · rw [if_neg (by simp [hs, hd]), Option.some.injEq]
      exact ⟨fun h => ⟨hs, hall.1 hd, h⟩, fun h => h.2.2⟩
    · rw [if_pos (by simp [hd])]
      exact iff_of_false (Option.some_ne_none n).symm fun h => hd (hall.2 h.2.1)

theorem decimal?_repr (n : Nat) : decimal? (Nat.repr n).toList = some n := by
  have hdigits : ∀ c ∈ Nat.toDigits 10 n, c.isDigit := fun c hc =>
    Nat.isDigit_of_mem_toDigits (by decide) (by decide) hc
  have hvalue : (Nat.toDigits 10 n).foldl (fun n c => 10 * n + (c.toNat - '0'.toNat)) 0 = n := by
    rw [← Nat.ofDigitChars_eq_foldl, Nat.ofDigitChars_ten_toDigits]
  rw [Nat.toList_repr, decimal?, if_neg, hvalue]
  simpa [Nat.toDigits_ne_nil] using hdigits

end CatalogLinker.Text
