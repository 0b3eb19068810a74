import CatalogLinker.MemoryImage
import Mathlib.Data.List.Induction

namespace CatalogLinker.Heap

abbrev Memory := Nat → UInt8

namespace Memory

def zero : Memory :=
  fun _ => 0

def write (m : Memory) (k : Nat) (bs : List UInt8) : Memory :=
  fun a => if k ≤ a then bs[a - k]?.getD (m a) else m a

variable {m : Memory} {k j a : Nat} {bs old new : List UInt8}

theorem write_inside (h : k ≤ a ∧ a < k + bs.length) (m' : Memory) :
    m.write k bs a = m'.write k bs a := by
  have ha : a - k < bs.length := by omega
  rw [write, write, if_pos h.1, if_pos h.1, List.getElem?_eq_getElem ha]
  rfl

theorem write_outside (h : ¬(k ≤ a ∧ a < k + bs.length)) : m.write k bs a = m a := by
  rw [write]
  by_cases hk : k ≤ a
  · have ha : bs.length ≤ a - k := by omega
    rw [if_pos hk, List.getElem?_eq_none ha]
    rfl
  · rw [if_neg hk]

theorem getElem?_overwrite (old new : List UInt8) {i : Nat} (h : i + new.length ≤ old.length)
    (l : Nat) :
    (MemoryImage.overwrite old i new)[l]? =
      if i ≤ l ∧ l < i + new.length then new[l - i]? else old[l]? := by
  rw [MemoryImage.overwrite]
  by_cases hl : l < i
  · rw [if_neg (by omega), List.append_assoc, List.getElem?_append_left (by simp; omega),
      List.getElem?_take_of_lt hl]
  · by_cases hr : l < i + new.length
    · rw [if_pos (by omega), List.append_assoc, List.getElem?_append_right (by simp; omega),
        List.getElem?_append_left (by simp; omega), List.length_take, Nat.min_eq_left (by omega)]
    · rw [if_neg (by omega), List.getElem?_append_right (by simp; omega), List.getElem?_drop]
      congr 1
      simp
      omega

theorem write_overwrite (hk : k ≤ j) (hj : j + new.length ≤ k + old.length) :
    (m.write k old).write j new = m.write k (MemoryImage.overwrite old (j - k) new) := by
  funext a
  by_cases ha : k ≤ a
  · have hget := getElem?_overwrite old new (i := j - k) (by omega) (a - k)
    by_cases hn : j ≤ a ∧ a < j + new.length
    · rw [if_pos (by omega), show a - k - (j - k) = a - j by omega] at hget
      rw [write_inside hn m, write, write, if_pos hn.1, if_pos ha, hget]
    · rw [if_neg (by omega)] at hget
      rw [write_outside hn, write, write, if_pos ha, if_pos ha, hget]
  · rw [write_outside (by omega), write, write, if_neg ha, if_neg ha]

end Memory

namespace Store

variable {m m' : Memory} {s : Store} {ss : List Store} {a : Nat}

def perform (s : Store) (m : Memory) : Memory :=
  m.write s.address s.bytes

def performAll (ss : List Store) (m : Memory) : Memory :=
  ss.foldl (fun m s => s.perform m) m

def Covers (s : Store) (a : Nat) : Prop :=
  s.address ≤ a ∧ a < s.address + s.view.width

instance (s : Store) (a : Nat) : Decidable (s.Covers a) :=
  inferInstanceAs (Decidable (_ ∧ _))

def lastAt? (ss : List Store) (a : Nat) : Option Store :=
  (ss.filter (·.Covers a)).getLast?

theorem length_bytes (s : Store) : s.bytes.length = s.view.width :=
  View.length_encode s.view s.value

theorem covers_of_lastAt? (h : lastAt? ss a = some s) : s.Covers a := by
  have hs := List.mem_of_getLast? h
  simpa using (List.mem_filter.1 hs).2

theorem perform_of_not_covers (h : ¬s.Covers a) : s.perform m a = m a := by
  rw [perform]
  refine Memory.write_outside ?_
  rwa [length_bytes]

theorem perform_of_covers (h : s.Covers a) (m' : Memory) : s.perform m a = s.perform m' a := by
  rw [perform, perform]
  refine Memory.write_inside ?_ m'
  rwa [length_bytes]

/-- The last store that covers a byte decides it. -/
theorem performAll_apply (ss : List Store) (m : Memory) (a : Nat) :
    performAll ss m a = (lastAt? ss a).elim (m a) fun s => s.perform m a := by
  induction ss using List.reverseRecOn with
  | nil => rfl
  | append_singleton ss s ih =>
    have hstep : performAll (ss ++ [s]) m = s.perform (performAll ss m) := by
      rw [performAll, List.foldl_append]
      rfl
    rw [hstep, lastAt?, List.filter_append]
    by_cases hs : s.Covers a
    · rw [List.filter_cons_of_pos (by simpa using hs), List.getLast?_append]
      exact perform_of_covers hs m
    · rw [List.filter_cons_of_neg (by simpa using hs), List.filter_nil, List.append_nil,
        perform_of_not_covers hs]
      exact ih

theorem performAll_congr (h : m a = m' a) : performAll ss m a = performAll ss m' a := by
  rw [performAll_apply, performAll_apply]
  cases hl : lastAt? ss a with
  | none => exact h
  | some s => exact perform_of_covers (covers_of_lastAt? hl) m'

theorem performAll_of_not_covers (h : ∀ s ∈ ss, ¬s.Covers a) : performAll ss m a = m a := by
  have hnone : lastAt? ss a = none := by
    rw [lastAt?, List.getLast?_eq_none_iff, List.filter_eq_nil_iff]
    simpa using h
  rw [performAll_apply, hnone]
  rfl

/-- Leaving stores out does not matter at an address if the last one that covers it stays. -/
theorem lastAt?_filter {P : Store → Bool} (h : ∀ s, lastAt? ss a = some s → P s) :
    lastAt? (ss.filter P) a = lastAt? ss a := by
  have hcomm : (ss.filter P).filter (·.Covers a) = (ss.filter (·.Covers a)).filter P := by
    rw [List.filter_filter, List.filter_filter]
    exact List.filter_congr fun s _ => Bool.and_comm _ _
  rw [lastAt?, hcomm]
  cases hl : lastAt? ss a with
  | none =>
    rw [lastAt?, List.getLast?_eq_none_iff] at hl
    rw [hl]
    rfl
  | some s =>
    obtain ⟨init, hinit⟩ := List.getLast?_eq_some_iff.1 hl
    rw [hinit, List.filter_append, List.filter_cons_of_pos (h s hl), List.getLast?_append]
    rfl

theorem performAll_filter {P : Store → Bool} (h : ∀ s, lastAt? ss a = some s → P s) :
    performAll (ss.filter P) m a = performAll ss m a := by
  rw [performAll_apply, performAll_apply, lastAt?_filter h]

end Store

end CatalogLinker.Heap
