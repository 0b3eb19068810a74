import CatalogLinker.Proofs.Heap.Memory
import Mathlib.Algebra.Group.Int.Defs
import Mathlib.Algebra.Group.Nat.Defs

namespace CatalogLinker

open Heap Heap.Store

namespace Heap

theorem getElem?_littleEndian {k j : Nat} (h : j < k) (v : Int) :
    (littleEndian k v)[j]? = some (UInt8.ofNat (v / 256 ^ j % 256).toNat) := by
  induction k generalizing v j with
  | zero => omega
  | succ k ih =>
    rw [littleEndian]
    cases j with
    | zero => simp
    | succ j =>
      have hdiv : v / 256 / 256 ^ j = v / 256 ^ (j + 1) := by
        rw [Int.ediv_ediv_of_nonneg (by decide), Int.pow_succ']
      rw [List.getElem?_cons_succ, ih (by omega), hdiv]

def View.isInteger : View → Bool
  | .f32 => false
  | .f64 => false
  | _ => true

theorem Store.getElem?_bytes_of_isInteger {s : Store} (hs : s.view.isInteger) {j : Nat}
    (h : j < s.view.width) :
    s.bytes[j]? = some (UInt8.ofNat (s.value / 256 ^ j % 256).toNat) := by
  obtain ⟨view, index, value⟩ := s
  cases view with
  | f32 | f64 => simp [View.isInteger] at hs
  | i8 | i16 | i32 => exact getElem?_littleEndian h value

theorem Store.getElem?_bytes_of_covers {s : Store} {a : Nat} (h : s.Covers a) (m : Memory) :
    s.bytes[a - s.address]? = some (s.perform m a) := by
  obtain ⟨hl, hr⟩ := h
  have ha : a - s.address < s.bytes.length := by
    rw [length_bytes]
    omega
  rw [Store.perform, Memory.write, if_pos hl, List.getElem?_eq_getElem ha]
  rfl

end Heap

namespace MemoryImage

def Spans (m : MemoryImage) (a : Nat) : Prop :=
  m.base.toNat ≤ a ∧ a < m.base.toNat + m.bytes.length

def install (m : MemoryImage) (h : Memory) : Memory :=
  h.write m.base.toNat m.bytes

/-- Folds stores one after another; those that an image does not accept are passed over. -/
def foldAll (m : MemoryImage) (ss : List Store) : MemoryImage :=
  ss.foldl (fun m s => (m.fold s).1) m

variable {m : MemoryImage} {s : Store} {h h' : Memory} {a : Nat} {ss : List Store}

theorem install_apply (ha : m.Spans a) (h' : Memory) : m.install h a = m.install h' a :=
  Memory.write_inside ha h'

theorem install_outside (ha : ¬m.Spans a) : m.install h a = h a :=
  Memory.write_outside ha

theorem spans_of_holds (hs : m.holds s) (ha : s.Covers a) : m.Spans a := by
  obtain ⟨hl, hr⟩ := hs
  obtain ⟨hl', hr'⟩ := ha
  exact ⟨by omega, by omega⟩

theorem fold_of_holds (hs : m.holds s) :
    m.fold s =
      ({ m with bytes := overwrite m.bytes (s.address - m.base.toNat) s.bytes }, true) :=
  if_pos hs

/-- A store that an image does not hold changes nothing. -/
theorem fold_of_not_holds (hs : ¬m.holds s) : m.fold s = (m, false) :=
  if_neg hs

theorem fold?_of_holds (hs : m.holds s) : m.fold? s = some (m.fold s).1 := by
  rw [fold?, fold_of_holds hs]
  rfl

theorem fold?_of_not_holds (hs : ¬m.holds s) : m.fold? s = none := by
  rw [fold?, fold_of_not_holds hs]
  rfl

theorem isSome_fold?_iff : (m.fold? s).isSome ↔ m.holds s := by
  by_cases hs : m.holds s
  · simp [fold?_of_holds hs, hs]
  · simp [fold?_of_not_holds hs, hs]

theorem fold_spec (hs : m.holds s) (h : Memory) :
    (m.fold s).1.base = m.base ∧ (m.fold s).1.bytes.length = m.bytes.length ∧
      (m.fold s).1.install h = s.perform (m.install h) := by
  rw [fold_of_holds hs]
  obtain ⟨hl, hr⟩ := hs
  refine ⟨rfl, ?_, ?_⟩
  · simp only [overwrite, List.length_append, List.length_take, List.length_drop, length_bytes]
    omega
  · refine (Memory.write_overwrite hl ?_).symm
    rwa [length_bytes]

theorem holds_congr {m' : MemoryImage} (hb : m'.base = m.base)
    (hl : m'.bytes.length = m.bytes.length) : m'.holds s ↔ m.holds s := by
  rw [holds, holds, hb, hl]

theorem foldAll_cons (m : MemoryImage) (s : Store) (ss : List Store) :
    m.foldAll (s :: ss) = (m.fold s).1.foldAll ss :=
  rfl

theorem foldAll_concat (m : MemoryImage) (ss : List Store) (s : Store) :
    m.foldAll (ss ++ [s]) = ((m.foldAll ss).fold s).1 := by
  simp [foldAll]

theorem foldAll_spec (m : MemoryImage) (ss : List Store) (h : Memory) :
    (m.foldAll ss).base = m.base ∧ (m.foldAll ss).bytes.length = m.bytes.length ∧
      (m.foldAll ss).install h = performAll (ss.filter (m.holds ·)) (m.install h) := by
  induction ss generalizing m with
  | nil => exact ⟨rfl, rfl, rfl⟩
  | cons s ss ih =>
    by_cases hs : m.holds s
    · obtain ⟨hb', hl', hinstall⟩ := fold_spec hs h
      have hsame : ∀ t, (m.fold s).1.holds t ↔ m.holds t := fun _ => holds_congr hb' hl'
      obtain ⟨hb, hl, hfold⟩ := ih (m.fold s).1
      simp only [hsame] at hfold
      rw [foldAll_cons, List.filter_cons_of_pos (by simpa using hs)]
      exact ⟨hb.trans hb', hl.trans hl', by rw [hfold, hinstall]; rfl⟩
    · rw [foldAll_cons, fold_of_not_holds hs, List.filter_cons_of_neg (by simpa using hs)]
      exact ih m

theorem getElem?_bytes {k : Nat} (hk : k < m.bytes.length) (h : Memory) :
    m.bytes[k]? = some (m.install h (m.base.toNat + k)) := by
  rw [install, Memory.write, if_pos (Nat.le_add_right _ _), Nat.add_sub_cancel_left,
    List.getElem?_eq_getElem hk]
  rfl

/-- The last accepted store that covers a byte decides it. -/
theorem getElem?_foldAll (m : MemoryImage) (ss : List Store) (k : Nat) :
    (m.foldAll ss).bytes[k]? =
      (lastAt? (ss.filter (m.holds ·)) (m.base.toNat + k)).elim m.bytes[k]? fun s =>
        s.bytes[m.base.toNat + k - s.address]? := by
  obtain ⟨hb, hl, hfold⟩ := foldAll_spec m ss Memory.zero
  by_cases hk : k < m.bytes.length
  · rw [getElem?_bytes (hl ▸ hk) Memory.zero, hb, hfold, performAll_apply]
    cases hlast : lastAt? (ss.filter (m.holds ·)) (m.base.toNat + k) with
    | none => exact (getElem?_bytes hk Memory.zero).symm
    | some s => exact (getElem?_bytes_of_covers (covers_of_lastAt? hlast) _).symm
  · -- No accepted store reaches behind the image.
    have hnone : lastAt? (ss.filter (m.holds ·)) (m.base.toNat + k) = none := by
      rw [Option.eq_none_iff_forall_ne_some]
      intro s hs
      have hheld : m.holds s := by
        have hmem := List.mem_of_getLast? hs
        simpa using (List.mem_filter.1 (List.mem_filter.1 hmem).1).2
      have hspan := (spans_of_holds hheld (covers_of_lastAt? hs)).2
      omega
    rw [hnone, List.getElem?_eq_none (by omega)]
    exact (List.getElem?_eq_none (by omega)).symm

theorem exists_checkedMul {a b : UInt64} (h : a.toNat * b.toNat < 2 ^ 64) :
    ∃ c, checkedMul a b = some c ∧ c.toNat = a.toNat * b.toNat :=
  ⟨a * b, if_pos h, by rw [UInt64.toNat_mul, Nat.mod_eq_of_lt h]⟩

theorem exists_checkedSub {a b : UInt64} (h : b.toNat ≤ a.toNat) :
    ∃ c, checkedSub a b = some c ∧ c.toNat = a.toNat - b.toNat :=
  have hle := UInt64.le_iff_toNat_le.2 h
  ⟨a - b, if_pos hle, UInt64.toNat_sub_of_le a b hle⟩

theorem checkedSub_eq_none {a b : UInt64} (h : ¬b.toNat ≤ a.toNat) : checkedSub a b = none :=
  if_neg fun hle => h (UInt64.le_iff_toNat_le.1 hle)

/-- No index makes the address wrap around into the image. -/
theorem foldWord?_eq {m : MemoryImage} (hm : m.bytes.length < 2 ^ 63) (view : View)
    (index : UInt64) (value : Int) :
    m.foldWord? view index value = m.fold? ⟨view, index.toNat, value⟩ := by
  have hbase : m.base.toUInt64.toNat = m.base.toNat := UInt32.toNat_toUInt64 _
  have hwidth : (UInt64.ofNat view.width).toNat = view.width := by cases view <;> rfl
  have hholds : m.holds ⟨view, index.toNat, value⟩ ↔ m.base.toNat ≤ index.toNat * view.width ∧
      index.toNat * view.width + view.width ≤ m.base.toNat + m.bytes.length := Iff.rfl
  by_cases hfits : index.toNat * view.width < 2 ^ 64
  · obtain ⟨address, hmul, haddress⟩ := exists_checkedMul (hwidth.symm ▸ hfits)
    rw [hwidth] at haddress
    by_cases hl : m.base.toNat ≤ index.toNat * view.width
    · obtain ⟨offset, hsub, hoffset⟩ := exists_checkedSub (a := address) (b := m.base.toUInt64)
        (by rwa [hbase, haddress])
      rw [hbase, haddress] at hoffset
      simp only [foldWord?, hmul, hsub, Option.bind_eq_bind, Option.bind_some, hoffset, patch?,
        View.length_encode, List.length_drop]
      by_cases hr : index.toNat * view.width + view.width ≤ m.base.toNat + m.bytes.length
      · have hheld : m.holds ⟨view, index.toNat, value⟩ := hholds.2 ⟨hl, hr⟩
        rw [if_pos ⟨by omega, by omega⟩, fold?_of_holds hheld, fold_of_holds hheld]
        rfl
      · have hwide := view.width_pos
        rw [if_neg fun h => by omega, fold?_of_not_holds fun h => hr (hholds.1 h).2]
        rfl
    · have hsub := checkedSub_eq_none (a := address) (b := m.base.toUInt64)
        (by rwa [hbase, haddress])
      rw [fold?_of_not_holds fun h => hl (hholds.1 h).1]
      simp only [foldWord?, hmul, hsub, Option.bind_eq_bind, Option.bind_some, Option.bind_none]
  · -- An address beyond 64 bits is beyond every image.
    have hbound := m.base.toNat_lt
    have hmul : checkedMul index (.ofNat view.width) = none := if_neg (by rwa [hwidth])
    have hfar : ¬m.holds ⟨view, index.toNat, value⟩ := fun h => by
      have hr := (hholds.1 h).2
      omega
    rw [foldWord?, hmul, fold?_of_not_holds hfar]
    rfl

/-- An index whose address would wrap around to 0. -/
example : (⟨[1, 2], 0⟩ : MemoryImage).foldWord? .i16 (2 ^ 63) 7 = none := by decide +kernel

/-- What folding stores one after another makes of an image. -/
structure FoldsBytewise (m : MemoryImage) (ss : List Store) : Prop where
  accepted : ∀ before s rest, ss = before ++ s :: rest →
    (((m.foldAll before).fold? s).isSome ↔
      m.base.toNat ≤ s.index * s.view.width ∧
        s.index * s.view.width + s.view.width ≤ m.base.toNat + m.bytes.length)
  refused : ∀ before s rest, ss = before ++ s :: rest → (m.foldAll before).fold? s = none →
    m.foldAll (before ++ [s]) = m.foldAll before
  length : (m.foldAll ss).bytes.length = m.bytes.length
  byte : ∀ k, (m.foldAll ss).bytes[k]? =
    (lastAt? (ss.filter (m.holds ·)) (m.base.toNat + k)).elim m.bytes[k]? fun s =>
      s.bytes[m.base.toNat + k - s.address]?

/-- Stores are folded exactly if they lie within the image, in exact arithmetic and in words alike,
and each byte is what the last of them that covers it wrote. -/
theorem foldAll_bytewise (m : MemoryImage) (ss : List Store) :
    FoldsBytewise m ss ∧
      (∀ s : Store, s.bytes.length = s.view.width ∧
        (s.view.isInteger → ∀ k, k < s.view.width →
          s.bytes[k]? = some (UInt8.ofNat (s.value / 256 ^ k % 256).toNat))) ∧
      (m.bytes.length < 2 ^ 63 → ∀ view index value,
        m.foldWord? view index value = m.fold? ⟨view, index.toNat, value⟩) := by
  refine ⟨⟨?_, ?_, (foldAll_spec m ss Memory.zero).2.1, getElem?_foldAll m ss⟩, ?_, ?_⟩
  · intro before s rest _
    obtain ⟨hb, hl, -⟩ := foldAll_spec m before Memory.zero
    rw [isSome_fold?_iff, holds_congr hb hl]
    rfl
  · intro before s rest _ hf
    have hs : ¬(m.foldAll before).holds s := by rw [← isSome_fold?_iff, hf]; simp
    rw [foldAll_concat, fold_of_not_holds hs]
  · exact fun s => ⟨length_bytes s, fun hs k hk => getElem?_bytes_of_isInteger hs hk⟩
  · exact fun hm view index value => foldWord?_eq hm view index value

end MemoryImage

end CatalogLinker
