import CatalogLinker.Interner
import Mathlib.Data.List.Induction

namespace CatalogLinker

namespace Interner

inductive Call where
  | intern (s : String)
  | symbol (s : String)
  | contains (s : String)
  | lookup (k : Nat)
deriving DecidableEq

def Call.interned? : Call → Option String
  | intern s => some s
  | symbol _ => none
  | contains _ => none
  | lookup _ => none

def perform (t : Interner) : Call → Interner
  | .intern s => (t.intern s).2
  | .symbol _ => t
  | .contains _ => t
  | .lookup _ => t

def after (cs : List Call) : Interner :=
  cs.foldl perform {}

def distinct (cs : List Call) : List String :=
  (cs.filterMap Call.interned?).eraseDups

def Receives (cs : List Call) (s : String) (k : Nat) : Prop :=
  ∃ before later, cs = before ++ .intern s :: later ∧ ((after before).intern s).1 = k

/-- The interner holds strings, and their symbols are their places, counted from 1. -/
structure Holds (t : Interner) (ss : List String) : Prop where
  strings : t.strings.toList = "" :: ss
  size : t.size = ss.length
  symbol? : ∀ s k, t.symbol? s = some k ↔ ∃ i, ss[i]? = some s ∧ k = i + 1

/-- What calls on a fresh interner are answered, and what they leave. -/
structure Numbered (cs : List Call) : Prop where
  answered : ∀ s, .intern s ∈ cs → ∃ k, Receives cs s k
  same_iff : ∀ s s' k k', Receives cs s k → Receives cs s' k' → (k = k' ↔ s = s')
  in_order : ∀ s k, Receives cs s k ↔ ∃ i, (distinct cs)[i]? = some s ∧ k = i + 1
  in_range : ∀ s k, Receives cs s k → 0 < k ∧ k < UInt32.size
  size : (after cs).size = (distinct cs).length
  lookup? : ∀ s k, 0 < k → ((after cs).lookup? k = some s ↔ Receives cs s k)
  lookup?_beyond : ∀ k, (distinct cs).length < k → (after cs).lookup? k = none
  symbol? : ∀ s k, (after cs).symbol? s = some k ↔ Receives cs s k
  contains : ∀ s, (after cs).contains s ↔ .intern s ∈ cs
  kept : ∀ s k later, Receives cs s k →
    (after (cs ++ later)).symbol? s = some k ∧ (after (cs ++ later)).lookup? k = some s ∧
      ∀ k', Receives (cs ++ later) s k' → k' = k

variable {t : Interner} {s : String} {ss : List String} {cs : List Call} {c : Call} {i k : Nat}

section Strings

def added (ss : List String) (s : String) : List String :=
  if s ∈ ss then ss else ss ++ [s]

theorem eraseDups_concat (as : List String) (s : String) :
    (as ++ [s]).eraseDups = added as.eraseDups s := by
  rw [List.eraseDups_append, added]
  by_cases h : s ∈ as
  · simp [List.removeAll, h]
  · simp [List.removeAll, h, List.eraseDups_cons]

theorem getElem?_concat_iff {s' : String} :
    (ss ++ [s])[i]? = some s' ↔ ss[i]? = some s' ∨ i = ss.length ∧ s = s' := by
  rw [List.getElem?_append]
  split
  · rename_i hi
    simp [Nat.ne_of_lt hi]
  · rename_i hi
    simp [List.getElem?_eq_none (Nat.le_of_not_lt hi), List.getElem?_singleton]
    omega

theorem distinct_concat_intern : distinct (cs ++ [.intern s]) = added (distinct cs) s := by
  rw [distinct, List.filterMap_append]
  exact eraseDups_concat _ s

theorem distinct_concat_of_none (h : c.interned? = none) : distinct (cs ++ [c]) = distinct cs := by
  simp [distinct, h]

theorem distinct_prefix (cs later : List Call) : distinct cs <+: distinct (cs ++ later) := by
  rw [distinct, distinct, List.filterMap_append, List.eraseDups_append]
  exact List.prefix_append _ _

theorem mem_distinct_iff : s ∈ distinct cs ↔ .intern s ∈ cs := by
  rw [distinct, List.mem_eraseDups, List.mem_filterMap]
  constructor
  · rintro ⟨c, hc, hs⟩
    cases c with
    | intern s' =>
      obtain rfl := Option.some.inj hs
      exact hc
    | _ => simp [Call.interned?] at hs
  · exact fun h => ⟨_, h, rfl⟩

end Strings

namespace Holds

theorem fresh : Holds {} [] := by
  refine ⟨rfl, rfl, fun s k => ?_⟩
  simp [Interner.symbol?]

theorem lookup?_succ (h : t.Holds ss) : t.lookup? (i + 1) = ss[i]? := by
  rw [Interner.lookup?, ← Array.getElem?_toList, h.strings, List.getElem?_cons_succ]

theorem place_inj (h : t.Holds ss) {j : Nat} (hi : ss[i]? = some s) (hj : ss[j]? = some s) :
    i = j := by
  have hik := (h.symbol? s (i + 1)).2 ⟨i, hi, rfl⟩
  have hjk := (h.symbol? s (j + 1)).2 ⟨j, hj, rfl⟩
  exact Nat.succ.inj (Option.some.inj (hik.symm.trans hjk))

theorem length_strings (h : t.Holds ss) : t.strings.size = ss.length + 1 := by
  rw [← Array.length_toList, h.strings, List.length_cons]

theorem mem_of_symbol? (h : t.Holds ss) (hk : t.symbol? s = some k) : s ∈ ss := by
  obtain ⟨i, hi, -⟩ := (h.symbol? s k).1 hk
  exact List.mem_of_getElem? hi

theorem not_mem_of_symbol? (h : t.Holds ss) (hnone : t.symbol? s = none) : s ∉ ss := by
  intro hs
  obtain ⟨i, hi⟩ := List.mem_iff_getElem?.1 hs
  rw [(h.symbol? s (i + 1)).2 ⟨i, hi, rfl⟩] at hnone
  simp at hnone

/-- The step: a string gets its place, behind the other strings if it is new. -/
theorem intern (h : t.Holds ss) (s : String) :
    (t.intern s).2.Holds (added ss s) ∧ ∃ i, (added ss s)[i]? = some s ∧ (t.intern s).1 = i + 1 := by
  cases hs : t.symbol? s with
  | some k =>
    obtain ⟨i, hi, rfl⟩ := (h.symbol? s k).1 hs
    rw [Interner.intern, hs, added, if_pos (h.mem_of_symbol? hs)]
    exact ⟨h, i, hi, rfl⟩
  | none =>
    have hnew : s ∉ ss := h.not_mem_of_symbol? hs
    rw [Interner.intern, hs, added, if_neg hnew]
    refine ⟨⟨?_, ?_, fun s' k => ?_⟩, ss.length, by simp, h.length_strings⟩
    · simp [h.strings]
    · simpa [Interner.size] using h.size
    · simp only [getElem?_concat_iff, or_and_right, exists_or, ← h.symbol?]
      rw [Interner.symbol?, List.lookup_cons, ← Interner.symbol?, h.length_strings]
      by_cases hss : s' = s
      · subst hss
        simp [hs, eq_comm]
      · have hne : (s' == s) = false := beq_false_of_ne hss
        simp [hne, Ne.symm hss]

end Holds

theorem after_concat (cs : List Call) (c : Call) : after (cs ++ [c]) = (after cs).perform c := by
  simp [after]

/-- The run: after any calls the interner holds the distinct strings that they intern. -/
theorem holds_after (cs : List Call) : (after cs).Holds (distinct cs) := by
  induction cs using List.reverseRecOn with
  | nil => exact Holds.fresh
  | append_singleton cs c ih =>
    rw [after_concat]
    cases c with
    | intern s =>
      rw [distinct_concat_intern]
      exact (ih.intern s).1
    | symbol s | contains s | lookup k =>
      rw [distinct_concat_of_none rfl]
      exact ih

theorem place_of_receives (h : Receives cs s k) : ∃ i, (distinct cs)[i]? = some s ∧ k = i + 1 := by
  obtain ⟨before, later, rfl, rfl⟩ := h
  obtain ⟨-, i, hi, hk⟩ := (holds_after before).intern s
  refine ⟨i, ?_, hk⟩
  rw [← distinct_concat_intern] at hi
  have hprefix := distinct_prefix (before ++ [.intern s]) later
  rw [List.append_assoc, List.singleton_append] at hprefix
  obtain ⟨rest, hrest⟩ := hprefix
  rw [← hrest, List.getElem?_append_left (List.getElem?_eq_some_iff.1 hi).1, hi]

theorem receives_iff : Receives cs s k ↔ ∃ i, (distinct cs)[i]? = some s ∧ k = i + 1 := by
  refine ⟨place_of_receives, ?_⟩
  rintro ⟨i, hi, rfl⟩
  obtain ⟨before, later, hcs⟩ := List.append_of_mem (mem_distinct_iff.1 (List.mem_of_getElem? hi))
  have hreceives : Receives cs s ((after before).intern s).1 := ⟨before, later, hcs, rfl⟩
  obtain ⟨j, hj, hk⟩ := place_of_receives hreceives
  rwa [hk, (holds_after cs).place_inj hj hi] at hreceives

theorem Receives.append (h : Receives cs s k) (later : List Call) : Receives (cs ++ later) s k := by
  obtain ⟨before, after, rfl, hk⟩ := h
  exact ⟨before, after ++ later, by simp, hk⟩

theorem symbol?_iff_receives : (after cs).symbol? s = some k ↔ Receives cs s k :=
  ((holds_after cs).symbol? s k).trans receives_iff.symm

theorem lookup?_iff_receives (hk : 0 < k) : (after cs).lookup? k = some s ↔ Receives cs s k := by
  obtain ⟨j, rfl⟩ := Nat.exists_eq_add_of_lt hk
  rw [Nat.zero_add, (holds_after cs).lookup?_succ, receives_iff]
  simp

theorem pos_of_receives (h : Receives cs s k) : 0 < k := by
  obtain ⟨i, -, rfl⟩ := place_of_receives h
  exact Nat.succ_pos i

/-- Whatever the calls on a fresh interner are, the symbols of the strings that they intern are 1, 2
and so on in the order in which they are first interned, and stay so. As long as the strings are few
enough, the symbols are numbers of 32 bits. -/
theorem symbols_number_strings (cs : List Call) (hfew : (distinct cs).length < UInt32.size - 1) :
    Numbered cs where
  answered s hs := by
    obtain ⟨i, hi⟩ := List.mem_iff_getElem?.1 (mem_distinct_iff.2 hs)
    exact ⟨i + 1, receives_iff.2 ⟨i, hi, rfl⟩⟩
  same_iff s s' k k' hk hk' := by
    obtain ⟨i, hi, rfl⟩ := place_of_receives hk
    obtain ⟨j, hj, rfl⟩ := place_of_receives hk'
    constructor
    · intro hij
      obtain rfl : i = j := Nat.succ.inj hij
      exact Option.some.inj (hi.symm.trans hj)
    · rintro rfl
      rw [(holds_after cs).place_inj hi hj]
  in_order _ _ := receives_iff
  in_range s k hk := by
    obtain ⟨i, hi, rfl⟩ := place_of_receives hk
    have hlength : i < (distinct cs).length := (List.getElem?_eq_some_iff.1 hi).1
    exact ⟨Nat.succ_pos i, by omega⟩
  size := (holds_after cs).size
  lookup? _ _ := lookup?_iff_receives
  lookup?_beyond k hk := by
    rw [Interner.lookup?, Array.getElem?_eq_none_iff, (holds_after cs).length_strings]
    exact hk
  symbol? _ _ := symbol?_iff_receives
  contains s := by
    rw [← mem_distinct_iff, List.mem_iff_getElem?, Interner.contains, Option.isSome_iff_exists]
    simp only [symbol?_iff_receives, receives_iff]
    exact ⟨fun ⟨_, i, hi, _⟩ => ⟨i, hi⟩, fun ⟨i, hi⟩ => ⟨_, i, hi, rfl⟩⟩
  kept s k later hk := by
    have hlater := hk.append later
    have hsymbol := symbol?_iff_receives.2 hlater
    refine ⟨hsymbol, (lookup?_iff_receives (pos_of_receives hlater)).2 hlater, fun k' hk' => ?_⟩
    exact Option.some.inj ((symbol?_iff_receives.2 hk').symm.trans hsymbol)

def repeated : List Call :=
  [.intern "foo", .contains "bar", .intern "", .symbol "", .intern "foo", .lookup 2, .intern "bar"]

theorem repeated_numbered :
    (distinct repeated).length < UInt32.size - 1 ∧ Numbered repeated ∧
      Receives repeated "" 2 ∧ (after repeated).lookup? 2 = some "" := by
  have hfew : (distinct repeated).length < UInt32.size - 1 := by decide +kernel
  have hnumbered : Numbered repeated := symbols_number_strings repeated hfew
  have hempty : Receives repeated "" 2 := (hnumbered.symbol? "" 2).1 (by decide +kernel)
  exact ⟨hfew, hnumbered, hempty, (hnumbered.lookup? "" 2 (by decide)).2 hempty⟩

end Interner

end CatalogLinker
