import CatalogLinker.Proofs.Postset.Precedence
import Mathlib.Data.Fintype.EquivFin
import Mathlib.Data.Fintype.Sets
import Mathlib.Data.List.Lex
import Mathlib.Order.WellFounded

namespace CatalogLinker.Postset

open Relation (TransGen ReflTransGen)

def ready (left : List Placed) (q : Placed) : Bool :=
  left.all fun p => !precedes p q

def arrange (left : List Placed) : Option (List Placed) :=
  match _h : left.find? (ready left) with
  | some q => (arrange (left.erase q)).map (q :: ·)
  | none => if left.isEmpty then some [] else none
termination_by left.length
decreasing_by
  have hmem := List.mem_of_find?_eq_some _h
  have := List.length_pos_of_mem hmem
  rw [List.length_erase_of_mem hmem]
  omega

/-- An order of postsets in which each follows every other one that it depends on. -/
structure Arranges (left qs : List Placed) : Prop where
  perm : qs.Perm left
  follows : ∀ p ∈ left, ∀ q ∈ left, precedes p q → [p, q].Sublist qs

/-- An arrangement whose positions come lexicographically before those of every other one. -/
structure ArrangesFirst (left qs : List Placed) : Prop extends Arranges left qs where
  first : ∀ rs, Arranges left rs → rs ≠ qs →
    List.Lex (· < ·) (qs.map Prod.snd) (rs.map Prod.snd)

variable {left qs rs : List Placed} {p q : Placed}

theorem ready_iff : ready left q ↔ ∀ p ∈ left, ¬precedes p q := by
  simp [ready]

section Arranges

theorem Arranges.head (hn : left.Nodup) (h : Arranges left (q :: qs)) :
    q ∈ left ∧ ready left q := by
  have hnodup : (q :: qs).Nodup := h.perm.nodup_iff.2 hn
  have hq : q ∈ left := h.perm.subset List.mem_cons_self
  refine ⟨hq, ready_iff.2 fun p hp hpq => ?_⟩
  have hsub := h.follows p hp q hq hpq
  rw [List.cons_sublist_cons'] at hsub
  obtain hsub | ⟨heq, -⟩ := hsub
  · exact (List.nodup_cons.1 hnodup).1 (hsub.subset (by simp))
  · exact ne_of_precedes hpq heq

theorem Arranges.erase (hn : left.Nodup) (h : Arranges left qs) (q : Placed) :
    Arranges (left.erase q) (qs.erase q) where
  perm := h.perm.erase q
  follows := by
    intro p hp r hr hpr
    rw [hn.mem_erase_iff] at hp hr
    have hsub := (h.follows p hp.2 r hr.2 hpr).erase q
    rwa [List.erase_of_not_mem (by simp [Ne.symm hp.1, Ne.symm hr.1])] at hsub

theorem Arranges.cons (hq : q ∈ left) (hready : ready left q)
    (h : Arranges (left.erase q) qs) : Arranges left (q :: qs) where
  perm := (h.perm.cons q).trans (List.perm_cons_erase hq).symm
  follows := by
    intro p hp r hr hpr
    have hrq : r ≠ q := by
      rintro rfl
      exact ready_iff.1 hready p hp hpr
    have hr' : r ∈ left.erase q := (List.mem_erase_of_ne hrq).2 hr
    by_cases hpq : p = q
    · rw [hpq, List.cons_sublist_cons, List.singleton_sublist]
      exact h.perm.mem_iff.2 hr'
    · have hp' : p ∈ left.erase q := (List.mem_erase_of_ne hpq).2 hp
      exact (h.follows p hp' r hr' hpr).trans (List.sublist_cons_self q qs)

theorem arranges_cons_iff (hn : left.Nodup) :
    Arranges left (q :: qs) ↔ q ∈ left ∧ ready left q ∧ Arranges (left.erase q) qs := by
  constructor
  · intro h
    obtain ⟨hq, hready⟩ := h.head hn
    exact ⟨hq, hready, by simpa using h.erase hn q⟩
  · rintro ⟨hq, hready, h⟩
    exact h.cons hq hready

theorem arranges_nil_iff : Arranges [] qs ↔ qs = [] := by
  constructor
  · exact fun h => List.perm_nil.1 h.perm
  · rintro rfl
    exact ⟨List.Perm.nil, by simp⟩

theorem Arranges.pairwise (hn : left.Nodup) (h : Arranges left qs) :
    qs.Pairwise fun p q => ¬precedes q p := by
  induction qs generalizing left with
  | nil => exact List.Pairwise.nil
  | cons q qs ih =>
    obtain ⟨-, hready, hrest⟩ := (arranges_cons_iff hn).1 h
    refine List.pairwise_cons.2 ⟨fun p hp => ?_, ih (hn.erase q) hrest⟩
    exact ready_iff.1 hready p (h.perm.subset (List.mem_cons_of_mem q hp))

end Arranges

section Arrange

theorem arrange_of_find? {left : List Placed} {q : Placed} (h : left.find? (ready left) = some q) :
    arrange left = (arrange (left.erase q)).map (q :: ·) := by
  rw [arrange]
  split
  · rename_i r hr
    obtain rfl : q = r := Option.some.inj (h.symm.trans hr)
    rfl
  · rename_i hr
    exact absurd (h.symm.trans hr) (Option.some_ne_none q)

theorem arrange_of_stuck {left : List Placed} (h : left.find? (ready left) = none) :
    arrange left = if left.isEmpty then some [] else none := by
  rw [arrange]
  split
  · rename_i r hr
    exact absurd (hr.symm.trans h) (Option.some_ne_none r)
  · rfl

theorem ArrangesFirst.unique (h : ArrangesFirst left qs) (h' : ArrangesFirst left rs) :
    qs = rs := by
  by_contra hne
  have hlt := h.first rs h'.toArranges (Ne.symm hne)
  have hgt := h'.first qs h.toArranges hne
  exact asymm hlt hgt

theorem lt_of_find?_ready (ha : Ascending left) (hq : left.find? (ready left) = some q)
    (hp : p ∈ left) (hready : ready left p) (hne : p ≠ q) : q.2 < p.2 := by
  obtain ⟨-, front, rest, hleft, hfront⟩ := List.find?_eq_some_iff_append.1 hq
  rw [Ascending, hleft] at ha
  rw [hleft, List.mem_append, List.mem_cons] at hp
  obtain hp | hp | hp := hp
  · exact absurd hready (by simpa using hfront p hp)
  · exact absurd hp hne
  · exact (List.pairwise_cons.1 (List.pairwise_append.1 ha).2.1).1 p hp

theorem arrangesFirst_of_arrange (ha : Ascending left) (h : arrange left = some qs) :
    ArrangesFirst left qs := by
  induction left using arrange.induct generalizing qs with
  | case1 left q hq ih =>
    rw [arrange_of_find? hq, Option.map_eq_some_iff] at h
    obtain ⟨qs, hqs, rfl⟩ := h
    have hmem : q ∈ left := List.mem_of_find?_eq_some hq
    have htail := ih (List.Pairwise.erase q ha) hqs
    refine ⟨htail.toArranges.cons hmem (List.find?_some hq), fun rs hrs hne => ?_⟩
    cases rs with
    | nil => exact absurd (hrs.perm.mem_iff.2 hmem) List.not_mem_nil
    | cons r rs =>
      obtain ⟨hr, hready, hrest⟩ := (arranges_cons_iff ha.nodup).1 hrs
      -- The two arrangements differ at once, or behind their common first postset.
      by_cases heq : r = q
      · obtain rfl := heq
        exact .cons (htail.first rs hrest fun h => hne (congrArg (r :: ·) h))
      · exact .rel (lt_of_find?_ready ha hq hr hready heq)
  | case2 left hq he =>
    obtain rfl : left = [] := List.isEmpty_iff.1 he
    obtain rfl : qs = [] := by simpa [arrange, eq_comm] using h
    exact ⟨arranges_nil_iff.2 rfl, fun rs hrs hne => absurd (arranges_nil_iff.1 hrs) hne⟩
  | case3 left hq he =>
    rw [arrange_of_stuck hq, if_neg he] at h
    exact absurd h (Option.some_ne_none qs).symm

theorem exists_arrange (hn : left.Nodup) (h : Arranges left rs) : ∃ qs, arrange left = some qs := by
  induction left using arrange.induct generalizing rs with
  | case1 left q hq ih =>
    obtain ⟨qs, hqs⟩ := ih (hn.erase q) (h.erase hn q)
    exact ⟨q :: qs, by rw [arrange_of_find? hq, hqs, Option.map_some]⟩
  | case2 left hq he =>
    exact ⟨[], by rw [arrange_of_stuck hq, if_pos he]⟩
  | case3 left hq he =>
    cases rs with
    | nil => exact absurd (List.isEmpty_iff.2 (List.perm_nil.1 h.perm.symm)) he
    | cons r rs =>
      obtain ⟨hr, hready⟩ := h.head hn
      exact absurd hready (List.find?_eq_none.1 hq r hr)

theorem arrange_eq_some_iff (ha : Ascending left) :
    arrange left = some qs ↔ ArrangesFirst left qs := by
  constructor
  · exact arrangesFirst_of_arrange ha
  · intro h
    obtain ⟨rs, hrs⟩ := exists_arrange ha.nodup h.toArranges
    rw [hrs, h.unique (arrangesFirst_of_arrange ha hrs)]

theorem arrange_self (h : left.Pairwise fun p q => ¬precedes q p) : arrange left = some left := by
  induction left with
  | nil => simp [arrange]
  | cons p left ih =>
    rw [List.pairwise_cons] at h
    have hready : ready (p :: left) p := by
      refine ready_iff.2 fun q hq hqp => ?_
      obtain rfl | hq := List.mem_cons.1 hq
      · exact ne_of_precedes hqp rfl
      · exact h.1 q hq hqp
    rw [arrange_of_find? (List.find?_cons_of_pos hready), List.erase_cons_head, ih h.2,
      Option.map_some]

end Arrange

section Circular

theorem circular_mono {left' : List Placed} (hsub : left' ⊆ left) (h : Circular left') :
    Circular left := by
  obtain ⟨p, hp⟩ := h
  exact ⟨p, TransGen.mono (fun _ _ hab => ⟨hsub hab.1, hsub hab.2.1, hab.2.2⟩) _ _ hp⟩

/-- What is ready is on no circle, so taking it away breaks none. -/
theorem circular_erase (hq : ready left q) (h : Circular left) : Circular (left.erase q) := by
  rw [ready_iff] at hq
  have hne : ∀ {a b}, Before left a b → b ≠ q := by
    rintro a b ⟨ha, -, hab⟩ rfl
    exact hq a ha hab
  have hstep : ∀ {a b}, a ≠ q → Before left a b → Before (left.erase q) a b := by
    intro a b ha hab
    exact ⟨(List.mem_erase_of_ne ha).2 hab.1, (List.mem_erase_of_ne (hne hab)).2 hab.2.1, hab.2.2⟩
  have hpath : ∀ {a b}, a ≠ q → TransGen (Before left) a b →
      TransGen (Before (left.erase q)) a b := by
    intro a b ha hab
    induction hab with
    | single hab => exact .single (hstep ha hab)
    | @tail b c hab hbc ih =>
      obtain ⟨e, -, heb⟩ := TransGen.tail'_iff.1 hab
      exact .tail ih (hstep (hne heb) hbc)
  obtain ⟨p, hp⟩ := h
  obtain ⟨e, -, hep⟩ := TransGen.tail'_iff.1 hp
  exact ⟨p, hpath (hne hep) hp⟩

/-- If nothing is ready, going back from what is not ready runs into a circle. -/
theorem circular_of_stuck (hp : p ∈ left) (h : ∀ q ∈ left, ¬ready left q) : Circular left := by
  by_contra hc
  let reaches : {x // x ∈ left} → {x // x ∈ left} → Prop := fun a b => TransGen (Before left) a b
  have : Finite {x // x ∈ left} := Finite.of_fintype _
  have : IsTrans _ reaches := ⟨fun _ _ _ hab hbc => hab.trans hbc⟩
  have : Std.Irrefl reaches := ⟨fun a ha => hc ⟨a, ha⟩⟩
  obtain ⟨m, -, hm⟩ := (Finite.wellFounded_of_trans_of_irrefl reaches).has_min Set.univ
    ⟨⟨p, hp⟩, trivial⟩
  obtain ⟨a, ha, ham⟩ : ∃ a ∈ left, precedes a m := by
    have hready := h m m.2
    rw [ready_iff] at hready
    push Not at hready
    exact hready
  exact hm ⟨a, ha⟩ trivial (.single ⟨ha, m.2, ham⟩)

theorem not_circular_nil : ¬Circular [] := by
  rintro ⟨p, hp⟩
  obtain ⟨q, -, hq⟩ := TransGen.tail'_iff.1 hp
  exact absurd hq.1 List.not_mem_nil

theorem arrange_eq_none_iff : arrange left = none ↔ Circular left := by
  induction left using arrange.induct with
  | case1 left q hq ih =>
    have hready : ready left q := List.find?_some hq
    rw [arrange_of_find? hq, Option.map_eq_none_iff, ih]
    exact ⟨circular_mono (List.erase_subset), circular_erase hready⟩
  | case2 left hq he =>
    obtain rfl : left = [] := List.isEmpty_iff.1 he
    simp [arrange, not_circular_nil]
  | case3 left hq he =>
    have hstuck : ∀ q ∈ left, ¬ready left q := List.find?_eq_none.1 hq
    obtain ⟨p, hp⟩ := List.exists_mem_of_ne_nil left fun h => he (List.isEmpty_iff.2 h)
    rw [arrange_of_stuck hq, if_neg he]
    exact iff_of_true rfl (circular_of_stuck hp hstuck)

end Circular

end CatalogLinker.Postset
