import CatalogLinker.Proofs.Graph.Components
import CatalogLinker.Proofs.Postset.Precedence
import Mathlib.Data.List.Perm.Subperm

namespace CatalogLinker.Postset

open Relation (TransGen ReflTransGen)

def Together (left : List Placed) (p q : Placed) : Prop :=
  ReflTransGen (Before left) p q ∧ ReflTransGen (Before left) q p

/-- All postsets that have to precede each other, as they were found. -/
structure IsComponent (left c : List Placed) : Prop where
  ascending : Ascending c
  mem_iff : ∃ p ∈ left, ∀ q, q ∈ c ↔ Together left p q

def members (os : List Postset) (c : List Nat) : List Placed :=
  (c.mergeSort fun i j => i ≤ j).filterMap fun i => os[i]?.map (·, i)

variable {os : List Postset} {left c d : List Placed} {k l : List Nat} {p q r : Placed}

theorem Together.refl (left : List Placed) (p : Placed) : Together left p p :=
  ⟨.refl, .refl⟩

theorem Together.symm (h : Together left p q) : Together left q p :=
  ⟨h.2, h.1⟩

theorem Together.trans (h : Together left p q) (h' : Together left q r) : Together left p r :=
  ⟨h.1.trans h'.1, h'.2.trans h.2⟩

theorem Together.mem (h : Together os.zipIdx p q) (hp : p ∈ os.zipIdx) : q ∈ os.zipIdx := by
  obtain rfl | ⟨r, -, hrq⟩ := ReflTransGen.cases_tail h.1
  · exact hp
  · exact hrq.2.1

theorem strong_iff (hp : p ∈ os.zipIdx) (hq : q ∈ os.zipIdx) :
    (graph os).Strong p.2 q.2 ↔ Together os.zipIdx p q :=
  and_congr (reaches_iff hp hq) (reaches_iff hq hp)

section Members

theorem mem_members_iff : q ∈ members os k ↔ q ∈ os.zipIdx ∧ q.2 ∈ k := by
  simp only [members, List.mem_filterMap, List.mem_mergeSort, Option.map_eq_some_iff]
  constructor
  · rintro ⟨i, hi, o, ho, rfl⟩
    exact ⟨List.mk_mem_zipIdx_iff_getElem?.2 ho, hi⟩
  · rintro ⟨hq, hk⟩
    exact ⟨q.2, hk, q.1, getElem?_of_mem_zipIdx hq, rfl⟩

theorem ascending_members (hk : k.Nodup) : Ascending (members os k) := by
  have hsorted : (k.mergeSort fun i j => i ≤ j).Pairwise (· < ·) := by
    have hle : (k.mergeSort fun i j => i ≤ j).Pairwise fun i j => decide (i ≤ j) :=
      List.pairwise_mergeSort (fun a b c hab hbc => by simp at *; omega)
        (fun a b => by simp; omega) k
    have hnodup := (List.mergeSort_perm k fun i j => i ≤ j).nodup_iff.2 hk
    refine (hle.and hnodup).imp fun {i j} h => ?_
    exact Nat.lt_of_le_of_ne (of_decide_eq_true h.1) h.2
  refine List.pairwise_filterMap.2 (hsorted.imp fun {i j} hij p hp q hq => ?_)
  obtain ⟨o, -, rfl⟩ := Option.map_eq_some_iff.1 hp
  obtain ⟨o', -, rfl⟩ := Option.map_eq_some_iff.1 hq
  exact hij

theorem length_members (h : ∀ i ∈ k, i < os.length) : (members os k).length = k.length := by
  have hall : ∀ i ∈ k.mergeSort fun i j => i ≤ j, (os[i]?.map (·, i)).isSome := by
    intro i hi
    simpa using h i (List.mem_mergeSort.1 hi)
  rw [members, List.filterMap_length_eq_length.2 hall, List.length_mergeSort]

theorem map_ident_members (h : ∀ o ∈ os, o.isOrderable) :
    ((k.mergeSort fun i j => i ≤ j).filterMap fun i => os[i]?.bind ident).map some =
      (members os k).map fun p => p.1.ident := by
  rw [members, List.map_filterMap, List.map_filterMap]
  refine List.filterMap_congr fun i _ => ?_
  cases ho : os[i]? with
  | none => rfl
  | some o =>
    obtain ⟨x, hx⟩ := Option.isSome_iff_exists.1
      (Bool.and_eq_true_iff.1 (h o (List.mem_of_getElem? ho))).1
    simp [hx]

end Members

section Components

variable (os) in
def cyclicComponents : List (List Placed) :=
  ((graph os).components.filter (1 < ·.length)).map (members os)

theorem lt_length_of_mem_components (hk : k ∈ (graph os).components) :
    ∀ i ∈ k, i < os.length := by
  refine fun i hi => (graph os).lt_size_of_mem_components (fun e he => ?_) hk hi
  obtain ⟨-, -, q, hq, -, hqe, -⟩ := mem_edges_iff.1 he
  exact hqe ▸ lt_length_of_mem_zipIdx hq

theorem mem_members_of_components (hk : k ∈ (graph os).components) (hp : p ∈ members os k) :
    q ∈ members os k ↔ Together os.zipIdx p q := by
  obtain ⟨v, hv⟩ := (graph os).strong_of_mem_components hk
  obtain ⟨hp, hpk⟩ := mem_members_iff.1 hp
  have hvp := (hv p.2).1 hpk
  have hpq : q.2 ∈ k ↔ (graph os).Strong p.2 q.2 := by
    rw [hv]
    exact ⟨hvp.symm.trans, hvp.trans⟩
  rw [mem_members_iff, hpq]
  constructor
  · exact fun h => (strong_iff hp h.1).1 h.2
  · exact fun h => ⟨h.mem hp, (strong_iff hp (h.mem hp)).2 h⟩

theorem isComponent_iff :
    IsComponent os.zipIdx c ↔ ∃ k ∈ (graph os).components, c = members os k := by
  constructor
  · rintro ⟨hc, p, hp, hmem⟩
    obtain ⟨k, hk, hpk⟩ := (graph os).exists_mem_components (lt_length_of_mem_zipIdx hp)
    have hascending : Ascending (members os k) :=
      ascending_members ((graph os).nodup_of_mem_components hk)
    refine ⟨k, hk, eq_of_pairwise_lt hc hascending fun q => ?_⟩
    rw [hmem, mem_members_of_components hk (mem_members_iff.2 ⟨hp, hpk⟩)]
  · rintro ⟨k, hk, rfl⟩
    obtain ⟨v, hv⟩ := (graph os).strong_of_mem_components hk
    have hvk : v ∈ k := (hv v).2 (.refl _ v)
    have hvlt : v < os.length := lt_length_of_mem_components hk v hvk
    have hp : (os[v], v) ∈ os.zipIdx :=
      List.mk_mem_zipIdx_iff_getElem?.2 (List.getElem?_eq_getElem hvlt)
    exact ⟨ascending_members ((graph os).nodup_of_mem_components hk), _, hp,
      fun q => mem_members_of_components hk (mem_members_iff.2 ⟨hp, hvk⟩)⟩

theorem mem_cyclicComponents_iff :
    c ∈ cyclicComponents os ↔ IsComponent os.zipIdx c ∧ 2 ≤ c.length := by
  have hlength : ∀ k ∈ (graph os).components, (members os k).length = k.length := fun k hk =>
    length_members (lt_length_of_mem_components hk)
  simp only [cyclicComponents, isComponent_iff, List.mem_map, List.mem_filter, decide_eq_true_eq]
  constructor
  · rintro ⟨k, ⟨hk, hlt⟩, rfl⟩
    exact ⟨⟨k, hk, rfl⟩, by rwa [hlength k hk]⟩
  · rintro ⟨⟨k, hk, rfl⟩, hlt⟩
    exact ⟨k, ⟨hk, by rwa [hlength k hk] at hlt⟩, rfl⟩

theorem pairwise_cyclicComponents :
    (cyclicComponents os).Pairwise fun c d =>
      ∀ p ∈ c, ∀ q ∈ d, ¬ReflTransGen (Before os.zipIdx) p q := by
  have hlater := (graph os).pairwise_components.filter
  refine List.pairwise_map.2 ((hlater _).imp fun {k l} h p hp q hq => ?_)
  obtain ⟨hp, hpk⟩ := mem_members_iff.1 hp
  obtain ⟨hq, hql⟩ := mem_members_iff.1 hq
  rw [← reaches_iff hp hq]
  exact h p.2 hpk q.2 hql

theorem nodup_cyclicComponents : (cyclicComponents os).Nodup := by
  refine pairwise_cyclicComponents.imp_of_mem fun {c d} hc _ hcd heq => ?_
  have hlength := (mem_cyclicComponents_iff.1 hc).2
  obtain ⟨p, hp⟩ := List.exists_mem_of_length_pos (Nat.lt_of_lt_of_le Nat.zero_lt_two hlength)
  exact hcd p hp p (heq ▸ hp) .refl

theorem map_some_cycles (h : ∀ o ∈ os, o.isOrderable) :
    (cycles os).map (List.map some) =
      (cyclicComponents os).map (List.map fun p => p.1.ident) := by
  rw [cycles, cyclicComponents, List.map_map, List.map_map]
  exact List.map_congr_left fun k _ => map_ident_members h

/-- A circle lies within a component of several members, and such a component has one. -/
theorem circular_iff : Circular os.zipIdx ↔ ∃ c, IsComponent os.zipIdx c ∧ 2 ≤ c.length := by
  constructor
  · rintro ⟨p, hp⟩
    obtain ⟨q, hpq, hqp⟩ := TransGen.head'_iff.1 hp
    obtain ⟨k, hk, hpk⟩ := (graph os).exists_mem_components (lt_length_of_mem_zipIdx hpq.1)
    have hmem : [p, q] ⊆ members os k := by
      intro r hr
      rw [mem_members_of_components hk (mem_members_iff.2 ⟨hpq.1, hpk⟩)]
      obtain rfl | rfl : r = p ∨ r = q := by simpa using hr
      · exact Together.refl _ r
      · exact ⟨.single hpq, hqp⟩
    have hne : [p, q].Nodup := by simpa using ne_of_precedes hpq.2.2
    exact ⟨members os k, isComponent_iff.2 ⟨k, hk, rfl⟩, (List.subperm_of_subset hne hmem).length_le⟩
  · rintro ⟨c, ⟨hc, o, ho, hmem⟩, hlength⟩
    match c, hlength with
    | p :: q :: rest, _ =>
      have hp := (hmem p).1 List.mem_cons_self
      have hq := (hmem q).1 (by simp)
      have hne : p ≠ q := fun heq => (List.nodup_cons.1 hc.nodup).1 (heq ▸ List.mem_cons_self)
      have hpq := hp.symm.trans hq
      have hpath := (Relation.reflTransGen_iff_eq_or_transGen.1 hpq.1).resolve_left hne.symm
      exact ⟨p, hpath.trans_left hpq.2⟩

theorem cycles_eq_nil_iff : cycles os = [] ↔ ¬Circular os.zipIdx := by
  have hnil : cycles os = [] ↔ cyclicComponents os = [] := by
    simp [cycles, cyclicComponents]
  simp only [hnil, circular_iff, ← mem_cyclicComponents_iff, ← List.eq_nil_iff_forall_not_mem,
    not_exists]

end Components

theorem checkCycles_eq_error_iff {cs : List (List Ident)} :
    checkCycles os = .error cs ↔ cs = cycles os ∧ cs ≠ [] := by
  rw [checkCycles]
  cases h : cycles os with
  | nil => simp
  | cons c cs' => simpa [eq_comm] using fun heq => heq ▸ List.cons_ne_nil c cs'

theorem order_eq_error_iff {ps : List Postset} {cs : List (List Ident)} :
    order ps = .error cs ↔ cs = cycles (ps.filter isOrderable) ∧ cs ≠ [] := by
  rw [← checkCycles_eq_error_iff, order]
  cases checkCycles (ps.filter isOrderable) with
  | error cs' => simp [bind, Except.bind]
  | ok u => simp [bind, Except.bind, pure, Except.pure]

theorem order_error_iff {ps : List Postset} :
    (∃ cycles, order ps = .error cycles) ↔ Circular (ps.filter isOrderable).zipIdx := by
  simp [order_eq_error_iff, cycles_eq_nil_iff]

/-- Ordering fails exactly if orderable postsets have to precede each other in a circle. It then
reports the strongly connected components of several postsets, each once and with the identifiers of
its members as they were found; none has to precede a component that is reported after it. -/
theorem order_reports_components (ps : List Postset) :
    ((∃ cs, order ps = .error cs) ↔ Circular (ps.filter isOrderable).zipIdx) ∧
    ∀ cs, order ps = .error cs → cs ≠ [] ∧ ∃ comps : List (List Placed),
      (∀ c, c ∈ comps ↔ IsComponent (ps.filter isOrderable).zipIdx c ∧ 2 ≤ c.length) ∧
      comps.Nodup ∧
      (comps.Pairwise fun c d =>
        ∀ p ∈ c, ∀ q ∈ d, ¬ReflTransGen (Before (ps.filter isOrderable).zipIdx) p q) ∧
      cs.map (List.map some) = comps.map (List.map fun p => p.1.ident) := by
  refine ⟨order_error_iff, fun cs h => ?_⟩
  obtain ⟨rfl, hne⟩ := order_eq_error_iff.1 h
  have hord : ∀ o ∈ ps.filter isOrderable, o.isOrderable := fun o ho => (List.mem_filter.1 ho).2
  exact ⟨hne, _, fun c => mem_cyclicComponents_iff, nodup_cyclicComponents,
    pairwise_cyclicComponents, map_some_cycles hord⟩

theorem mergeSort_swapped (i : Nat) : [i + 1, i].mergeSort (fun i j => i ≤ j) = [i, i + 1] := by
  simp [List.mergeSort]

def twoCircles : List Postset := [
  ⟨some ⟨"P"⟩, some [⟨"Q"⟩], "P();"⟩,
  ⟨some ⟨"Q"⟩, some [⟨"P"⟩], "Q();"⟩,
  ⟨some ⟨"A"⟩, some [⟨"P"⟩], "A();"⟩,
  ⟨some ⟨"R"⟩, some [⟨"S"⟩, ⟨"A"⟩], "R();"⟩,
  ⟨some ⟨"S"⟩, some [⟨"R"⟩], "S();"⟩]

theorem twoCircles_reported :
    order twoCircles = .error [[⟨"R"⟩, ⟨"S"⟩], [⟨"P"⟩, ⟨"Q"⟩]] ∧
      ∃ comps : List (List Placed),
        (∀ c, c ∈ comps ↔ IsComponent (twoCircles.filter isOrderable).zipIdx c ∧ 2 ≤ c.length) ∧
        comps.map (List.map fun p => p.1.ident) =
          [[some ⟨"R"⟩, some ⟨"S"⟩], [some ⟨"P"⟩, some ⟨"Q"⟩]] := by
  have hcomponents : (graph (twoCircles.filter isOrderable)).components.filter (1 < ·.length) =
      [[4, 3], [1, 0]] := by decide +kernel
  have h : order twoCircles = .error [[⟨"R"⟩, ⟨"S"⟩], [⟨"P"⟩, ⟨"Q"⟩]] := by
    refine order_eq_error_iff.2 ⟨?_, List.cons_ne_nil _ _⟩
    rw [cycles, hcomponents, List.map_cons, List.map_cons, mergeSort_swapped 3,
      mergeSort_swapped 0]
    rfl
  obtain ⟨-, comps, hmem, -, -, hidents⟩ := (order_reports_components twoCircles).2 _ h
  exact ⟨h, comps, hmem, hidents.symm⟩

end CatalogLinker.Postset
