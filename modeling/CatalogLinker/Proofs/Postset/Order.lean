import CatalogLinker.Proofs.Postset.Arrangement
import CatalogLinker.Proofs.Postset.Components

namespace CatalogLinker.Postset

open Waiting

/-- Positions, each with the number of those that it has to wait for; those that wait for none are
ready, each once. -/
structure Waiting.Awaits (w : Waiting) (positions : Nat → Prop) (count : Nat → Nat) : Prop where
  indegree : ∀ j, positions j → w.indegree[j]? = some (count j)
  nodup : w.ready.items.Nodup
  mem_ready : ∀ i, i ∈ w.ready.items ↔ positions i ∧ count i = 0

def waits (os : List Postset) (left : List Placed) (j : Nat) : Nat :=
  left.countP fun p => (p.2, j) ∈ (graph os).edges

/-- Postsets that are left, and all that have to follow them. -/
structure Remaining (os : List Postset) (left : List Placed) : Prop where
  ascending : Ascending left
  subset : left ⊆ os.zipIdx
  closed : ∀ p ∈ left, ∀ q ∈ os.zipIdx, precedes p q → q ∈ left

variable {os : List Postset} {left qs : List Placed} {w : Waiting} {positions positions' : Nat → Prop}
  {count count' : Nat → Nat} {p q : Placed} {i j d : Nat} {js : List Nat} {r : MinHeap}

namespace Waiting

theorem emit_of_pop {g : Graph.Directed} (h : w.ready.pop? = some (i, r)) :
    w.emit g = i :: ((g.outgoing i).foldl release { w with ready := r }).emit g := by
  rw [emit]
  split
  · rename_i hnone
    exact absurd (h.symm.trans hnone) (Option.some_ne_none _)
  · rename_i k r' hsome
    obtain ⟨rfl, rfl⟩ := Prod.mk.inj (Option.some.inj (h.symm.trans hsome))
    rfl

theorem emit_of_pop_none {g : Graph.Directed} (h : w.ready.pop? = none) : w.emit g = [] := by
  rw [emit]
  split
  · rfl
  · rename_i k r' hsome
    exact absurd (hsome.symm.trans h) (Option.some_ne_none _)

namespace Awaits

theorem congr (h : w.Awaits positions count) (hp : ∀ i, positions i ↔ positions' i)
    (hc : ∀ i, positions i → count i = count' i) : w.Awaits positions' count' where
  indegree j hj := by
    rw [h.indegree j ((hp j).2 hj), hc j ((hp j).2 hj)]
  nodup := h.nodup
  mem_ready i := by
    rw [h.mem_ready, ← hp i]
    exact and_congr_right fun hi => by rw [hc i hi]

theorem release (h : w.Awaits positions count) (hj : positions j) (hd : count j = d + 1) :
    (w.release j).Awaits positions (Function.update count j d) := by
  have hdegree : w.indegree[j]? = some (d + 1) := hd ▸ h.indegree j hj
  have hlt : j < w.indegree.length := (List.getElem?_eq_some_iff.1 hdegree).1
  have hwait : j ∉ w.ready.items := fun hmem => by
    have := ((h.mem_ready j).1 hmem).2
    omega
  have hother : ∀ {i}, i ≠ j → Function.update count j d i = count i := fun hij =>
    Function.update_of_ne hij d count
  rw [Waiting.release, hdegree]
  refine ⟨fun i hi => ?_, ?_, fun i => ?_⟩
  · by_cases hij : i = j
    · rw [hij, Function.update_self, List.getElem?_set_self hlt]
    · rw [hother hij, List.getElem?_set_ne (Ne.symm hij), h.indegree i hi]
  · dsimp only
    split
    · exact List.nodup_cons.2 ⟨hwait, h.nodup⟩
    · exact h.nodup
  · dsimp only
    by_cases hij : i = j
    · subst hij
      rw [Function.update_self]
      split <;> simp_all [MinHeap.push]
    · rw [hother hij]
      split <;> simp [MinHeap.push, hij, h.mem_ready]

theorem foldl_release (h : w.Awaits positions count) (hn : js.Nodup)
    (hjs : ∀ j ∈ js, positions j ∧ count j ≠ 0) :
    (js.foldl Waiting.release w).Awaits positions
      fun i => if i ∈ js then count i - 1 else count i := by
  induction js generalizing w count with
  | nil => simpa using h
  | cons j js ih =>
    obtain ⟨hj, hn⟩ := List.nodup_cons.1 hn
    obtain ⟨⟨hpos, hcount⟩, hjs⟩ := List.forall_mem_cons.1 hjs
    obtain ⟨d, hd⟩ := Nat.exists_eq_succ_of_ne_zero hcount
    have hne : ∀ i ∈ js, i ≠ j := fun i hi hij => hj (hij ▸ hi)
    have hrest := ih (h.release hpos hd) hn fun i hi => by
      rw [Function.update_of_ne (hne i hi)]
      exact hjs i hi
    refine hrest.congr (fun i => Iff.rfl) fun i _ => ?_
    by_cases hij : i = j
    · subst hij
      simp [hj, hd]
    · simp [hij]

theorem pop?_eq_none_iff (h : w.Awaits positions count) :
    w.ready.pop? = none ↔ ∀ i, positions i → count i ≠ 0 := by
  rw [MinHeap.pop?, Option.map_eq_none_iff, List.min?_eq_none_iff, List.eq_nil_iff_forall_not_mem]
  simp only [h.mem_ready, not_and]

theorem pop (h : w.Awaits positions count) (hpop : w.ready.pop? = some (i, r)) :
    (positions i ∧ count i = 0) ∧ (∀ k, positions k → count k = 0 → i ≤ k) ∧
      ({ w with ready := r } : Waiting).Awaits (fun k => positions k ∧ k ≠ i) count := by
  obtain ⟨k, hk, heq⟩ := Option.map_eq_some_iff.1 hpop
  obtain ⟨rfl, rfl⟩ := Prod.mk.inj heq
  obtain ⟨hmem, hmin⟩ := List.min?_eq_some_iff.1 hk
  refine ⟨(h.mem_ready k).1 hmem, fun i hi hc => hmin i ((h.mem_ready i).2 ⟨hi, hc⟩),
    fun j hj => h.indegree j hj.1, h.nodup.erase k, fun i => ?_⟩
  rw [h.nodup.mem_erase_iff, h.mem_ready]
  tauto

end Awaits

end Waiting

section Emission

theorem Remaining.zipIdx (os : List Postset) : Remaining os os.zipIdx where
  ascending := ascending_zipIdx os
  subset := List.Subset.refl _
  closed _ _ _ hq _ := hq

theorem Remaining.erase (h : Remaining os left) (hready : ready left q) :
    Remaining os (left.erase q) where
  ascending := List.Pairwise.erase q h.ascending
  subset := fun p hp => h.subset (List.mem_of_mem_erase hp)
  closed p hp r hr hpr := by
    have hp : p ∈ left := List.mem_of_mem_erase hp
    have hrq : r ≠ q := fun heq => ready_iff.1 hready p hp (heq ▸ hpr)
    exact (List.mem_erase_of_ne hrq).2 (h.closed p hp r hr hpr)

theorem Remaining.ready_iff_waits (h : Remaining os left) (hq : q ∈ left) :
    ready left q ↔ waits os left q.2 = 0 := by
  rw [ready_iff, waits, List.countP_eq_zero]
  refine forall₂_congr fun p hp => not_congr ?_
  rw [decide_eq_true_iff, mem_edges_placed (h.subset hp) (h.subset hq)]

theorem waits_erase (hq : q ∈ left) :
    waits os left j = waits os (left.erase q) j + if j ∈ (graph os).outgoing q.2 then 1 else 0 := by
  rw [waits, (List.perm_cons_erase hq).countP_eq, List.countP_cons, waits]
  simp only [Graph.Directed.mem_outgoing, decide_eq_true_eq]

theorem mem_positions_erase (h : Remaining os left) (hq : q ∈ left) :
    i ∈ (left.erase q).map Prod.snd ↔ i ∈ left.map Prod.snd ∧ i ≠ q.2 := by
  simp only [List.mem_map, h.ascending.nodup.mem_erase_iff]
  constructor
  · rintro ⟨p, ⟨hne, hp⟩, rfl⟩
    exact ⟨⟨p, hp, rfl⟩, fun heq => hne (eq_of_mem_zipIdx (h.subset hp) (h.subset hq) heq)⟩
  · rintro ⟨⟨p, hp, rfl⟩, hne⟩
    exact ⟨p, ⟨fun heq => hne (heq ▸ rfl), hp⟩, rfl⟩

/-- The least position that is ready is that of the first postset that is. -/
theorem pop_of_find? (h : Remaining os left) (hw : w.Awaits (· ∈ left.map Prod.snd) (waits os left))
    (hq : left.find? (ready left) = some q) :
    ∃ r, w.ready.pop? = some (q.2, r) ∧
      ((((graph os).outgoing q.2).foldl release { w with ready := r }).Awaits
        (· ∈ (left.erase q).map Prod.snd) (waits os (left.erase q))) := by
  have hmem : q ∈ left := List.mem_of_find?_eq_some hq
  have hready : ready left q := List.find?_some hq
  have hposition : q.2 ∈ left.map Prod.snd := List.mem_map_of_mem hmem
  obtain ⟨⟨i, r⟩, hpop⟩ : ∃ e, w.ready.pop? = some e := by
    refine Option.ne_none_iff_exists'.1 fun hnone => ?_
    exact hw.pop?_eq_none_iff.1 hnone q.2 hposition ((h.ready_iff_waits hmem).1 hready)
  obtain ⟨⟨hi, hcount⟩, hleast, hrest⟩ := hw.pop hpop
  obtain ⟨p, hp, rfl⟩ := List.mem_map.1 hi
  obtain rfl : p = q := by
    by_contra hne
    have hlt := lt_of_find?_ready h.ascending hq hp ((h.ready_iff_waits hp).2 hcount) hne
    have hle := hleast q.2 hposition ((h.ready_iff_waits hmem).1 hready)
    omega
  -- What has to follow the postset is left, and waits for it.
  have hfollow : ∀ j ∈ (graph os).outgoing p.2,
      (j ∈ left.map Prod.snd ∧ j ≠ p.2) ∧ waits os left j ≠ 0 := by
    intro j hj
    obtain ⟨p', hp', r, hr, hpp, rfl, hpr⟩ := mem_edges_iff.1 ((Graph.Directed.mem_outgoing _).1 hj)
    obtain rfl := eq_of_mem_zipIdx hp' (h.subset hp) hpp
    refine ⟨⟨List.mem_map_of_mem (h.closed p' hp r hr hpr), ?_⟩, ?_⟩
    · exact Ne.symm (precedes_iff.1 hpr).1
    · rw [waits_erase hp, if_pos hj]
      exact Nat.succ_ne_zero _
  have hnext := hrest.foldl_release ((outgoing_ascending os p.2).imp Nat.ne_of_lt) hfollow
  refine ⟨r, hpop, hnext.congr (fun i => (mem_positions_erase h hp).symm) fun i _ => ?_⟩
  rw [waits_erase hp]
  split <;> simp

/-- The positions that are emitted are those of the arrangement. -/
theorem emit_eq (h : Remaining os left) (hw : w.Awaits (· ∈ left.map Prod.snd) (waits os left))
    (hqs : arrange left = some qs) : w.emit (graph os) = qs.map Prod.snd := by
  -- Both recursions take the same postset away; the counters follow those that are left.
  induction left using arrange.induct generalizing w qs with
  | case1 left q hq ih =>
    rw [arrange_of_find? hq, Option.map_eq_some_iff] at hqs
    obtain ⟨qs, hqs, rfl⟩ := hqs
    obtain ⟨r, hpop, hnext⟩ := pop_of_find? h hw hq
    rw [emit_of_pop hpop, ih (h.erase (List.find?_some hq)) hnext hqs, List.map_cons]
  | case2 left hq he =>
    obtain rfl : left = [] := List.isEmpty_iff.1 he
    obtain rfl : qs = [] := by simpa [arrange, eq_comm] using hqs
    exact emit_of_pop_none (hw.pop?_eq_none_iff.2 (by simp))
  | case3 left hq he =>
    rw [arrange_of_stuck hq, if_neg he] at hqs
    exact absurd hqs (Option.some_ne_none qs).symm

theorem length_incoming (os : List Postset) (j : Nat) :
    ((graph os).incoming j).length = waits os os.zipIdx j := by
  have hpositions : (os.zipIdx.map Prod.snd).Pairwise (· < ·) :=
    List.pairwise_map.2 (ascending_zipIdx os)
  have heq : (graph os).incoming j =
      (os.zipIdx.map Prod.snd).filter fun i => (i, j) ∈ (graph os).edges := by
    refine eq_of_pairwise_lt (f := id) (incoming_ascending os j) (hpositions.filter _) fun i => ?_
    simp only [Graph.Directed.mem_incoming, List.mem_filter, decide_eq_true_eq]
    refine ⟨fun h => ⟨?_, h⟩, And.right⟩
    obtain ⟨p, hp, -, -, rfl, -⟩ := mem_edges_iff.1 h
    exact List.mem_map_of_mem hp
  rw [heq, ← List.countP_eq_length_filter, List.countP_map]
  rfl

theorem awaits_start (os : List Postset) :
    (Waiting.start (graph os)).Awaits (· ∈ os.zipIdx.map Prod.snd) (waits os os.zipIdx) := by
  have hposition : ∀ i, i ∈ os.zipIdx.map Prod.snd ↔ i < os.length := by
    simp [List.zipIdx_map_snd, List.mem_range'_1]
  have hdegree : ∀ i, i < os.length →
      (Waiting.start (graph os)).indegree[i]? = some (waits os os.zipIdx i) := by
    intro i hi
    have hrange : (List.range os.length)[i]? = some i := List.getElem?_range hi
    rw [Waiting.start, List.getElem?_map, graph, hrange]
    exact congrArg some (length_incoming os i)
  refine ⟨fun i hi => hdegree i ((hposition i).1 hi), List.nodup_range.filter _, fun i => ?_⟩
  rw [hposition]
  have hready : i ∈ (Waiting.start (graph os)).ready.items ↔
      i < os.length ∧ (Waiting.start (graph os)).indegree[i]? = some 0 := by
    simp [Waiting.start, graph]
  rw [hready]
  exact and_congr_right fun hi => by rw [hdegree i hi, Option.some_inj]

theorem takeFrom_eq {slots : List (Option Postset)} (hslots : ∀ p ∈ qs, slots[p.2]? = some (some p.1))
    (hn : (qs.map Prod.snd).Nodup) : takeFrom slots (qs.map Prod.snd) = qs.map Prod.fst := by
  induction qs generalizing slots with
  | nil => rfl
  | cons p qs ih =>
    obtain ⟨hp, hqs⟩ := List.forall_mem_cons.1 hslots
    obtain ⟨hpos, hn⟩ := List.nodup_cons.1 hn
    rw [List.map_cons, takeFrom, hp]
    refine congrArg (p.1 :: ·) (ih (fun q hq => ?_) hn)
    have hne : p.2 ≠ q.2 := fun heq => hpos (heq ▸ List.mem_map_of_mem hq)
    rw [List.getElem?_set_ne hne, hqs q hq]

end Emission

section Order

/-- What cannot be ordered stands in front, and nothing that can be depends on what comes later. -/
def InOrder (ps : List Postset) : Prop :=
  ps.Pairwise fun p q => p.isOrderable → q.isOrderable ∧ ¬p.needs q

instance (ps : List Postset) : Decidable (InOrder ps) :=
  inferInstanceAs (Decidable (ps.Pairwise _))

variable {ps : List Postset}

theorem order_eq_ok_iff {qs : List Postset} :
    order ps = .ok qs ↔ ∃ rs, arrange (ps.filter isOrderable).zipIdx = some rs ∧
      qs = ps.filter (!·.isOrderable) ++ rs.map Prod.fst := by
  cases hrs : arrange (ps.filter isOrderable).zipIdx with
  | none =>
    obtain ⟨cs, hcs⟩ := order_error_iff.2 (arrange_eq_none_iff.1 hrs)
    simp [hcs]
  | some rs =>
    have hperm := (arrangesFirst_of_arrange (ascending_zipIdx _) hrs).perm
    have hemit := emit_eq (Remaining.zipIdx _) (awaits_start _) hrs
    have hpositions : (rs.map Prod.snd).Nodup := by
      rw [(hperm.map Prod.snd).nodup_iff, List.zipIdx_map_snd]
      exact List.nodup_range'
    have hslots : ∀ p ∈ rs, ((ps.filter isOrderable).map some)[p.2]? = some (some p.1) := by
      intro p hp
      rw [List.getElem?_map, getElem?_of_mem_zipIdx (hperm.subset hp), Option.map_some]
    have htake := takeFrom_eq hslots hpositions
    have hnone : cycles (ps.filter isOrderable) = [] := by
      rw [cycles_eq_nil_iff, ← arrange_eq_none_iff, hrs]
      exact Option.some_ne_none rs
    have horder : order ps = .ok (ps.filter (!·.isOrderable) ++ rs.map Prod.fst) := by
      rw [← htake, ← hemit, order, checkCycles, hnone]
      rfl
    simp [horder, eq_comm]

theorem order_perm {qs : List Postset} (h : order ps = .ok qs) : qs.Perm ps := by
  obtain ⟨rs, hrs, rfl⟩ := order_eq_ok_iff.1 h
  have hperm := ((arrangesFirst_of_arrange (ascending_zipIdx _) hrs).perm).map Prod.fst
  rw [List.zipIdx_map_fst] at hperm
  exact (List.Perm.append_left _ hperm).trans (List.perm_append_comm.trans
    (List.filter_append_perm _ ps))

theorem InOrder.filter_append (h : InOrder ps) :
    ps.filter (!·.isOrderable) ++ ps.filter isOrderable = ps := by
  induction ps with
  | nil => rfl
  | cons p ps ih =>
    obtain ⟨hp, hps⟩ := List.pairwise_cons.1 h
    by_cases hord : p.isOrderable
    · have hall : ∀ q ∈ ps, q.isOrderable := fun q hq => (hp q hq hord).1
      have hnone : ps.filter (!·.isOrderable) = [] := by
        simpa [List.filter_eq_nil_iff] using hall
      rw [List.filter_cons_of_neg (by simpa using hord), List.filter_cons_of_pos hord, hnone,
        List.filter_eq_self.2 hall]
      rfl
    · rw [List.filter_cons_of_pos (by simpa using hord), List.filter_cons_of_neg hord,
        List.cons_append, ih hps]

theorem order_of_inOrder (h : InOrder ps) : order ps = .ok ps := by
  have hneeds : (ps.filter isOrderable).Pairwise fun p q => ¬p.needs q := by
    refine (List.pairwise_filter.2 (h.imp ?_))
    exact fun {p q} hpq hp _ => (hpq hp).2
  have hself : arrange (ps.filter isOrderable).zipIdx = some (ps.filter isOrderable).zipIdx := by
    refine arrange_self ?_
    rw [← List.zipIdx_map_fst 0 (ps.filter isOrderable), List.pairwise_map] at hneeds
    exact hneeds.imp fun hpq hqp => hpq (precedes_iff.1 hqp).2
  rw [order_eq_ok_iff]
  exact ⟨_, hself, by rw [List.zipIdx_map_fst, h.filter_append]⟩

theorem inOrder_of_order {qs : List Postset} (h : order ps = .ok qs) : InOrder qs := by
  obtain ⟨rs, hrs, rfl⟩ := order_eq_ok_iff.1 h
  have ha := ascending_zipIdx (ps.filter isOrderable)
  have harr := (arrangesFirst_of_arrange ha hrs).toArranges
  have hord : ∀ r ∈ rs, r.1.isOrderable := fun r hr =>
    (List.mem_filter.1 (List.fst_mem_of_mem_zipIdx (harr.perm.subset hr))).2
  refine List.pairwise_append.2 ⟨?_, ?_, ?_⟩
  · refine List.pairwise_iff_forall_sublist.2 fun {p q} hpq hp => ?_
    have := (List.mem_filter.1 (hpq.subset List.mem_cons_self)).2
    simp [hp] at this
  · have hne : rs.Pairwise fun p q => p.2 ≠ q.2 :=
      (harr.perm.pairwise_iff fun h => h.symm).2 (ha.imp fun hlt => hlt.ne)
    rw [List.pairwise_map]
    refine ((harr.pairwise ha.nodup).and hne).imp_of_mem fun {p q} _ hq hpq _ => ⟨hord q hq, ?_⟩
    exact fun hneeds => hpq.1 (precedes_iff.2 ⟨hpq.2.symm, hneeds⟩)
  · intro p hp q hq hporderable
    simp [hporderable] at hp

/-- Ordering succeeds if the orderable postsets can be arranged, and then puts the first of their
arrangements behind the other postsets. What is in order stays as it is, and so does what has been
ordered. -/
theorem order_arranges (ps : List Postset) :
    ((∃ qs, order ps = .ok qs) ↔ ∃ rs, Arranges (ps.filter isOrderable).zipIdx rs) ∧
    (∀ qs, order ps = .ok qs ↔ ∃ rs, ArrangesFirst (ps.filter isOrderable).zipIdx rs ∧
      qs = ps.filter (!·.isOrderable) ++ rs.map Prod.fst) ∧
    (∀ qs, order ps = .ok qs → qs.Perm ps ∧ order qs = .ok qs) ∧
    (InOrder ps → order ps = .ok ps) := by
  have ha := ascending_zipIdx (ps.filter isOrderable)
  have hok : ∀ qs, order ps = .ok qs ↔ ∃ rs, ArrangesFirst (ps.filter isOrderable).zipIdx rs ∧
      qs = ps.filter (!·.isOrderable) ++ rs.map Prod.fst := by
    intro qs
    simp only [order_eq_ok_iff, arrange_eq_some_iff ha]
  refine ⟨⟨?_, ?_⟩, hok, fun qs h => ⟨order_perm h, order_of_inOrder (inOrder_of_order h)⟩,
    order_of_inOrder⟩
  · rintro ⟨qs, h⟩
    obtain ⟨rs, hrs, -⟩ := (hok qs).1 h
    exact ⟨rs, hrs.toArranges⟩
  · rintro ⟨rs, hrs⟩
    obtain ⟨qs, hqs⟩ := exists_arrange ha.nodup hrs
    exact ⟨_, order_eq_ok_iff.2 ⟨qs, hqs, rfl⟩⟩

def namesakes : List Postset := [
  ⟨some ⟨"Z"⟩, some [⟨"X"⟩, ⟨"X"⟩, ⟨"Missing"⟩], "Z();"⟩,
  ⟨none, some [⟨"X"⟩], "u();"⟩,
  ⟨some ⟨"X"⟩, some [], "x1();"⟩,
  ⟨some ⟨"X"⟩, some [⟨"X"⟩], "x2();"⟩]

def namesakesOrdered : List Postset := [
  ⟨none, some [⟨"X"⟩], "u();"⟩,
  ⟨some ⟨"X"⟩, some [], "x1();"⟩,
  ⟨some ⟨"X"⟩, some [⟨"X"⟩], "x2();"⟩,
  ⟨some ⟨"Z"⟩, some [⟨"X"⟩, ⟨"X"⟩, ⟨"Missing"⟩], "Z();"⟩]

theorem namesakes_arranged :
    order namesakes = .ok namesakesOrdered ∧ order namesakesOrdered = .ok namesakesOrdered ∧
      ∃ rs, ArrangesFirst (namesakes.filter isOrderable).zipIdx rs ∧
        namesakesOrdered = namesakes.filter (!·.isOrderable) ++ rs.map Prod.fst := by
  have h : order namesakes = .ok namesakesOrdered := by decide +kernel
  have hinOrder : InOrder namesakesOrdered := by decide
  obtain ⟨-, hfirst, -, -⟩ := order_arranges namesakes
  obtain ⟨-, -, -, hkept⟩ := order_arranges namesakesOrdered
  exact ⟨h, hkept hinOrder, (hfirst namesakesOrdered).1 h⟩

end Order

end CatalogLinker.Postset
