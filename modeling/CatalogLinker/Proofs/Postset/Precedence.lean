import CatalogLinker.Postset.Order
import CatalogLinker.Proofs.Graph.DepthFirst
import Mathlib.Data.List.Flatten
import Mathlib.Data.List.Nodup

namespace CatalogLinker.Postset

open Relation (TransGen ReflTransGen)

abbrev Placed := Postset × Nat

def precedes (p q : Placed) : Bool :=
  p.2 != q.2 && q.1.needs p.1

def Before (left : List Placed) (p q : Placed) : Prop :=
  p ∈ left ∧ q ∈ left ∧ precedes p q

def Circular (left : List Placed) : Prop :=
  ∃ p, TransGen (Before left) p p

def Ascending (left : List Placed) : Prop :=
  left.Pairwise fun p q => p.2 < q.2

variable {os : List Postset} {left left' : List Placed} {p q : Placed} {d e e' : Postset} {i j : Nat}

theorem needs_iff : d.needs e ↔ ∃ deps y, d.deps = some deps ∧ e.ident = some y ∧ y ∈ deps := by
  rw [needs]
  split
  · rename_i deps y hdeps hy
    simp [hdeps, hy]
  · rename_i hneither
    simp only [Bool.false_eq_true, false_iff]
    rintro ⟨deps, y, hdeps, hy, -⟩
    exact hneither deps y hdeps hy

theorem needs_congr (h : e.ident = e'.ident) : d.needs e ↔ d.needs e' := by
  rw [needs_iff, needs_iff, h]

theorem precedes_iff : precedes p q ↔ p.2 ≠ q.2 ∧ q.1.needs p.1 := by
  simp [precedes]

theorem ne_of_precedes (h : precedes p q) : p ≠ q :=
  fun heq => (precedes_iff.1 h).1 (congrArg Prod.snd heq)

theorem ascending_zipIdx (os : List Postset) : Ascending os.zipIdx := by
  rw [Ascending, ← List.pairwise_map (f := Prod.snd) (R := (· < ·)), List.zipIdx_map_snd]
  exact List.pairwise_lt_range'

theorem Ascending.nodup (h : Ascending left) : left.Nodup := by
  refine h.imp fun hlt heq => ?_
  simp [heq] at hlt

theorem eq_of_pairwise_lt {α : Type} {f : α → Nat} {l l' : List α}
    (h : l.Pairwise fun a b => f a < f b) (h' : l'.Pairwise fun a b => f a < f b)
    (hmem : ∀ a, a ∈ l ↔ a ∈ l') : l = l' := by
  have hnodup : ∀ {l : List α}, (l.Pairwise fun a b => f a < f b) → l.Nodup := fun h =>
    h.imp fun hlt heq => Nat.ne_of_lt hlt (congrArg f heq)
  have hperm := (List.perm_ext_iff_of_nodup (hnodup h) (hnodup h')).2 hmem
  exact hperm.eq_of_pairwise (fun a b _ _ hab hba => absurd hab (Nat.lt_asymm hba)) h h'

theorem getElem?_of_mem_zipIdx (h : p ∈ os.zipIdx) : os[p.2]? = some p.1 :=
  List.mk_mem_zipIdx_iff_getElem?.1 h

theorem lt_length_of_mem_zipIdx (h : p ∈ os.zipIdx) : p.2 < os.length :=
  List.snd_lt_of_mem_zipIdx h

theorem eq_of_mem_zipIdx (hp : p ∈ os.zipIdx) (hq : q ∈ os.zipIdx) (h : p.2 = q.2) : p = q := by
  have hpq := (getElem?_of_mem_zipIdx hp).symm.trans (h ▸ getElem?_of_mem_zipIdx hq)
  exact Prod.ext (Option.some.inj hpq) h

section Graph

theorem mem_edges_iff :
    (i, j) ∈ (graph os).edges ↔
      ∃ p ∈ os.zipIdx, ∃ q ∈ os.zipIdx, p.2 = i ∧ q.2 = j ∧ precedes p q := by
  simp only [graph, List.mem_flatMap, List.mem_filterMap, precedes_iff]
  constructor
  · rintro ⟨q, hq, p, hp, h⟩
    simp only [Option.ite_none_right_eq_some, Option.some.injEq, Prod.mk.injEq] at h
    obtain ⟨hpq, rfl, rfl⟩ := h
    exact ⟨p, hp, q, hq, rfl, rfl, hpq⟩
  · rintro ⟨p, hp, q, hq, rfl, rfl, hpq⟩
    exact ⟨q, hq, p, hp, if_pos hpq⟩

theorem mem_edges_placed (hp : p ∈ os.zipIdx) (hq : q ∈ os.zipIdx) :
    (p.2, q.2) ∈ (graph os).edges ↔ precedes p q := by
  rw [mem_edges_iff]
  constructor
  · rintro ⟨p', hp', q', hq', hpp, hqq, h⟩
    rwa [← eq_of_mem_zipIdx hp' hp hpp, ← eq_of_mem_zipIdx hq' hq hqq]
  · exact fun h => ⟨p, hp, q, hq, rfl, rfl, h⟩

theorem pairwise_edges (os : List Postset) :
    (graph os).edges.Pairwise fun e f => e.2 < f.2 ∨ e.2 = f.2 ∧ e.1 < f.1 := by
  have hsnd : ∀ q : Placed, ∀ e ∈ os.zipIdx.filterMap fun p : Placed =>
      if p.2 ≠ q.2 ∧ q.1.needs p.1 then some (p.2, q.2) else none, e.2 = q.2 := by
    intro q e he
    obtain ⟨p, -, hpe⟩ := List.mem_filterMap.1 he
    simp only [Option.ite_none_right_eq_some, Option.some.injEq] at hpe
    exact hpe.2 ▸ rfl
  refine List.pairwise_flatMap.2 ⟨fun q _ => ?_, (ascending_zipIdx os).imp fun {q r} hqr => ?_⟩
  · refine List.pairwise_filterMap.2 ((ascending_zipIdx os).imp fun {p r} hpr e he f hf => ?_)
    simp only [Option.ite_none_right_eq_some, Option.some.injEq] at he hf
    rw [← he.2, ← hf.2]
    exact .inr ⟨rfl, hpr⟩
  · intro e he f hf
    rw [hsnd q e he, hsnd r f hf]
    exact .inl hqr

theorem outgoing_ascending (os : List Postset) (i : Nat) :
    ((graph os).outgoing i).Pairwise (· < ·) := by
  rw [Graph.Directed.outgoing, List.pairwise_map]
  refine ((pairwise_edges os).filter _).imp_of_mem fun {e f} he hf hef => ?_
  have hi : e.1 = f.1 := by
    simp only [List.mem_filter, beq_iff_eq] at he hf
    exact he.2.trans hf.2.symm
  exact hef.resolve_right fun h => absurd hi (Nat.ne_of_lt h.2)

theorem incoming_ascending (os : List Postset) (j : Nat) :
    ((graph os).incoming j).Pairwise (· < ·) := by
  rw [Graph.Directed.incoming, List.pairwise_map]
  refine ((pairwise_edges os).filter _).imp_of_mem fun {e f} he hf hef => ?_
  have hj : e.2 = f.2 := by
    simp only [List.mem_filter, beq_iff_eq] at he hf
    exact he.2.trans hf.2.symm
  exact (hef.resolve_left fun h => absurd hj (Nat.ne_of_lt h)).2

theorem leads_iff : (graph os).network.Leads i j ↔ (i, j) ∈ (graph os).edges :=
  (graph os).mem_outgoing

theorem exists_of_reaches (hp : p ∈ os.zipIdx) (h : (graph os).network.Reaches p.2 j) :
    ∃ q ∈ os.zipIdx, q.2 = j ∧ ReflTransGen (Before os.zipIdx) p q := by
  refine h.of_closed (P := fun j => ∃ q ∈ os.zipIdx, q.2 = j ∧ ReflTransGen (Before os.zipIdx) p q)
    ?_ ⟨p, hp, rfl, .refl⟩
  rintro _ ⟨q, hq, rfl, hpq⟩ k hqk
  obtain ⟨q', hq', r, hr, hqq, rfl, hqr⟩ := mem_edges_iff.1 (leads_iff.1 hqk)
  obtain rfl := eq_of_mem_zipIdx hq' hq hqq
  exact ⟨r, hr, rfl, hpq.tail ⟨hq', hr, hqr⟩⟩

theorem reaches_iff (hp : p ∈ os.zipIdx) (hq : q ∈ os.zipIdx) :
    (graph os).network.Reaches p.2 q.2 ↔ ReflTransGen (Before os.zipIdx) p q := by
  constructor
  · intro h
    obtain ⟨q', hq', hqq, hpq⟩ := exists_of_reaches hp h
    rwa [← eq_of_mem_zipIdx hq' hq hqq]
  · refine ReflTransGen.lift (p := (graph os).network.Leads) Prod.snd (fun a b hab => ?_) p q
    exact leads_iff.2 ((mem_edges_placed hab.1 hab.2.1).2 hab.2.2)

end Graph

end CatalogLinker.Postset
