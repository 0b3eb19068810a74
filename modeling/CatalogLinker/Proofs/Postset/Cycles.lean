import CatalogLinker.Proofs.Postset.Components

namespace CatalogLinker.Postset

open Relation (TransGen ReflTransGen)

def Follows (declared : Postset → Prop) (x y : Ident) : Prop :=
  ∃ d, declared d ∧ d.ident = some x ∧ ∃ deps, d.deps = some deps ∧ y ∈ deps

/-- Apart from identifiers that depend on themselves, no identifier depends on itself by way of
others. -/
def Acyclic (declared : Postset → Prop) : Prop :=
  ∀ x, ¬TransGen (fun x y => x ≠ y ∧ Follows declared x y) x x

/-- Whether a postset has the identifier `x` and depends on it. -/
def restsOn (x : Ident) (d : Postset) : Bool :=
  d.ident == some x && d.needs d

variable {declared declared' : Postset → Prop} {ps : List Postset} {left : List Placed}
  {p q : Placed} {d : Postset} {x y : Ident}

theorem restsOn_iff : d.restsOn x ↔ d.ident = some x ∧ d.needs d := by
  simp [restsOn]

theorem isOrderable_of_restsOn (h : d.restsOn x) : d.isOrderable := by
  obtain ⟨hx, hneeds⟩ := restsOn_iff.1 h
  obtain ⟨deps, -, hdeps, -⟩ := needs_iff.1 hneeds
  simp [isOrderable, hx, hdeps]

theorem Acyclic.mono (h : Acyclic declared)
    (hfollows : ∀ x y, Follows declared' x y → Follows declared x y) : Acyclic declared' := by
  intro x hx
  exact h x (TransGen.mono (fun y z hyz => ⟨hyz.1, hfollows y z hyz.2⟩) _ _ hx)

theorem exists_follows (hdecl : ∀ r ∈ left, declared r.1) (hord : ∀ r ∈ left, r.1.isOrderable)
    (h : Before left p q) :
    ∃ x y, p.1.ident = some y ∧ q.1.ident = some x ∧ Follows declared x y := by
  obtain ⟨-, hq, hpq⟩ := h
  obtain ⟨deps, y, hdeps, hy, hmem⟩ := needs_iff.1 (precedes_iff.1 hpq).2
  obtain ⟨x, hx⟩ := Option.isSome_iff_exists.1 (Bool.and_eq_true_iff.1 (hord q hq)).1
  exact ⟨x, y, hy, hx, q.1, hdecl q hq, hx, deps, hdeps, hmem⟩

theorem leads_of_reaches (hdecl : ∀ r ∈ left, declared r.1) (hord : ∀ r ∈ left, r.1.isOrderable)
    (h : ReflTransGen (Before left) p q) (hp : p.1.ident = some y) (hq : q.1.ident = some x) :
    ReflTransGen (fun x y => x ≠ y ∧ Follows declared x y) x y := by
  induction h generalizing x with
  | refl =>
    obtain rfl : y = x := Option.some.inj (hp.symm.trans hq)
    exact .refl
  | @tail b c _ hbc ih =>
    obtain ⟨x', z, hz, hx', hf⟩ := exists_follows hdecl hord hbc
    obtain rfl : x = x' := Option.some.inj (hq.symm.trans hx')
    by_cases hxz : x = z
    · exact hxz ▸ ih hz
    · exact .head ⟨hxz, hf⟩ (ih hz)

/-- On a circle all postsets have one identifier, on which they depend. -/
theorem restsOn_of_before (hdecl : ∀ r ∈ left, declared r.1) (hord : ∀ r ∈ left, r.1.isOrderable)
    (hacyclic : Acyclic declared) (h : Before left p q) (hback : ReflTransGen (Before left) q p) :
    ∃ x, p.1.ident = some x ∧ q.1.restsOn x := by
  obtain ⟨x, y, hy, hx, hf⟩ := exists_follows hdecl hord h
  have hyx : ReflTransGen _ y x := leads_of_reaches hdecl hord hback hx hy
  obtain rfl : x = y := by
    by_contra hne
    exact hacyclic x (.head' ⟨hne, hf⟩ hyx)
  have hneeds : q.1.needs p.1 := (precedes_iff.1 h.2.2).2
  exact ⟨x, hy, restsOn_iff.2 ⟨hx, (needs_congr (hx.trans hy.symm)).2 hneeds⟩⟩

theorem before_of_restsOn (hp : p ∈ left) (hq : q ∈ left) (hpq : p.2 ≠ q.2)
    (hpx : p.1.restsOn x) (hqx : q.1.restsOn x) : Before left p q := by
  obtain ⟨hx, hneeds⟩ := restsOn_iff.1 hqx
  have hident : q.1.ident = p.1.ident := hx.trans (restsOn_iff.1 hpx).1.symm
  exact ⟨hp, hq, precedes_iff.2 ⟨hpq, (needs_congr hident).1 hneeds⟩⟩

theorem one_lt_countP_iff {α : Type} {f : α → Bool} {l : List α} :
    1 < l.countP f ↔ ∃ a ∈ l.zipIdx, ∃ b ∈ l.zipIdx, a.2 ≠ b.2 ∧ f a.1 ∧ f b.1 := by
  have hcount : l.countP f = (l.zipIdx.filter fun a => f a.1).length := by
    rw [← List.countP_eq_length_filter]
    conv_lhs => rw [← List.zipIdx_map_fst 0 l, List.countP_map]
    rfl
  have hnodup : (l.zipIdx.map Prod.snd).Nodup := by
    rw [List.zipIdx_map_snd]
    exact List.nodup_range'
  rw [hcount]
  constructor
  · intro h
    have hsub : ((l.zipIdx.filter fun a => f a.1).map Prod.snd).Nodup :=
      hnodup.sublist (List.filter_sublist.map Prod.snd)
    match hl : l.zipIdx.filter fun a => f a.1 with
    | [] => simp [hl] at h
    | [a] => simp [hl] at h
    | a :: b :: rest =>
      rw [hl, List.map_cons, List.map_cons, List.nodup_cons] at hsub
      have ha : a ∈ l.zipIdx.filter fun a => f a.1 := by rw [hl]; exact List.mem_cons_self
      have hb : b ∈ l.zipIdx.filter fun a => f a.1 := by rw [hl]; simp
      rw [List.mem_filter] at ha hb
      exact ⟨a, ha.1, b, hb.1, fun hab => hsub.1 (hab ▸ List.mem_cons_self), ha.2, hb.2⟩
  · rintro ⟨a, ha, b, hb, hab, hfa, hfb⟩
    have hpair : [a, b].Nodup := by simpa using fun h => hab (congrArg Prod.snd h)
    have hsub : [a, b] ⊆ l.zipIdx.filter fun a => f a.1 := by
      intro c hc
      obtain rfl | rfl : c = a ∨ c = b := by simpa using hc
      · exact List.mem_filter.2 ⟨ha, hfa⟩
      · exact List.mem_filter.2 ⟨hb, hfb⟩
    exact (List.subperm_of_subset hpair hsub).length_le

/-- If identifiers do not depend on each other in a circle, postsets cannot be ordered exactly if
two of them share an identifier and depend on it. -/
theorem order_error_iff_shared (hacyclic : Acyclic declared) (hdecl : ∀ d ∈ ps, declared d) :
    (∃ cycles, order ps = .error cycles) ↔ ∃ x, 1 < ps.countP (restsOn x) := by
  have hmem : ∀ r ∈ (ps.filter isOrderable).zipIdx, r.1 ∈ ps ∧ r.1.isOrderable := fun r hr =>
    List.mem_filter.1 (List.fst_mem_of_mem_zipIdx hr)
  have hcount : ∀ x, ps.countP (restsOn x) = (ps.filter isOrderable).countP (restsOn x) := by
    intro x
    rw [List.countP_filter]
    refine List.countP_congr fun d _ => ?_
    simpa using isOrderable_of_restsOn
  rw [order_error_iff]
  constructor
  · rintro ⟨p, hp⟩
    have hdecl' : ∀ r ∈ (ps.filter isOrderable).zipIdx, declared r.1 := fun r hr =>
      hdecl r.1 (hmem r hr).1
    have hord : ∀ r ∈ (ps.filter isOrderable).zipIdx, r.1.isOrderable := fun r hr => (hmem r hr).2
    -- The postset rests on its identifier as well as the next one on the circle.
    obtain ⟨q, hpq, hqp⟩ := TransGen.head'_iff.1 hp
    obtain ⟨o, hpo, hop⟩ := TransGen.tail'_iff.1 hp
    obtain ⟨x, hx, hq⟩ := restsOn_of_before hdecl' hord hacyclic hpq hqp
    obtain ⟨y, -, hpy⟩ := restsOn_of_before hdecl' hord hacyclic hop hpo
    obtain rfl : x = y := Option.some.inj (hx.symm.trans (restsOn_iff.1 hpy).1)
    have hne : p.2 ≠ q.2 := (precedes_iff.1 hpq.2.2).1
    refine ⟨x, ?_⟩
    rw [hcount, one_lt_countP_iff]
    exact ⟨p, hpq.1, q, hpq.2.1, hne, hpy, hq⟩
  · rintro ⟨x, hx⟩
    rw [hcount, one_lt_countP_iff] at hx
    obtain ⟨p, hp, q, hq, hpq, hpx, hqx⟩ := hx
    exact ⟨p, .tail (.single (before_of_restsOn hp hq hpq hpx hqx))
      (before_of_restsOn hq hp hpq.symm hqx hpx)⟩

end CatalogLinker.Postset
