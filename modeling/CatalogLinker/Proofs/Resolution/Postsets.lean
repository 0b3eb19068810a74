import CatalogLinker.Proofs.Resolution.Order

namespace CatalogLinker

open CatalogLinker.Graph Graph.Visit Graph.Network

namespace Plan

variable {p : Plan} {i : Ident} {is : List Ident} {d : Postset}

def declaredPostsets (p : Plan) (is : List Ident) : List (Ident × Postset) :=
  is.filterMap fun i => (p.item i).postset.map (i, ·)

theorem mem_declaredPostsets :
    (i, d) ∈ p.declaredPostsets is ↔ i ∈ is ∧ (p.item i).postset = some d := by
  simp only [declaredPostsets, List.mem_filterMap, Option.map_eq_some_iff, Prod.mk.injEq]
  constructor
  · rintro ⟨j, hj, e, he, rfl, rfl⟩
    exact ⟨hj, he⟩
  · rintro ⟨hi, hd⟩
    exact ⟨i, hi, d, hd, rfl, rfl⟩

theorem map_fst_declaredPostsets :
    (p.declaredPostsets is).map Prod.fst = is.filter fun i => (p.item i).postset.isSome := by
  rw [declaredPostsets]
  induction is with
  | nil => rfl
  | cons i is ih => cases hd : (p.item i).postset <;> simp [hd, ih]

theorem postset?_eq (hl : p.config.linkage ≠ .sideModule) :
    p.postset? i = (p.item i).postset.map fun d => { d with text := d.text ++ ";" } := by
  have halone : p.standsAlone i = false := by
    rw [standsAlone, decide_eq_false_iff_not, outcome]
    split_ifs <;> simp
  rw [postset?, halone]
  rfl

theorem filterMap_postset? (hl : p.config.linkage ≠ .sideModule) :
    is.filterMap p.postset? =
      (p.declaredPostsets is).map fun d => { d.2 with text := d.2.text ++ ";" } := by
  rw [declaredPostsets, List.map_filterMap]
  simp only [Option.map_map, postset?_eq hl]
  rfl

end Plan

namespace Session

/-- One session has collected the postsets of `is` more than another. -/
structure Collects (p : Plan) (s s' : Session) (is : List Ident) : Prop where
  statements_eq : s'.pass.statements = s.pass.statements ++ is.filterMap p.postset?
  mem_postsets : ∀ i ∈ s'.pass.postsets, i ∈ s.pass.postsets ∨ i ∈ is

/-- The postsets of a pass: one for each item that it has begun and that has one, and those of
dependencies before those of what depends on them, unless they depend on it in turn. -/
structure Collected (p : Plan) (s : Session) (ds : List (Ident × Postset)) : Prop where
  statements_eq : s.pass.statements = ds.map fun d => { d.2 with text := d.2.text ++ ";" }
  mem_iff : ∀ i d, (i, d) ∈ ds ↔
    .began i i.finalName ∈ s.pass.trace ∧ (p.item i).postset = some d
  once : (ds.map Prod.fst).Nodup
  sorted : ∀ a ∈ ds.map Prod.fst, ∀ b ∈ ds.map Prod.fst, p.Needs a b →
    [b, a].Sublist (ds.map Prod.fst) ∨ Relation.ReflTransGen p.Needs b a

variable {p : Plan} {s s' s'' : Session} {i : Ident} {is js : List Ident} {vs : List (Visit Ident)}
  {rs : List Request} {t u : String} {ts : List String} {ps : List Placement} {l : LinkState}

namespace Collects

theorem of_statements_eq (hstatements : s'.pass.statements = s.pass.statements)
    (hpostsets : s'.pass.postsets = s.pass.postsets) : Collects p s s' [] where
  statements_eq := by simp [hstatements]
  mem_postsets i hi := .inl (hpostsets ▸ hi)

theorem notMem_postsets (h : Collects p s s' is) (hi : i ∉ s.pass.postsets) (his : i ∉ is) :
    i ∉ s'.pass.postsets :=
  fun hmem => (h.mem_postsets i hmem).elim hi his

theorem trans (h : Collects p s s' is) (h' : Collects p s' s'' js) :
    Collects p s s'' (is ++ js) where
  statements_eq := by
    rw [h'.statements_eq, h.statements_eq, List.filterMap_append, List.append_assoc]
  mem_postsets i hi := by
    rw [List.mem_append]
    obtain hi | hi := h'.mem_postsets i hi
    · exact (h.mem_postsets i hi).imp_right .inl
    · exact .inr (.inr hi)

theorem turnBack : Collects p s (s.turnBack i) [] :=
  of_statements_eq (by rw [Pass.statements, turnBack_fragments, ← Pass.statements])
    (turnBack_postsets s i)

theorem start : Collects p s ((s.start p i).announce p i) [] :=
  of_statements_eq
    (by rw [Pass.statements, announce_fragments, start_fragments, ← Pass.statements])
    (by rw [announce_postsets, start_postsets])

theorem addPostset (hi : i ∉ s.pass.postsets) : Collects p s (s.addPostset p i) [i] where
  statements_eq := by
    have hnew : s.pass.hasPostset i = false := by simpa [Pass.hasPostset] using hi
    rw [addPostset_statements, hnew]
    cases hd : p.postset? i <;> simp [hd]
  mem_postsets j hj := by
    rw [List.mem_singleton]
    exact mem_addPostset_postsets p s i hj

theorem conclude (h : Places p s i s' t) (u : String) : Collects p s (s'.conclude p i u) [] :=
  of_statements_eq h.statements_eq h.postsets_eq

end Collects

theorem Executes.collects (h : Executes p s vs s' ts ps) (hnodup : (finishedNodesAll vs).Nodup)
    (hnew : ∀ i ∈ finishedNodesAll vs, i ∉ s.pass.postsets) :
    Collects p s s' (finishedNodesAll vs) := by
  induction h with
  | nil => exact .of_statements_eq rfl rfl
  | turnedBack _ ih =>
    rw [finishedNodesAll_cons, finishedNodes_turnedBack, List.nil_append] at hnodup hnew ⊢
    exact Collects.turnBack.trans (ih hnodup fun i hi => by
      rw [turnBack_postsets]
      exact hnew i hi)
  | @expanded s s₁ _ _ i us vs ts _ t _ _ _ hp _ ihu ihv =>
    simp only [finishedNodesAll_cons, finishedNodes_expanded, List.append_assoc,
      List.singleton_append] at hnodup hnew ⊢
    obtain ⟨hus, hivs, hdisjoint⟩ := List.nodup_append.1 hnodup
    obtain ⟨hi, hvs⟩ := List.nodup_cons.1 hivs
    have hnested : Collects p s s₁ (finishedNodesAll us) :=
      Collects.start.trans (ihu hus fun j hj =>
        Collects.start.notMem_postsets (hnew j (List.mem_append_left _ hj)) List.not_mem_nil)
    -- What follows the nested visits is neither among them nor collected before.
    have hlater : ∀ j ∈ i :: finishedNodesAll vs, j ∉ s₁.pass.postsets := fun j hj =>
      hnested.notMem_postsets (hnew j (List.mem_append_right _ hj))
        fun hu => hdisjoint j hu j hj rfl
    have hown := (Collects.addPostset (hlater i List.mem_cons_self)).trans
      (Collects.conclude hp (joinTexts (ts ++ [t])))
    refine hnested.trans (hown.trans (ihv hvs fun j hj => ?_))
    refine hown.notMem_postsets (hlater j (List.mem_cons_of_mem i hj)) fun hji => hi ?_
    exact List.mem_singleton.1 hji ▸ hj

theorem Serves.collects (h : Serves p s rs vs s' ps) (hnodup : (finishedNodesAll vs).Nodup)
    (hnew : ∀ i ∈ finishedNodesAll vs, i ∉ s.pass.postsets) :
    Collects p s s' (finishedNodesAll vs) := by
  induction h with
  | nil => exact .of_statements_eq rfl rfl
  | @cons s s₁ _ r _ v vs t _ _ hps _ ih =>
    rw [finishedNodesAll_cons] at hnodup hnew ⊢
    obtain ⟨hv, hvs, hdisjoint⟩ := List.nodup_append.1 hnodup
    have hfirst : Collects p (s.noted r) s₁ (finishedNodesAll [v]) :=
      hps.collects (by simpa using hv) fun i hi =>
        hnew i (List.mem_append_left _ (by simpa using hi))
    have hserved : Collects p s (s₁.delivered r.ident.finalName t) (finishedNodes v) := by
      have hnoted : Collects p s (s.noted r) [] := .of_statements_eq rfl rfl
      simpa using hnoted.trans
        (hfirst.trans (.of_statements_eq delivered_statements delivered_postsets))
    exact hserved.trans (ih hvs fun i hi =>
      hserved.notMem_postsets (hnew i (List.mem_append_right _ hi))
        fun hmem => hdisjoint i hmem i hi rfl)

theorem collected_of_serves {closed : Name → Bool} (hl : p.config.linkage ≠ .sideModule)
    (h : Serves p { link := l } rs ((p.network closed).visitAll [] is) s ps) :
    Collected p s (p.declaredPostsets (finishedNodesAll ((p.network closed).visitAll [] is))) := by
  have hnodup : (finishedNodesAll ((p.network closed).visitAll [] is)).Nodup :=
    (finishedNodesAll_perm _).nodup_iff.2
      (((p.network closed).nodup_expandedKeysAll [] is).1.of_map _)
  exact {
    statements_eq := by
      rw [(h.collects hnodup (by simp)).statements_eq, Plan.filterMap_postset? hl]
      rfl
    mem_iff := fun i d => by
      rw [Plan.mem_declaredPostsets, mem_finishedNodesAll, h.began_iff]
      simp
    once := by
      rw [Plan.map_fst_declaredPostsets]
      exact hnodup.filter _
    sorted := fun a ha b hb hab => by
      rw [Plan.map_fst_declaredPostsets] at ha hb ⊢
      obtain ⟨ha, hda⟩ := List.mem_filter.1 ha
      obtain ⟨hb, hdb⟩ := List.mem_filter.1 hb
      rw [← p.leads_network closed] at hab ⊢
      refine (sublist_finished_or_reaches (mem_finishedNodesAll.1 ha) (mem_finishedNodesAll.1 hb)
        hab).imp_left fun hsub => ?_
      simpa [hda, hdb] using hsub.filter fun i => (p.item i).postset.isSome }

/-- A pass collects the postset of every item that it begins and that has one, each once, and those
of dependencies before those of what depends on them. -/
theorem postsets_in_dependency_order (hl : p.config.linkage ≠ .sideModule)
    (h : Session.requestAll p { link := l } rs = (s, .ok ())) : ∃ ds, Collected p s ds := by
  obtain ⟨ps, hps⟩ := serves_of_pass h
  exact ⟨_, collected_of_serves hl hps⟩

/-- Two items with postsets that depend on each other, through one that has none, and a third that
depends on both. -/
def trailing : Plan where
  catalog := {
    items := [
      (⟨"a"⟩, { entry := some (.raw "1"), deps := [⟨"link"⟩],
                postset := some ⟨some ⟨"a__postset"⟩, none, "_a = 2"⟩ }),
      (⟨"link"⟩, { entry := some (.raw "0"), deps := [⟨"b"⟩] }),
      (⟨"b"⟩, { entry := some (.raw "3"), deps := [⟨"a"⟩],
                postset := some ⟨some ⟨"b__postset"⟩, some [⟨"a__postset"⟩], "_b = 4"⟩ }),
      (⟨"c"⟩, { entry := some (.raw "5"), deps := [⟨"b"⟩, ⟨"a"⟩],
                postset := some ⟨none, none, "_c = 6"⟩ })]
    order := [⟨"a"⟩, ⟨"link"⟩, ⟨"b"⟩, ⟨"c"⟩] }
  config := {}

theorem trailing_postsets :
    ∃ s, Session.requestAll trailing { link := {} } [⟨⟨"c"⟩, none, none⟩, ⟨⟨"a"⟩, none, none⟩] =
        (s, .ok ()) ∧
      s.pass.statements.map Postset.text = ["_a = 2;", "_b = 4;", "_c = 6;"] ∧
      trailing.config.linkage ≠ .sideModule ∧ ∃ ds, Collected trailing s ds := by
  have h : Session.requestAll trailing { link := {} }
      [⟨⟨"c"⟩, none, none⟩, ⟨⟨"a"⟩, none, none⟩] = (_, .ok ()) :=
    requestAll_eq_ok (by decide +kernel)
  have hl : trailing.config.linkage ≠ .sideModule := by decide
  exact ⟨_, h, by decide +kernel, hl, postsets_in_dependency_order hl h⟩

end Session

end CatalogLinker
