import CatalogLinker.Graph.Walk
import Mathlib.Data.List.Nodup
import Mathlib.Logic.Relation

namespace CatalogLinker.Graph

namespace Visit

variable {α : Type}

theorem visits_induction {motive : List (Visit α) → Prop} (nil : motive [])
    (turnedBack : ∀ a vs, motive vs → motive (turnedBack a :: vs))
    (expanded : ∀ a us vs, motive us → motive vs → motive (expanded a us :: vs)) :
    ∀ vs, motive vs
  | [] => nil
  | .turnedBack a :: vs => turnedBack a vs (visits_induction nil turnedBack expanded vs)
  | .expanded a us :: vs =>
    expanded a us vs (visits_induction nil turnedBack expanded us)
      (visits_induction nil turnedBack expanded vs)

theorem finishedNodesAll_perm (vs : List (Visit α)) :
    (finishedNodesAll vs).Perm (expandedNodesAll vs) := by
  induction vs using visits_induction with
  | nil => exact List.Perm.nil
  | turnedBack a vs ih => simpa using ih
  | expanded a us vs ihu ihv =>
    simp only [finishedNodesAll_cons, finishedNodes_expanded, expandedNodesAll_cons,
      expandedNodes_expanded]
    exact ((List.perm_append_singleton a _).trans (ihu.cons a)).append ihv

theorem mem_finishedNodesAll {vs : List (Visit α)} {a : α} :
    a ∈ finishedNodesAll vs ↔ a ∈ expandedNodesAll vs :=
  (finishedNodesAll_perm vs).mem_iff

inductive TurnsBackAt (a : α) : List (Visit α) → Prop
  | here (vs : List (Visit α)) : TurnsBackAt a (turnedBack a :: vs)
  | inside {b : α} {us : List (Visit α)} (vs : List (Visit α)) : TurnsBackAt a us →
      TurnsBackAt a (expanded b us :: vs)
  | later (v : Visit α) {vs : List (Visit α)} : TurnsBackAt a vs → TurnsBackAt a (v :: vs)

end Visit

theorem pair_sublist_append {α : Type} {a b : α} {l m : List α} (ha : a ∈ l) (hb : b ∈ m) :
    [a, b].Sublist (l ++ m) :=
  (List.singleton_sublist.2 ha).append (List.singleton_sublist.2 hb)

namespace Network

open Visit

variable {α β : Type} (g : Network α β)

def Leads (a b : α) : Prop :=
  b ∈ g.next a

def Reaches : α → α → Prop :=
  Relation.ReflTransGen g.Leads

theorem Reaches.of_closed {g : Network α β} {P : α → Prop} {a b : α}
    (hP : ∀ a, P a → ∀ b, g.Leads a b → P b) (h : g.Reaches a b) (ha : P a) : P b := by
  induction h with
  | refl => exact ha
  | tail _ hbc ih => exact hP _ ih _ hbc

def expandedKeysAll (vs : List (Visit α)) : List β :=
  (expandedNodesAll vs).map g.key

@[simp] theorem expandedKeysAll_nil : g.expandedKeysAll [] = [] := rfl

@[simp] theorem expandedKeysAll_turnedBack (a : α) (vs : List (Visit α)) :
    g.expandedKeysAll (turnedBack a :: vs) = g.expandedKeysAll vs := by
  simp [expandedKeysAll]

@[simp] theorem expandedKeysAll_expanded (a : α) (us vs : List (Visit α)) :
    g.expandedKeysAll (expanded a us :: vs) =
      g.key a :: (g.expandedKeysAll us ++ g.expandedKeysAll vs) := by
  simp [expandedKeysAll]

variable [DecidableEq β]

theorem visitAll_turnedBack {seen : List β} {a : α} (h : ¬(g.isOpen a ∧ g.key a ∉ seen))
    (as : List α) : g.visitAll seen (a :: as) = turnedBack a :: g.visitAll seen as := by
  rw [visitAll, visit_eq, if_neg h]
  rfl

theorem visitAll_expanded {seen : List β} {a : α} (ho : g.isOpen a) (hk : g.key a ∉ seen)
    (as : List α) :
    g.visitAll seen (a :: as) =
      expanded a (g.visitAll (g.key a :: seen) (g.next a)) ::
        g.visitAll (g.key a :: (g.expandedKeysAll (g.visitAll (g.key a :: seen) (g.next a)) ++ seen))
          as := by
  rw [visitAll, visit_eq, if_pos ⟨ho, hk⟩]
  rfl

/-- Induction along a walk from several roots. -/
theorem walk_induction {motive : List β → List α → Prop} (nil : ∀ seen, motive seen [])
    (turnedBack : ∀ seen a as, ¬(g.isOpen a ∧ g.key a ∉ seen) → motive seen as →
      motive seen (a :: as))
    (expanded : ∀ seen a as, g.isOpen a → g.key a ∉ seen →
      motive (g.key a :: seen) (g.next a) →
      motive (g.key a :: (g.expandedKeysAll (g.visitAll (g.key a :: seen) (g.next a)) ++ seen)) as →
      motive seen (a :: as)) (seen : List β) (as : List α) : motive seen as := by
  have node : ∀ n seen a, g.budget seen a = n →
      ∀ as, motive (g.expandedKeys (g.visit seen a) ++ seen) as → motive seen (a :: as) := by
    intro n
    induction n using Nat.strongRecOn with
    | ind n ih =>
      intro seen a hn as has
      by_cases h : g.isOpen a ∧ g.key a ∉ seen
      · -- The budget shrinks as long as the keys seen include the one of `a`.
        have succs : ∀ bs, bs ⊆ g.next a → ∀ seen', g.key a :: seen ⊆ seen' →
            motive seen' bs := by
          intro bs
          induction bs with
          | nil => exact fun _ seen' _ => nil seen'
          | cons b bs ihb =>
            intro hbs seen' hseen
            have hb : b ∈ g.next a := hbs List.mem_cons_self
            have hlt := g.budget_lt h.2 hb hseen
            rw [hn] at hlt
            refine ih _ hlt seen' b rfl bs (ihb (fun c hc => hbs (List.mem_cons_of_mem b hc)) _ ?_)
            exact fun c hc => List.mem_append_right _ (hseen hc)
        refine expanded seen a as h.1 h.2 (succs _ (fun _ hb => hb) _ fun _ hc => hc) ?_
        rw [visit_eq, if_pos h] at has
        exact has
      · rw [visit_eq, if_neg h] at has
        exact turnedBack seen a as h has
  induction as generalizing seen with
  | nil => exact nil seen
  | cons a as ih => exact node _ seen a rfl as (ih _)

variable {g} {seen : List β} {as : List α} {a b : α}

/-- What holds of the open roots and is passed on along edges to open nodes holds of every node
that is expanded. -/
theorem expanded_induction {P : α → Prop} (next : ∀ a b, P a → g.Leads a b → g.isOpen b → P b)
    (roots : ∀ a ∈ as, g.isOpen a → P a) :
    ∀ a ∈ expandedNodesAll (g.visitAll seen as), P a := by
  induction seen, as using g.walk_induction with
  | nil => simp [visitAll]
  | turnedBack seen a as h ih =>
    rw [g.visitAll_turnedBack h]
    simpa using ih fun b hb => roots b (List.mem_cons_of_mem a hb)
  | expanded seen a as ho hk ihn ihs =>
    have ha := roots a List.mem_cons_self ho
    rw [g.visitAll_expanded ho hk]
    intro b hb
    simp only [expandedNodesAll_cons, expandedNodes_expanded, List.cons_append, List.mem_cons,
      List.mem_append] at hb
    obtain rfl | hb | hb := hb
    · exact ha
    · exact ihn (fun c hc => next a c ha hc) b hb
    · exact ihs (fun c hc => roots c (List.mem_cons_of_mem a hc)) b hb

theorem isOpen_of_mem_expanded (h : a ∈ expandedNodesAll (g.visitAll seen as)) : g.isOpen a :=
  expanded_induction (P := fun b => g.isOpen b) (fun _ _ _ _ ho => ho) (fun _ _ ho => ho) a h

theorem reaches_of_mem_expanded (h : a ∈ expandedNodesAll (g.visitAll seen as)) :
    ∃ r ∈ as, g.Reaches r a := by
  refine expanded_induction (P := fun b => ∃ r ∈ as, g.Reaches r b) ?_ ?_ a h
  · rintro b c ⟨r, hr, hb⟩ hc -
    exact ⟨r, hr, hb.tail hc⟩
  · exact fun b hb _ => ⟨b, hb, Relation.ReflTransGen.refl⟩

theorem reaches_of_mem_expanded_next (h : b ∈ expandedNodesAll (g.visitAll seen (g.next a))) :
    g.Reaches a b := by
  obtain ⟨c, hc, hb⟩ := reaches_of_mem_expanded h
  exact Relation.ReflTransGen.head hc hb

variable (g seen as)

theorem nodup_expandedKeysAll :
    (g.expandedKeysAll (g.visitAll seen as)).Nodup ∧
      ∀ k ∈ g.expandedKeysAll (g.visitAll seen as), k ∉ seen := by
  induction seen, as using g.walk_induction with
  | nil => simp [visitAll]
  | turnedBack seen a as h ih =>
    rw [g.visitAll_turnedBack h, expandedKeysAll_turnedBack]
    exact ih
  | expanded seen a as ho hk ihn ihs =>
    obtain ⟨hn, hns⟩ := ihn
    obtain ⟨hs, hss⟩ := ihs
    simp only [List.mem_cons, List.mem_append, not_or] at hns hss
    rw [g.visitAll_expanded ho hk, expandedKeysAll_expanded]
    constructor
    · rw [List.nodup_cons, List.nodup_append, List.mem_append, not_or]
      exact ⟨⟨fun h => (hns _ h).1 rfl, fun h => (hss _ h).1 rfl⟩, hn, hs,
        fun k hk l hl hkl => (hss l hl).2.1 (hkl ▸ hk)⟩
    · intro k hk'
      simp only [List.mem_cons, List.mem_append] at hk'
      obtain rfl | hk' | hk' := hk'
      · exact hk
      · exact (hns k hk').2
      · exact (hss k hk').2.2

variable {g seen as}

theorem key_mem_of_mem_roots (ha : a ∈ as) (ho : g.isOpen a) :
    g.key a ∈ seen ∨ g.key a ∈ g.expandedKeysAll (g.visitAll seen as) := by
  induction seen, as using g.walk_induction with
  | nil => simp at ha
  | turnedBack seen c as h ih =>
    rw [g.visitAll_turnedBack h, expandedKeysAll_turnedBack]
    obtain rfl | ha := List.mem_cons.1 ha
    · exact .inl (by simpa [ho] using h)
    · exact ih ha
  | expanded seen c as hoc hk ihn ihs =>
    rw [g.visitAll_expanded hoc hk, expandedKeysAll_expanded]
    obtain rfl | ha := List.mem_cons.1 ha
    · exact .inr List.mem_cons_self
    · have hkey := ihs ha
      simp only [List.mem_cons, List.mem_append] at hkey ⊢
      obtain (h | h | h) | h := hkey
      · exact .inr (.inl h)
      · exact .inr (.inr (.inl h))
      · exact .inl h
      · exact .inr (.inr (.inr h))

theorem key_mem_of_leads (ha : a ∈ expandedNodesAll (g.visitAll seen as)) (hb : g.Leads a b)
    (ho : g.isOpen b) :
    g.key b ∈ seen ∨ g.key b ∈ g.expandedKeysAll (g.visitAll seen as) := by
  induction seen, as using g.walk_induction with
  | nil => simp [visitAll] at ha
  | turnedBack seen c as h ih =>
    rw [g.visitAll_turnedBack h] at ha ⊢
    rw [expandedKeysAll_turnedBack]
    exact ih (by simpa using ha)
  | expanded seen c as hoc hk ihn ihs =>
    rw [g.visitAll_expanded hoc hk] at ha ⊢
    simp only [expandedNodesAll_cons, expandedNodes_expanded, List.cons_append, List.mem_cons,
      List.mem_append, expandedKeysAll_expanded] at ha ⊢
    obtain rfl | ha | ha := ha
    · have hkey : g.key b ∈ g.key a :: seen ∨ _ := key_mem_of_mem_roots hb ho
      rw [List.mem_cons] at hkey
      obtain (h | h) | h := hkey
      · exact .inr (.inl h)
      · exact .inl h
      · exact .inr (.inr (.inl h))
    · have hkey := ihn ha
      rw [List.mem_cons] at hkey
      obtain (h | h) | h := hkey
      · exact .inr (.inl h)
      · exact .inl h
      · exact .inr (.inr (.inl h))
    · have hkey := ihs ha
      rw [List.mem_cons, List.mem_append] at hkey
      obtain (h | h | h) | h := hkey
      · exact .inr (.inl h)
      · exact .inr (.inr (.inl h))
      · exact .inl h
      · exact .inr (.inr (.inr h))

theorem turnsBackAt_root (ha : a ∈ as) (ho : ¬g.isOpen a) : TurnsBackAt a (g.visitAll seen as) := by
  induction as generalizing seen with
  | nil => simp at ha
  | cons b as ih =>
    rw [visitAll]
    obtain rfl | ha := List.mem_cons.1 ha
    · rw [visit_eq, if_neg fun h => ho h.1]
      exact .here _
    · exact .later _ (ih ha)

theorem turnsBackAt_of_leads (ha : a ∈ expandedNodesAll (g.visitAll seen as)) (hb : g.Leads a b)
    (ho : ¬g.isOpen b) : TurnsBackAt b (g.visitAll seen as) := by
  induction seen, as using g.walk_induction with
  | nil => simp [visitAll] at ha
  | turnedBack seen c as h ih =>
    rw [g.visitAll_turnedBack h] at ha ⊢
    exact .later _ (ih (by simpa using ha))
  | expanded seen c as hoc hk ihn ihs =>
    rw [g.visitAll_expanded hoc hk] at ha ⊢
    simp only [expandedNodesAll_cons, expandedNodes_expanded, List.cons_append, List.mem_cons,
      List.mem_append] at ha
    obtain rfl | ha | ha := ha
    · exact .inside _ (turnsBackAt_root hb ho)
    · exact .inside _ (ihn ha)
    · exact .later _ (ihs ha)

theorem finished_of_leads (ha : a ∈ expandedNodesAll (g.visitAll seen as)) (hb : g.Leads a b)
    (ho : g.isOpen b) :
    g.key b ∈ seen ∨ ∃ c ∈ expandedNodesAll (g.visitAll seen as), g.key c = g.key b ∧
      ([c, a].Sublist (finishedNodesAll (g.visitAll seen as)) ∨ g.Reaches c a) := by
  induction seen, as using g.walk_induction with
  | nil => simp [visitAll] at ha
  | turnedBack seen d as h ih =>
    rw [g.visitAll_turnedBack h] at ha ⊢
    simpa using ih (by simpa using ha)
  | expanded seen d as hod hk ihn ihs =>
    rw [g.visitAll_expanded hod hk] at ha ⊢
    simp only [expandedNodesAll_cons, expandedNodes_expanded, finishedNodesAll_cons,
      finishedNodes_expanded, List.cons_append, List.mem_cons, List.mem_append] at ha ⊢
    obtain rfl | ha | ha := ha
    · have : g.key b ∈ g.key a :: seen ∨ _ := key_mem_of_mem_roots hb ho
      rw [List.mem_cons, expandedKeysAll, List.mem_map] at this
      obtain (hkey | hs) | ⟨c, hc, hkey⟩ := this
      · exact .inr ⟨a, .inl rfl, hkey.symm, .inr Relation.ReflTransGen.refl⟩
      · exact .inl hs
      · refine .inr ⟨c, .inr (.inl hc), hkey, .inl ?_⟩
        exact (pair_sublist_append (mem_finishedNodesAll.2 hc) (List.mem_singleton.2 rfl)).trans
          (List.sublist_append_left _ _)
    · have := ihn ha
      rw [List.mem_cons] at this
      obtain (hkey | hs) | ⟨c, hc, hkey, hord⟩ := this
      · exact .inr ⟨d, .inl rfl, hkey.symm, .inr (reaches_of_mem_expanded_next ha)⟩
      · exact .inl hs
      · refine .inr ⟨c, .inr (.inl hc), hkey, hord.imp_left fun h => ?_⟩
        exact (h.trans (List.sublist_append_left _ _)).trans (List.sublist_append_left _ _)
    · have := ihs ha
      rw [List.mem_cons, List.mem_append, expandedKeysAll, List.mem_map] at this
      obtain (hkey | ⟨c, hc, hkey⟩ | hs) | ⟨c, hc, hkey, hord⟩ := this
      · refine .inr ⟨d, .inl rfl, hkey.symm, .inl ?_⟩
        exact pair_sublist_append (by simp) (mem_finishedNodesAll.2 ha)
      · refine .inr ⟨c, .inr (.inl hc), hkey, .inl ?_⟩
        exact pair_sublist_append (List.mem_append_left _ (mem_finishedNodesAll.2 hc))
          (mem_finishedNodesAll.2 ha)
      · exact .inl hs
      · refine .inr ⟨c, .inr (.inr hc), hkey, hord.imp_left fun h => ?_⟩
        exact h.trans (List.sublist_append_right _ _)

/-- If a node leads to another and both are expanded, the other finishes first or reaches it. -/
theorem sublist_finished_or_reaches (ha : a ∈ expandedNodesAll (g.visitAll seen as))
    (hb : b ∈ expandedNodesAll (g.visitAll seen as)) (hab : g.Leads a b) :
    [b, a].Sublist (finishedNodesAll (g.visitAll seen as)) ∨ g.Reaches b a := by
  obtain ⟨hnodup, hfresh⟩ := g.nodup_expandedKeysAll seen as
  obtain hseen | ⟨c, hc, hkey, hord⟩ := finished_of_leads ha hab (isOpen_of_mem_expanded hb)
  · exact absurd hseen (hfresh _ (List.mem_map_of_mem hb))
  · have hcb : c = b := List.inj_on_of_nodup_map hnodup hc hb hkey
    exact hcb ▸ hord

theorem visitAll_congr {h : Network α β} (hkey : g.key = h.key) (hnext : g.next = h.next)
    {seen seen' : List β}
    (hopen : ∀ a, g.isOpen a ∧ g.key a ∉ seen ↔ h.isOpen a ∧ h.key a ∉ seen') (as : List α) :
    g.visitAll seen as = h.visitAll seen' as := by
  have hkeys : ∀ vs, g.expandedKeysAll vs = h.expandedKeysAll vs := fun vs => by
    rw [expandedKeysAll, expandedKeysAll, hkey]
  induction seen, as using g.walk_induction generalizing seen' with
  | nil => rfl
  | turnedBack seen a as ha ih =>
    rw [g.visitAll_turnedBack ha, h.visitAll_turnedBack (mt (hopen a).2 ha), ih hopen]
  | expanded seen a as ho hk ihn ihs =>
    obtain ⟨ho', hk'⟩ := (hopen a).1 ⟨ho, hk⟩
    have hmore : ∀ ks b, g.isOpen b ∧ g.key b ∉ ks ++ seen ↔ h.isOpen b ∧ g.key b ∉ ks ++ seen' := by
      intro ks b
      rw [List.mem_append, List.mem_append, not_or, not_or, and_left_comm, hopen b, ← hkey,
        and_left_comm]
    have hn : g.visitAll (g.key a :: seen) (g.next a) = h.visitAll (h.key a :: seen') (h.next a) := by
      rw [← hnext]
      refine ihn fun b => ?_
      rw [← hkey]
      exact hmore [g.key a] b
    rw [g.visitAll_expanded ho hk, h.visitAll_expanded ho' hk', hn]
    rw [hn, hkeys] at ihs
    rw [hkeys, ihs fun b => ?_]
    rw [← hkey]
    exact hmore (g.key a :: h.expandedKeysAll _) b

end Network

end CatalogLinker.Graph
