import CatalogLinker.Proofs.Graph.DepthFirst
import CatalogLinker.Resolution.Session
import Mathlib.Data.Set.Function

namespace CatalogLinker

namespace Plan

variable (p : Plan)

def Pursues (i : Ident) : Prop :=
  ¬(i.finalName ∈ p.config.deadNames ∧ ¬(p.item i).inCompiledSection) ∧
    p.config.linkage ≠ .sideModule

/-- An alias is assigned from its target if the target has an entry. A numbered catch helper is not
emitted from the entry of its item. -/
def AssignsFrom (i t : Ident) : Prop :=
  ¬isNumberedCatch i ∧ (p.item i).entry = some (.aliasOf t) ∧ (p.item t).entry.isSome

inductive Needs (i : Ident) : Ident → Prop
  | declared {d : Ident} : p.Pursues i → d ∈ (p.item i).deps → Needs i d
  | general : p.Pursues i → isNumberedCatch i → p.catalog.isDefined generalCatch →
      Needs i generalCatch
  | target {t : Ident} : p.Pursues i → p.AssignsFrom i t → Needs i t
  | ofTarget {t d : Ident} : p.Pursues i → p.AssignsFrom i t → d ∈ (p.item t).deps → Needs i d

variable {p} {i d t : Ident}

theorem outcome_of_pursues (h : p.Pursues i) :
    p.outcome i =
      if !p.isDefined i then
        if p.config.linkage = .mainModule then .forwardedToModule else .missingStub
      else if isNumberedCatch i then .forwardedToCatch
      else if (p.item i).entry.isSome then .catalogEntry
      else .expandedInline := by
  obtain ⟨hdead, hside⟩ := h
  have hdead' : ¬(p.isListedDead i && !(p.item i).inCompiledSection) := by
    simpa [isListedDead] using hdead
  rw [outcome, if_neg hdead', if_neg hside]

theorem outcome_of_not_pursues (h : ¬p.Pursues i) :
    p.outcome i = .deadStub ∨ p.outcome i = .forwardedToParent := by
  unfold outcome isListedDead
  split
  · exact .inl rfl
  · rename_i hdead
    have hside : p.config.linkage = .sideModule := by
      by_contra hside
      exact h ⟨by simpa using hdead, hside⟩
    exact .inr (if_pos hside)

theorem pursues_iff_outcome :
    p.Pursues i ↔ p.outcome i ≠ .deadStub ∧ p.outcome i ≠ .forwardedToParent := by
  by_cases h : p.Pursues i
  · simp only [h, true_iff]
    rw [outcome_of_pursues h]
    split_ifs <;> simp
  · have := outcome_of_not_pursues h
    tauto

theorem mem_declaredDeps_iff :
    d ∈ p.declaredDeps i ↔ p.Pursues i ∧
      (d ∈ (p.item i).deps ∨ isNumberedCatch i ∧ p.catalog.isDefined generalCatch ∧
        d = generalCatch) := by
  rw [pursues_iff_outcome]
  unfold declaredDeps
  split
  · simp_all
  · simp_all
  · rename_i hdead hparent
    rw [and_iff_right ⟨hdead, hparent⟩]
    grind

theorem outcome_eq_catalogEntry_iff :
    p.outcome i = .catalogEntry ↔ p.Pursues i ∧ ¬isNumberedCatch i ∧ (p.item i).entry.isSome := by
  by_cases h : p.Pursues i
  · rw [outcome_of_pursues h]
    grind [isDefined, Item.isDefined]
  · have := outcome_of_not_pursues h
    grind

theorem entry?_eq_aliasOf_iff :
    p.entry? i = some (.aliasOf t) ↔
      p.outcome i = .catalogEntry ∧ (p.item i).entry = some (.aliasOf t) := by
  unfold entry?
  split <;> simp_all

theorem linkedTarget?_eq_some_iff :
    p.linkedTarget? i = some t ↔ p.Pursues i ∧ p.AssignsFrom i t := by
  have h : p.linkedTarget? i = some t ↔
      p.entry? i = some (.aliasOf t) ∧ (p.item t).entry.isSome := by
    unfold linkedTarget?
    split <;> simp_all
    grind
  rw [h, entry?_eq_aliasOf_iff, outcome_eq_catalogEntry_iff, AssignsFrom]
  grind

theorem mem_deps_iff : d ∈ p.deps i ↔ p.Needs i d := by
  rw [deps, List.mem_append, mem_declaredDeps_iff]
  constructor
  · rintro (⟨hp, hd | ⟨hn, hg, rfl⟩⟩ | hd)
    · exact .declared hp hd
    · exact .general hp hn hg
    · split at hd
      · rename_i t ht
        obtain ⟨hp, ha⟩ := linkedTarget?_eq_some_iff.1 ht
        obtain rfl | hd := List.mem_cons.1 hd
        · exact .target hp ha
        · exact .ofTarget hp ha hd
      · simp at hd
  · intro h
    cases h with
    | declared hp hd => exact .inl ⟨hp, .inl hd⟩
    | general hp hn hg => exact .inl ⟨hp, .inr ⟨hn, hg, rfl⟩⟩
    | target hp ha => simp [linkedTarget?_eq_some_iff.2 ⟨hp, ha⟩]
    | ofTarget hp ha hd => simp [linkedTarget?_eq_some_iff.2 ⟨hp, ha⟩, hd]

end Plan

end CatalogLinker
