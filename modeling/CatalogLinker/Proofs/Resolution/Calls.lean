import CatalogLinker.Proofs.Proxy.Table
import CatalogLinker.Proofs.Resolution.Order

namespace CatalogLinker

open CatalogLinker.Graph Graph.Visit Graph.Network

namespace Session

/-- Nothing is expanded for an identifier that is a metadata key, provided by compiled code, in the
compiled section or resolved before. -/
def TurnsBack (s : Session) (i : Ident) : Prop :=
  i.isMetadataKey ∨ s.isClosed i.finalName ∨ i.finalName ∈ s.pass.resolved

variable (p : Plan)

inductive Calls : Session × Ident → Session × Ident → Prop
  | dependency {s s₁ : Session} {i d : Ident} {before after : List Ident} {own : Option String}
      {ts : List String} : ¬s.TurnsBack i → p.ownText i = .ok own → p.deps i = before ++ d :: after →
      ((s.start p i).announce p i).resolveAll p before = (s₁, .ok ts) → Calls (s, i) (s₁, d)

inductive Resolves (s : Session) (i : Ident) : Session → Except LinkError String → Prop
  | turnedBack : s.TurnsBack i → Resolves s i (s.turnBack i) (.ok "")
  | unreadable {e : LinkError} : ¬s.TurnsBack i → p.ownText i = .error e →
      Resolves s i (s.start p i) (.error e)
  | interrupted {own : Option String} {s₁ : Session} {e : LinkError} : ¬s.TurnsBack i →
      p.ownText i = .ok own →
      ((s.start p i).announce p i).resolveAll p (p.deps i) = (s₁, .error e) →
      Resolves s i s₁ (.error e)
  | unplaced {own : Option String} {s₁ : Session} {ts : List String} {e : LinkError} :
      ¬s.TurnsBack i → p.ownText i = .ok own →
      ((s.start p i).announce p i).resolveAll p (p.deps i) = (s₁, .ok ts) →
      Resolves s i (s₁.addPostset p i) (.error e)
  | completed {own : Option String} {s₁ s₂ : Session} {ts : List String} {t : String} :
      ¬s.TurnsBack i → p.ownText i = .ok own →
      ((s.start p i).announce p i).resolveAll p (p.deps i) = (s₁, .ok ts) →
      Places p (s₁.addPostset p i) i s₂ t →
      Resolves s i (s₂.conclude p i (joinTexts (ts ++ [t]))) (.ok (joinTexts (ts ++ [t])))

variable {p} {s s' s₁ : Session} {i : Ident} {is : List Ident} {ts : List String}

theorem resolve_of_turnsBack (h : s.TurnsBack i) : s.resolve p i = (s.turnBack i, .ok "") := by
  rw [resolve_eq]
  exact if_pos h

theorem session_of_place {own : Option String} {e : LinkError}
    (h : own.elim (s, .ok "") (s.place p i) = (s', .error e)) : s' = s := by
  cases own with
  | none => simp at h
  | some own =>
    rw [Option.elim_some, place] at h
    split at h
    · rename_i proxies e' hp
      rw [← (Prod.mk.inj h).1, proxied_error hp]
    · dsimp only at h
      split at h <;> simp at h

theorem resolves (s : Session) (i : Ident) {r : Except LinkError String}
    (h : s.resolve p i = (s', r)) : Resolves p s i s' r := by
  by_cases ht : s.TurnsBack i
  · obtain ⟨rfl, rfl⟩ := Prod.mk.inj ((resolve_of_turnsBack ht).symm.trans h)
    exact .turnedBack ht
  · have heq := ht
    rw [TurnsBack] at heq
    rw [resolve_eq, if_neg heq] at h
    cases ho : p.ownText i with
    | error e =>
      obtain ⟨rfl, rfl⟩ : s.start p i = s' ∧ .error e = r := by simpa [ho] using h
      exact .unreadable ht ho
    | ok own =>
      rw [ho] at h
      dsimp only at h
      split at h
      · rename_i s₁ e hd
        obtain ⟨rfl, rfl⟩ := Prod.mk.inj h
        exact .interrupted ht ho hd
      · rename_i s₁ ts hd
        split at h
        · rename_i s₂ e hp
          obtain ⟨rfl, rfl⟩ := Prod.mk.inj h
          rw [session_of_place hp]
          exact .unplaced ht ho hd
        · rename_i s₂ t hp
          obtain ⟨rfl, rfl⟩ := Prod.mk.inj h
          exact .completed ht ho hd (places_of_place ho hp)

section ResolveAll

theorem resolveAll_nil_ok (h : s.resolveAll p [] = (s', .ok ts)) : s' = s ∧ ts = [] := by
  obtain ⟨rfl, ht⟩ := Prod.mk.inj h
  exact ⟨rfl, (Except.ok.inj ht).symm⟩

theorem resolveAll_cons_ok {t : String} (hi : s.resolve p i = (s₁, .ok t))
    (h : s₁.resolveAll p is = (s', .ok ts)) : s.resolveAll p (i :: is) = (s', .ok (t :: ts)) := by
  simp only [resolveAll, hi, h]

theorem resolveAll_cons_inv (h : s.resolveAll p (i :: is) = (s', .ok ts)) :
    ∃ s₁ t us, s.resolve p i = (s₁, .ok t) ∧ s₁.resolveAll p is = (s', .ok us) := by
  rw [resolveAll] at h
  split at h
  · simp at h
  · rename_i s₁ t hi
    split at h
    · simp at h
    · rename_i s₂ us hrest
      obtain ⟨rfl, -⟩ := Prod.mk.inj h
      exact ⟨s₁, t, us, hi, hrest⟩

/-- What every resolution on the way preserves holds after resolving identifiers in turn, also if
one of them fails. -/
theorem resolveAll_keeps {K : Session → Prop} (hs : K s)
    (h : ∀ before d after s₁ ts, is = before ++ d :: after →
      s.resolveAll p before = (s₁, .ok ts) → K s₁ → K (s₁.resolve p d).1) :
    K (s.resolveAll p is).1 := by
  induction is generalizing s with
  | nil => exact hs
  | cons i is ih =>
    have hi : K (s.resolve p i).1 := h [] i is s [] rfl rfl hs
    rw [resolveAll]
    cases hr : s.resolve p i with
    | mk s₁ r =>
      rw [hr] at hi
      cases r with
      | error e => exact hi
      | ok t =>
        have hrest : K (s₁.resolveAll p is).1 := by
          refine ih hi fun before d after s₂ ts his hb hs₂ => ?_
          refine h (i :: before) d after s₂ (t :: ts) ?_ (resolveAll_cons_ok hr hb) hs₂
          rw [his, List.cons_append]
        dsimp only
        cases hd : s₁.resolveAll p is with
        | mk s₂ r =>
          rw [hd] at hrest
          cases r <;> exact hrest

end ResolveAll

theorem resolved_of_calls (hr : ((s.start p i).announce p i).resolveAll p is = (s₁, .ok ts)) :
    i.finalName :: s.pass.resolved ⊆ s₁.pass.resolved := by
  have ha : Aligned s.isClosed (i.finalName :: s.pass.resolved) ((s.start p i).announce p i) :=
    (Aligned.refl s).start i
  rw [← followAll_eq_resolveAll ha] at hr
  obtain ⟨ps, hps⟩ := executes_of_followAll hr
  intro n hn
  refine hps.resolved_of_mem (.inl ?_)
  rw [announce_resolved, mem_start_resolved]
  exact (List.mem_cons.1 hn).symm

variable (p)

/-- How many names a resolution can still expand. Which names are closed plays no part in it. -/
def namesLeft (x : Session × Ident) : Nat :=
  (p.network fun _ => false).budget x.1.pass.resolved x.2

variable {p}

theorem namesLeft_lt {x y : Session × Ident} (h : Calls p x y) : namesLeft p y < namesLeft p x := by
  cases h with
  | @dependency s s₁ i d before after own ts ht _ hd hr =>
    have hi : i.finalName ∉ s.pass.resolved := fun h => ht (.inr (.inr h))
    have hmem : d ∈ p.deps i := by
      rw [hd]
      exact List.mem_append_right _ List.mem_cons_self
    exact budget_lt (p.network fun _ => false) hi hmem (resolved_of_calls hr)

/-- Calls come to an end. -/
theorem wellFounded_calls (p : Plan) : WellFounded fun y x => Calls p x y :=
  Subrelation.wf namesLeft_lt (measure (namesLeft p)).wf

end Session

end CatalogLinker
