import CatalogLinker.Proofs.Graph.DepthFirst
import CatalogLinker.Resolution.Session

namespace CatalogLinker

open CatalogLinker.Graph Graph.Visit

namespace Plan

variable (p : Plan)

inductive Fails : LinkError → Prop
  | unreadable {i : Ident} {e : LinkError} : p.ownText i = .error e → Fails e
  | unplaced {i : Ident} {own : String} {t : ProxyTable} {e : LinkError} :
      (Session.proxied p i own t).2 = .error e → Fails e

inductive ItemFault : LinkError → Prop
  | missingDefine (i : Ident) : ItemFault (.missingDefine i)
  | malformedBody (item : String) (part : BodyPart) : ItemFault (.malformedBody item part)
  | invalidProxyMode (i : Ident) (mode : String) : ItemFault (.invalidProxyMode i mode)

variable {p} {i : Ident} {e : LinkError} {code own : String}

theorem itemFault_of_functionText (h : p.functionText i code = .error e) : ItemFault e := by
  rw [functionText] at h
  cases hp : FunctionBody.prepare i i.finalName code with
  | error e' =>
    obtain rfl : e' = e := by simpa [hp, bind, Except.bind] using h
    rw [FunctionBody.prepare] at hp
    split_ifs at hp
    · exact Except.error.inj hp ▸ .missingDefine i
    · split at hp
      · simp at hp
      · exact Except.error.inj hp ▸ .malformedBody _ _
  | ok text =>
    simp only [hp, bind, Except.bind, pure, Except.pure] at h
    split_ifs at h
    rw [FunctionBody.traced] at h
    split at h
    · simp at h
    · exact Except.error.inj h ▸ .malformedBody _ _

theorem itemFault_of_ownText (h : p.ownText i = .error e) : ItemFault e := by
  rw [ownText] at h
  split at h
  · simp at h
  · rename_i code _
    cases hf : p.functionText i code with
    | error e' =>
      obtain rfl : e' = e := by simpa [hf, Except.map] using h
      exact itemFault_of_functionText hf
    | ok text => simp [hf, Except.map] at h
  · split at h <;> simp at h
  · simp at h
  · simp at h

theorem itemFault_of_proxied {t : ProxyTable} (h : (Session.proxied p i own t).2 = .error e) :
    ItemFault e := by
  rw [Session.proxied] at h
  split at h
  · simp at h
  · rename_i mode _
    split at h
    · rename_i e' hm
      obtain rfl : e' = e := Except.error.inj h
      rw [ProxyMode.ofText] at hm
      split_ifs at hm
      exact Except.error.inj hm ▸ .invalidProxyMode i mode
    · rw [ProxyTable.rewrite] at h
      split at h
      · exact Except.error.inj h ▸ .malformedBody _ _
      · simp at h

theorem Fails.itemFault (h : p.Fails e) : ItemFault e := by
  cases h with
  | unreadable h => exact itemFault_of_ownText h
  | unplaced h => exact itemFault_of_proxied h

end Plan

namespace Session

variable {p : Plan} {s s' : Session} {i : Ident} {v : Visit Ident} {us vs : List (Visit Ident)}
  {e : LinkError}

theorem error_inj {α : Type} {e' : LinkError}
    (h : ((s, .error e') : Session × Except LinkError α) = (s', .error e)) : e' = e :=
  Except.error.inj (Prod.mk.inj h).2

theorem fails_of_place {own : Option String}
    (h : own.elim (s, .ok "") (s.place p i) = (s', .error e)) : p.Fails e := by
  cases own with
  | none => simp at h
  | some own =>
    rw [Option.elim_some, place] at h
    split at h
    · rename_i hp
      obtain rfl := error_inj h
      exact .unplaced (congrArg Prod.snd hp)
    · dsimp only at h
      split at h <;> simp at h

theorem follow_expanded_error (h : s.follow p (.expanded i us) = (s', .error e)) :
    p.Fails e ∨ ∃ s₁, ((s.start p i).announce p i).followAll p us = (s₁, .error e) := by
  rw [follow] at h
  dsimp only at h
  split at h
  · rename_i ho
    obtain rfl := error_inj h
    exact .inl (.unreadable ho)
  · split at h
    · rename_i s₁ e' hu
      obtain rfl := error_inj h
      exact .inr ⟨s₁, hu⟩
    · split at h
      · rename_i s₂ e' hp
        obtain rfl := error_inj h
        exact .inl (fails_of_place hp)
      · simp at h

theorem followAll_cons_error (h : s.followAll p (v :: vs) = (s', .error e)) :
    (∃ s₁, s.follow p v = (s₁, .error e)) ∨
      ∃ s₁ : Session, s₁.followAll p vs = (s', .error e) := by
  rw [followAll] at h
  split at h
  · rename_i s₁ e' hv
    obtain rfl := error_inj h
    exact .inl ⟨s₁, hv⟩
  · rename_i s₁ t hv
    split at h
    · rename_i s₂ e' hvs
      obtain ⟨rfl, rfl⟩ : s₂ = s' ∧ e' = e := ⟨(Prod.mk.inj h).1, error_inj h⟩
      exact .inr ⟨s₁, hvs⟩
    · simp at h

theorem fails_of_followAll (h : s.followAll p vs = (s', .error e)) : p.Fails e := by
  induction vs using visits_induction generalizing s s' with
  | nil => simp [followAll] at h
  | turnedBack i vs ih =>
    obtain ⟨s₁, hv⟩ | ⟨s₁, hvs⟩ := followAll_cons_error h
    · simp [follow] at hv
    · exact ih hvs
  | expanded i us vs ihu ihv =>
    obtain ⟨s₁, hv⟩ | ⟨s₁, hvs⟩ := followAll_cons_error h
    · obtain hf | ⟨s₂, hu⟩ := follow_expanded_error hv
      · exact hf
      · exact ihu hu
    · exact ihv hvs

theorem fails_of_resolve (h : s.resolve p i = (s', .error e)) : p.Fails e := by
  rw [resolve] at h
  have hall : s.followAll p [s.walk p i] = (s', .error e) := by rw [followAll, h]
  exact fails_of_followAll hall

theorem fails_of_request {r : Request} (h : s.request p r = (s', .error e)) : p.Fails e := by
  rw [request] at h
  dsimp only at h
  split at h
  · rename_i s₁ e' hr
    obtain rfl := error_inj h
    exact fails_of_resolve hr
  · split at h <;> simp at h

theorem fails_of_requestAll {rs : List Request} (h : s.requestAll p rs = (s', .error e)) :
    p.Fails e := by
  induction rs generalizing s with
  | nil => simp [requestAll] at h
  | cons r rs ih =>
    rw [requestAll] at h
    split at h
    · rename_i s₁ e' hr
      obtain rfl := error_inj h
      exact fails_of_request hr
    · exact ih h

end Session

/-- A pass fails over undefined identifiers only if all its requests have been served. -/
theorem LinkState.runPass_error {p : Plan} {l : LinkState} {rs : List Request} {e : LinkError}
    (h : l.runPass p rs = .error e) :
    p.Fails e ∨ ∃ s, Session.requestAll p { link := l } rs = (s, .ok ()) ∧
      s.pass.undefined ≠ [] ∧ e = .undefinedSymbols s.pass.undefined := by
  rw [runPass] at h
  split at h
  · rename_i s e' hs
    exact .inl (Session.fails_of_requestAll (Except.error.inj h ▸ hs))
  · rename_i s hs
    rw [Pass.finish] at h
    split at h
    · simp [Except.map] at h
    · rename_i hu
      refine .inr ⟨s, hs, fun hn => hu (by rw [hn]; rfl), ?_⟩
      simpa [Except.map, eq_comm] using h

end CatalogLinker
