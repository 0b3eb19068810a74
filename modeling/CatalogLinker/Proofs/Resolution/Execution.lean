import CatalogLinker.Proofs.Graph.DepthFirst
import CatalogLinker.Proofs.Resolution.Steps
import CatalogLinker.Proofs.Text.Lines

namespace CatalogLinker

open CatalogLinker.Graph Graph.Visit

structure Placement where
  ident : Ident
  session : Session
  text : String

namespace Session

variable (p : Plan)

inductive Places (s : Session) (i : Ident) : Session → String → Prop
  | nothing : p.ownText i = .ok none → Places s i s ""
  | declared {own text : String} {t : ProxyTable} : p.ownText i = .ok (some own) →
      proxied p i own s.link.proxies = (t, .ok text) → p.compiledSig? i = none →
      Places s i { s with link := { s.link with proxies := t } } (s.registered p i text)
  | moved {own text sig : String} {t : ProxyTable} : p.ownText i = .ok (some own) →
      proxied p i own s.link.proxies = (t, .ok text) → p.compiledSig? i = some sig →
      Places s i
        { link := LinkState.implement { s.link with proxies := t } i.finalName sig
          pass := s.pass.emit (.compiledBody i.finalName text) } ""

inductive Executes : Session → List (Visit Ident) → Session → List String → List Placement → Prop
  | nil (s : Session) : Executes s [] s [] []
  | turnedBack {s s' : Session} {i : Ident} {vs : List (Visit Ident)} {ts : List String}
      {ps : List Placement} : Executes (s.turnBack i) vs s' ts ps →
      Executes s (.turnedBack i :: vs) s' ("" :: ts) ps
  | expanded {s s₁ s₂ s' : Session} {i : Ident} {us vs : List (Visit Ident)}
      {ts ts' : List String} {t : String} {ps ps' : List Placement} :
      Executes ((s.start p i).announce p i) us s₁ ts ps →
      Places p (s₁.addPostset p i) i s₂ t →
      Executes (s₂.conclude p i (joinTexts (ts ++ [t]))) vs s' ts' ps' →
      Executes s (.expanded i us :: vs) s' (joinTexts (ts ++ [t]) :: ts')
        (ps ++ ⟨i, s₁.addPostset p i, t⟩ :: ps')

/-- What holds whenever a text is placed, with what has finished by then. -/
def Along (I : List Ident → Session → Prop) : List Ident → List Placement → Prop
  | _, [] => True
  | done, x :: ps => I done x.session ∧ Along I (done ++ [x.ident]) ps

variable {p} {s s₁ s' : Session} {i : Ident} {v : Visit Ident} {us vs : List (Visit Ident)}
  {t : String} {ts : List String} {ps : List Placement}

section Along

variable {I : List Ident → Session → Prop} {done : List Ident}

theorem along_append {ps' : List Placement} :
    Along I done (ps ++ ps') ↔
      Along I done ps ∧ Along I (done ++ ps.map Placement.ident) ps' := by
  induction ps generalizing done with
  | nil => simp [Along]
  | cons x ps ih => simp [Along, ih, and_assoc]

theorem Along.of_eq_append (h : Along I done ps) {ps₁ ps₂ : List Placement} {x : Placement}
    (hps : ps = ps₁ ++ x :: ps₂) : I (done ++ ps₁.map Placement.ident) x.session := by
  rw [hps, along_append] at h
  exact h.2.1

theorem Along.of_mem (h : Along I done ps) {x : Placement} (hx : x ∈ ps) :
    ∃ done', I done' x.session := by
  obtain ⟨ps₁, ps₂, hps⟩ := List.append_of_mem hx
  exact ⟨_, h.of_eq_append hps⟩

end Along

theorem places_of_place {own : Option String} (ho : p.ownText i = .ok own)
    (h : own.elim (s, .ok "") (s.place p i) = (s', .ok t)) : Places p s i s' t := by
  cases own with
  | none =>
    obtain ⟨rfl, rfl⟩ : s = s' ∧ "" = t := by simpa using h
    exact .nothing ho
  | some own =>
    rw [Option.elim_some, place] at h
    split at h
    · simp at h
    · rename_i t text hp
      dsimp only at h
      split at h
      · rename_i hsig
        obtain ⟨rfl, rfl⟩ : _ = s' ∧ s.registered p i text = _ := by simpa [registered] using h
        exact .declared ho hp hsig
      · rename_i sig hsig
        obtain ⟨rfl, rfl⟩ : _ = s' ∧ "" = _ := by simpa using h
        exact .moved ho hp hsig

theorem follow_expanded_ok (h : s.follow p (.expanded i us) = (s', .ok t)) :
    ∃ s₁ ts s₂ u, ((s.start p i).announce p i).followAll p us = (s₁, .ok ts) ∧
      Places p (s₁.addPostset p i) i s₂ u ∧ t = joinTexts (ts ++ [u]) ∧
      s' = s₂.conclude p i t := by
  rw [follow] at h
  dsimp only at h
  split at h
  · simp at h
  · rename_i own ho
    split at h
    · simp at h
    · rename_i s₁ ts hf
      split at h
      · simp at h
      · rename_i s₂ u hu
        obtain ⟨hs, ht⟩ : s₂.conclude p i (joinTexts (ts ++ [u])) = s' ∧
          joinTexts (ts ++ [u]) = t := by simpa using h
        exact ⟨s₁, ts, s₂, u, hf, places_of_place ho hu, ht.symm, by rw [← ht, ← hs]⟩

theorem followAll_cons_ok (h : s.followAll p (v :: vs) = (s', .ok ts)) :
    ∃ s₁ u us, s.follow p v = (s₁, .ok u) ∧ s₁.followAll p vs = (s', .ok us) ∧ ts = u :: us := by
  rw [followAll] at h
  split at h
  · simp at h
  · rename_i s₁ u hv
    split at h
    · simp at h
    · rename_i s₂ us hvs
      obtain ⟨rfl, rfl⟩ : s₂ = s' ∧ u :: us = ts := by simpa using h
      exact ⟨s₁, u, us, hv, hvs, rfl⟩

theorem executes_of_followAll (h : s.followAll p vs = (s', .ok ts)) :
    ∃ ps, Executes p s vs s' ts ps := by
  induction vs using visits_induction generalizing s s' ts with
  | nil =>
    obtain ⟨rfl, rfl⟩ : s = s' ∧ [] = ts := by simpa [followAll] using h
    exact ⟨[], .nil s⟩
  | turnedBack i vs ih =>
    obtain ⟨s₁, u, us, hi, hvs, rfl⟩ := followAll_cons_ok h
    obtain ⟨rfl, rfl⟩ : s.turnBack i = s₁ ∧ "" = u := by simpa [follow] using hi
    obtain ⟨ps, hps⟩ := ih hvs
    exact ⟨ps, .turnedBack hps⟩
  | expanded i us vs ihu ihv =>
    obtain ⟨s₁, u, ts', hi, hvs, rfl⟩ := followAll_cons_ok h
    obtain ⟨s₂, ts, s₃, w, hus, hplace, rfl, rfl⟩ := follow_expanded_ok hi
    obtain ⟨ps, hps⟩ := ihu hus
    obtain ⟨ps', hps'⟩ := ihv hvs
    exact ⟨_, .expanded hps hplace hps'⟩

theorem executes_of_follow (h : s.follow p v = (s', .ok t)) :
    ∃ ps, Executes p s [v] s' [t] ps :=
  executes_of_followAll (by simp [followAll, h])

namespace Places

theorem compiled_eq (h : Places p s i s' t) : s'.link.compiled = s.link.compiled := by
  cases h <;> simp

theorem exports_eq (h : Places p s i s' t) : s'.link.exports = s.link.exports := by
  cases h <;> simp

theorem resolved_eq (h : Places p s i s' t) : s'.pass.resolved = s.pass.resolved := by
  cases h <;> rfl

theorem postsets_eq (h : Places p s i s' t) : s'.pass.postsets = s.pass.postsets := by
  cases h <;> rfl

theorem trace_eq (h : Places p s i s' t) : s'.pass.trace = s.pass.trace := by
  cases h <;> rfl

theorem declarations_eq (h : Places p s i s' t) : s'.pass.declarations = s.pass.declarations := by
  cases h with
  | nothing _ => rfl
  | declared _ _ _ => rfl
  | moved _ _ _ => simp [Pass.declarations, Pass.emit, Fragment.declaration?]

theorem statements_eq (h : Places p s i s' t) : s'.pass.statements = s.pass.statements := by
  cases h with
  | nothing _ => rfl
  | declared _ _ _ => rfl
  | moved _ _ _ => simp [Pass.statements, Pass.emit, Fragment.postset?]

theorem isImplemented (h : Places p s i s' t) {n : Name} :
    s'.link.isImplemented n ↔ s.link.isImplemented n ∨
      (n = i.finalName ∧ (p.compiledSig? i).isSome ∧ p.ownText i ≠ .ok none) := by
  cases h with
  | nothing ho => simp [ho]
  | declared _ _ hsig =>
    rw [hsig]
    simp [LinkState.isImplemented]
  | moved ho _ hsig =>
    rw [LinkState.isImplemented_implement, ho, hsig]
    simp [LinkState.isImplemented]

theorem isLibraryFn (h : Places p s i s' t) {n : Name} (hn : s.link.isLibraryFn n) :
    s'.link.isLibraryFn n := by
  cases h with
  | nothing _ => exact hn
  | declared _ _ _ => exact hn
  | moved _ _ _ => exact (LinkState.isLibraryFn_implement _ _ _).2 (.inl hn)

end Places

namespace Executes

theorem idents (h : Executes p s vs s' ts ps) :
    ps.map Placement.ident = finishedNodesAll vs := by
  induction h with
  | nil => rfl
  | turnedBack _ ih => simpa using ih
  | expanded _ _ _ ihu ihv => simp [ihu, ihv]

theorem joinTexts_eq (h : Executes p s vs s' ts ps) :
    joinTexts ts = joinTexts (ps.map Placement.text) := by
  induction h with
  | nil => rfl
  | turnedBack _ ih => simpa using ih
  | @expanded _ _ _ _ _ _ _ ts ts' t ps ps' _ _ _ ihu ihv =>
    have hown : joinTexts (ts ++ [t]) = joinTexts (ps.map Placement.text ++ [t]) :=
      joinTexts_append_congr ihu rfl
    rw [joinTexts_join_cons, joinTexts_append_congr hown ihv]
    simp

theorem places (h : Executes p s vs s' ts ps) :
    ∀ x ∈ ps, ∃ s₁, Places p x.session x.ident s₁ x.text := by
  induction h with
  | nil => simp
  | turnedBack _ ih => exact ih
  | expanded _ hp _ ihu ihv =>
    intro x hx
    rw [List.mem_append, List.mem_cons] at hx
    obtain hx | rfl | hx := hx
    · exact ihu x hx
    · exact ⟨_, hp⟩
    · exact ihv x hx

/-- What every step preserves holds after an execution, and whenever a text is placed. It can speak
of the identifiers that have finished. -/
theorem invariant {I : List Ident → Session → Prop}
    (turnBack : ∀ done s i, I done s → I done (s.turnBack i))
    (start : ∀ done s i, I done s → I done ((s.start p i).announce p i))
    (addPostset : ∀ done s i, I done s → I done (s.addPostset p i))
    (finish : ∀ done s s' i t u, I done s → Places p s i s' t → I (done ++ [i]) (s'.conclude p i u))
    (h : Executes p s vs s' ts ps) (done : List Ident) (hs : I done s) :
    I (done ++ ps.map Placement.ident) s' ∧ Along I done ps := by
  induction h generalizing done with
  | nil => exact ⟨by simpa using hs, trivial⟩
  | turnedBack _ ih => exact ih _ (turnBack _ _ _ hs)
  | @expanded _ _ _ _ i _ _ _ _ _ _ _ _ hp _ ihu ihv =>
    obtain ⟨h₁, hps⟩ := ihu _ (start _ _ _ hs)
    have h₂ := addPostset _ _ i h₁
    obtain ⟨h₃, hps'⟩ := ihv _ (finish _ _ _ _ _ _ h₂ hp)
    refine ⟨by simpa using h₃, ?_⟩
    rw [along_append]
    exact ⟨hps, h₂, hps'⟩

theorem compiled_eq (h : Executes p s vs s' ts ps) : s'.link.compiled = s.link.compiled := by
  refine (h.invariant (I := fun _ u => u.link.compiled = s.link.compiled)
    ?_ ?_ ?_ ?_ [] rfl).1
  · exact fun _ u i hu => by rw [turnBack_compiled, hu]
  · exact fun _ u i hu => by rw [announce_compiled, start_link, hu]
  · exact fun _ u i hu => by rw [addPostset_link, hu]
  · exact fun _ u u' i t w hu hp => by rw [conclude_compiled, hp.compiled_eq, hu]

theorem declarations_eq (h : Executes p s vs s' ts ps) :
    s'.pass.declarations = s.pass.declarations := by
  refine (h.invariant (I := fun _ u => u.pass.declarations = s.pass.declarations)
    ?_ ?_ ?_ ?_ [] rfl).1
  · exact fun _ u i hu => by rw [Pass.declarations, turnBack_fragments]; exact hu
  · exact fun _ u i hu => by rw [Pass.declarations, announce_fragments, start_fragments]; exact hu
  · exact fun _ u i hu => by rw [addPostset_declarations, hu]
  · exact fun _ u u' i t w hu hp => hp.declarations_eq.trans hu

theorem trace_prefix (h : Executes p s vs s' ts ps) :
    s.pass.trace <+: s'.pass.trace ∧ ∀ x ∈ ps, s.pass.trace <+: x.session.pass.trace := by
  refine (h.invariant (I := fun _ u => s.pass.trace <+: u.pass.trace)
    ?_ ?_ ?_ ?_ [] (List.prefix_refl _)).imp_right fun hps x hx => (hps.of_mem hx).choose_spec
  · exact fun _ u i hu => by rwa [turnBack_trace]
  · exact fun _ u i hu => by
      rw [announce_trace, start_trace]
      exact hu.trans (List.prefix_append _ _)
  · exact fun _ u i hu => by rwa [addPostset_trace]
  · exact fun _ u u' i t w hu hp => by
      rw [conclude_trace, hp.trace_eq]
      exact hu.trans (List.prefix_append _ _)

theorem ended_prefix (h : Executes p s vs s' ts ps) {x : Placement} (hx : x ∈ ps) :
    ∃ k, x.session.pass.trace ++ [.ended x.ident.finalName (p.outcome x.ident) k] <+:
      s'.pass.trace := by
  induction h with
  | nil => simp at hx
  | turnedBack _ ih => exact ih hx
  | expanded _ hp hv ihu ihv =>
    have hlast := hv.trace_prefix.1
    rw [conclude_trace, hp.trace_eq, addPostset_trace] at hlast
    -- What was placed before ended before; what is placed now ends next.
    rw [List.mem_append, List.mem_cons] at hx
    obtain hx | rfl | hx := hx
    · obtain ⟨k, hk⟩ := ihu hx
      exact ⟨k, (hk.trans (List.prefix_append _ _)).trans hlast⟩
    · exact ⟨_, by rw [addPostset_trace]; exact hlast⟩
    · exact ihv hx

theorem began_iff (h : Executes p s vs s' ts ps) {n : Name} :
    .began i n ∈ s'.pass.trace ↔
      .began i n ∈ s.pass.trace ∨ i ∈ expandedNodesAll vs ∧ n = i.finalName := by
  induction h with
  | nil => simp
  | turnedBack _ ih => simpa using ih
  | expanded _ hp _ ihu ihv =>
    rw [ihv, conclude_trace, hp.trace_eq, addPostset_trace, List.mem_append, ihu, announce_trace,
      start_trace]
    simp only [List.mem_append, TraceEvent.began.injEq, reduceCtorEq,
      expandedNodesAll_cons, expandedNodes_expanded, List.cons_append, List.mem_cons]
    grind

end Executes

end Session

end CatalogLinker
