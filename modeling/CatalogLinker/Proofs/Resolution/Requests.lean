import CatalogLinker.Proofs.Resolution.Course

namespace CatalogLinker

open CatalogLinker.Graph Graph.Visit Graph.Network

namespace Session

variable (p : Plan)

def noted (s : Session) (r : Request) : Session :=
  { s with
    link := match r.signature with
      | some sig => { s.link with requestSigs := s.link.requestSigs ++ [(r.ident.finalName, sig)] }
      | none => s.link }

def delivered (s : Session) (n : Name) (text : String) : Session :=
  if text = "" then s
  else { s with
    pass := s.pass.emit
      (if s.link.isLibraryFn n then .functionBody n text else .globalDeclaration n text) }

inductive Serves : Session → List Request → List (Visit Ident) → Session → List Placement → Prop
  | nil (s : Session) : Serves s [] [] s []
  | cons {s s₁ s' : Session} {r : Request} {rs : List Request} {v : Visit Ident}
      {vs : List (Visit Ident)} {t : String} {ps ps' : List Placement} :
      Executes p (s.noted r) [v] s₁ [t] ps →
      Serves (s₁.delivered r.ident.finalName t) rs vs s' ps' →
      Serves s (r :: rs) (v :: vs) s' (ps ++ ps')

variable {p} {s s' : Session} {r : Request} {rs : List Request} {vs : List (Visit Ident)}
  {ps : List Placement} {i : Ident} {n : Name} {t : String}

section Noted

@[simp] theorem noted_compiled : (s.noted r).link.compiled = s.link.compiled := by
  rw [noted]
  dsimp only
  split <;> rfl

@[simp] theorem noted_implemented : (s.noted r).link.implemented = s.link.implemented := by
  rw [noted]
  dsimp only
  split <;> rfl

@[simp] theorem noted_isImplemented (n : Name) :
    (s.noted r).link.isImplemented n = s.link.isImplemented n := by
  rw [noted]
  dsimp only
  split <;> rfl

@[simp] theorem noted_exports : (s.noted r).link.exports = s.link.exports := by
  rw [noted]
  dsimp only
  split <;> rfl

@[simp] theorem noted_proxies : (s.noted r).link.proxies = s.link.proxies := by
  rw [noted]
  dsimp only
  split <;> rfl

@[simp] theorem noted_pass : (s.noted r).pass = s.pass := rfl

end Noted

section Delivered

@[simp] theorem delivered_link : (s.delivered n t).link = s.link := by
  rw [delivered]
  split <;> rfl

@[simp] theorem delivered_resolved : (s.delivered n t).pass.resolved = s.pass.resolved := by
  rw [delivered]
  split <;> rfl

@[simp] theorem delivered_trace : (s.delivered n t).pass.trace = s.pass.trace := by
  rw [delivered]
  split <;> rfl

@[simp] theorem delivered_postsets : (s.delivered n t).pass.postsets = s.pass.postsets := by
  rw [delivered]
  split <;> rfl

theorem delivered_declarations :
    (s.delivered n t).pass.declarations =
      s.pass.declarations ++ if t = "" then [] else [t] := by
  rw [delivered]
  split
  · simp
  · dsimp only
    split <;> simp [Pass.declarations, Pass.emit, Fragment.declaration?]

@[simp] theorem delivered_statements :
    (s.delivered n t).pass.statements = s.pass.statements := by
  rw [delivered]
  split
  · rfl
  · dsimp only
    split <;> simp [Pass.statements, Pass.emit, Fragment.postset?]

end Delivered

theorem request_ok (h : s.request p r = (s', .ok ())) :
    ∃ s₁ t, (s.noted r).resolve p r.ident = (s₁, .ok t) ∧
      s' = s₁.delivered r.ident.finalName t := by
  rw [request] at h
  generalize hr : resolve p _ r.ident = x at h
  obtain ⟨s₁, res⟩ := x
  cases res with
  | error e => simp at h
  | ok t =>
    refine ⟨s₁, t, hr, ?_⟩
    rw [delivered]
    dsimp only at h
    split at h <;> simp_all

theorem requestAll_cons_ok (h : s.requestAll p (r :: rs) = (s', .ok ())) :
    ∃ s₁, s.request p r = (s₁, .ok ()) ∧ s₁.requestAll p rs = (s', .ok ()) := by
  rw [requestAll] at h
  split at h
  · simp at h
  · rename_i s₁ hr
    exact ⟨s₁, hr, h⟩

theorem requestAll_eq_ok (h : (s.requestAll p rs).2.isOk) :
    s.requestAll p rs = ((s.requestAll p rs).1, .ok ()) := by
  cases hr : s.requestAll p rs with
  | mk s' res =>
    rw [hr] at h
    cases res with
    | error e => simp [Except.isOk, Except.toBool] at h
    | ok _ => rfl

theorem exists_requestAll {P : Session → Prop} [DecidablePred P]
    (h : ((s.requestAll p rs).2.isOk && decide (P (s.requestAll p rs).1)) = true) :
    ∃ s', s.requestAll p rs = (s', .ok ()) ∧ P s' := by
  obtain ⟨hok, hP⟩ := Bool.and_eq_true_iff.1 h
  exact ⟨_, requestAll_eq_ok hok, of_decide_eq_true hP⟩

/-- The walks of the requests of a pass are one walk. -/
theorem serves_of_requestAll {closed : Name → Bool} {seen : List Name}
    (ha : Aligned closed seen s) (h : s.requestAll p rs = (s', .ok ())) :
    ∃ ps, Serves p s rs ((p.network closed).visitAll seen (rs.map Request.ident)) s' ps := by
  induction rs generalizing seen s with
  | nil =>
    obtain rfl : s = s' := by simpa [requestAll] using h
    exact ⟨[], .nil s⟩
  | cons r rs ih =>
    obtain ⟨s₁, hr, hrs⟩ := requestAll_cons_ok h
    obtain ⟨s₂, t, hres, rfl⟩ := request_ok hr
    have hn : Aligned closed seen (s.noted r) :=
      ha.of_eq noted_compiled noted_isImplemented (by rw [noted_pass])
    obtain ⟨ps, hps⟩ := executes_of_resolve hn hres
    have hkeys : (p.network closed).expandedKeysAll ((p.network closed).visitAll seen [r.ident]) =
        (p.network closed).expandedKeys ((p.network closed).visit seen r.ident) := by
      simp [expandedKeysAll, expandedKeys, visitAll]
    have hd : Aligned closed ((p.network closed).expandedKeys
        ((p.network closed).visit seen r.ident) ++ seen) (s₂.delivered r.ident.finalName t) :=
      hkeys ▸ (hps.aligned hn).of_eq (by rw [delivered_link]) (fun _ => by rw [delivered_link])
        delivered_resolved
    obtain ⟨ps', hps'⟩ := ih hd hrs
    exact ⟨ps ++ ps', .cons hps hps'⟩

theorem serves_of_pass {l : LinkState} (h : Session.requestAll p { link := l } rs = (s, .ok ())) :
    ∃ ps, Serves p { link := l } rs ((p.network ({ link := l } : Session).isClosed).visitAll []
      (rs.map Request.ident)) s ps :=
  serves_of_requestAll (Aligned.refl { link := l }) h

namespace Serves

theorem idents (h : Serves p s rs vs s' ps) : ps.map Placement.ident = finishedNodesAll vs := by
  induction h with
  | nil => rfl
  | cons hps _ ih =>
    rw [List.map_append, ih, hps.idents]
    simp

theorem joinTexts_declarations (h : Serves p s rs vs s' ps) :
    joinTexts s'.pass.declarations =
      joinTexts (s.pass.declarations ++ ps.map Placement.text) := by
  induction h with
  | nil => simp
  | @cons s s₁ _ r _ _ _ t ps ps' hps _ ih =>
    have ht : joinTexts (if t = "" then [] else [t]) = joinTexts (ps.map Placement.text) := by
      rw [← hps.joinTexts_eq]
      split <;> simp_all
    have hd : (s₁.delivered r.ident.finalName t).pass.declarations =
        s.pass.declarations ++ if t = "" then [] else [t] := by
      rw [delivered_declarations, hps.declarations_eq, noted_pass]
    rw [ih, hd, List.map_append, ← List.append_assoc]
    exact joinTexts_append_congr (joinTexts_append_congr rfl ht) rfl

theorem declarations_ne_empty (h : Serves p s rs vs s' ps)
    (hs : ∀ t ∈ s.pass.declarations, t ≠ "") : ∀ t ∈ s'.pass.declarations, t ≠ "" := by
  induction h with
  | nil => exact hs
  | cons hps _ ih =>
    refine ih fun u hu => ?_
    rw [delivered_declarations, hps.declarations_eq, noted_pass, List.mem_append] at hu
    obtain hu | hu := hu
    · exact hs u hu
    · split at hu <;> simp_all

theorem places (h : Serves p s rs vs s' ps) :
    ∀ x ∈ ps, ∃ s₁, Places p x.session x.ident s₁ x.text := by
  induction h with
  | nil => simp
  | cons hps _ ih =>
    intro x hx
    obtain hx | hx := List.mem_append.1 hx
    · exact hps.places x hx
    · exact ih x hx

/-- What every step preserves holds at the end of a pass, and whenever a text is placed. -/
theorem invariant {I : List Ident → Session → Prop}
    (noted : ∀ done s r, I done s → I done (s.noted r))
    (delivered : ∀ done s n t, I done s → I done (s.delivered n t))
    (turnBack : ∀ done s i, I done s → I done (s.turnBack i))
    (start : ∀ done s i, I done s → I done ((s.start p i).announce p i))
    (addPostset : ∀ done s i, I done s → I done (s.addPostset p i))
    (finish : ∀ done s s' i t u, I done s → Places p s i s' t → I (done ++ [i]) (s'.conclude p i u))
    (h : Serves p s rs vs s' ps) (done : List Ident) (hs : I done s) :
    I (done ++ ps.map Placement.ident) s' ∧ Along I done ps := by
  induction h generalizing done with
  | nil => exact ⟨by simpa using hs, trivial⟩
  | cons hps _ ih =>
    obtain ⟨h₁, hx⟩ := hps.invariant turnBack start addPostset finish done (noted _ _ _ hs)
    obtain ⟨h₂, hx'⟩ := ih _ (delivered _ _ _ _ h₁)
    refine ⟨by simpa using h₂, ?_⟩
    rw [along_append]
    exact ⟨hx, hx'⟩

theorem statements_eq (hp : ∀ i, p.postset? i = none) (h : Serves p s rs vs s' ps) :
    s'.pass.statements = s.pass.statements := by
  refine (h.invariant (I := fun _ u => u.pass.statements = s.pass.statements) ?_ ?_ ?_ ?_ ?_ ?_
    [] rfl).1
  · exact fun _ u r hu => by rwa [noted_pass]
  · exact fun _ u n t hu => by rwa [delivered_statements]
  · exact fun _ u i hu => by rw [Pass.statements, turnBack_fragments]; exact hu
  · exact fun _ u i hu => by rw [Pass.statements, announce_fragments, start_fragments]; exact hu
  · exact fun _ u i hu => by simpa [addPostset, hp i] using hu
  · exact fun _ u u' i t w hu hp => hp.statements_eq.trans hu

theorem trace_prefix (h : Serves p s rs vs s' ps) : s.pass.trace <+: s'.pass.trace := by
  induction h with
  | nil => exact List.prefix_refl _
  | cons hps _ ih =>
    rw [delivered_trace] at ih
    exact hps.trace_prefix.1.trans ih

theorem ended_prefix (h : Serves p s rs vs s' ps) {x : Placement} (hx : x ∈ ps) :
    ∃ k, x.session.pass.trace ++ [.ended x.ident.finalName (p.outcome x.ident) k] <+:
      s'.pass.trace := by
  induction h with
  | nil => simp at hx
  | cons hps hss ih =>
    obtain hx | hx := List.mem_append.1 hx
    · obtain ⟨k, hk⟩ := hps.ended_prefix hx
      have hlast := hss.trace_prefix
      rw [delivered_trace] at hlast
      exact ⟨k, hk.trans hlast⟩
    · exact ih hx

theorem began_iff (h : Serves p s rs vs s' ps) :
    .began i n ∈ s'.pass.trace ↔
      .began i n ∈ s.pass.trace ∨ i ∈ expandedNodesAll vs ∧ n = i.finalName := by
  induction h with
  | nil => simp
  | cons hps _ ih =>
    rw [ih, delivered_trace, hps.began_iff, noted_pass, or_assoc, ← or_and_right]
    simp

end Serves

end Session

end CatalogLinker
