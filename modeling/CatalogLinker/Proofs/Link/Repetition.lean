import CatalogLinker.Proofs.Link.Assembly
import CatalogLinker.Proofs.Resolution.Repetition
import CatalogLinker.Proofs.Resolution.Signatures

namespace CatalogLinker

def Output.unsigned (o : Output) : Output :=
  { o with requestSigs := [] }

namespace Session

variable {p : Plan} {s s' s'' : Session} {r r' : Request} {rs rs' rs'' : List Request}

theorem requestAll_cons_of_ok (h : s.request p r = (s', .ok ())) :
    s.requestAll p (r :: rs) = s'.requestAll p rs := by
  rw [requestAll, h]

theorem requestAll_append (s : Session) (rs rs' : List Request) :
    s.requestAll p (rs ++ rs') =
      match s.requestAll p rs with
      | (s, .error e) => (s, .error e)
      | (s, .ok ()) => s.requestAll p rs' := by
  induction rs generalizing s with
  | nil => rfl
  | cons r rs ih =>
    rw [List.cons_append, requestAll, requestAll]
    cases s.request p r with
    | mk s₁ res =>
      cases res with
      | error e => rfl
      | ok _ => exact ih s₁

theorem requestAll_append_ok (h : s.requestAll p (rs ++ rs') = (s', .ok ())) :
    ∃ s₁, s.requestAll p rs = (s₁, .ok ()) ∧ s₁.requestAll p rs' = (s', .ok ()) := by
  rw [requestAll_append] at h
  split at h
  · simp at h
  · rename_i s₁ hs₁
    exact ⟨s₁, hs₁, h⟩

theorem requestAll_append_congr {β : Type} (f : Session × Except LinkError Unit → β)
    (h : ∀ s₁, s.requestAll p rs = (s₁, .ok ()) →
      f (s₁.requestAll p rs') = f (s₁.requestAll p rs'')) :
    f (s.requestAll p (rs ++ rs')) = f (s.requestAll p (rs ++ rs'')) := by
  rw [requestAll_append, requestAll_append]
  cases hs : s.requestAll p rs with
  | mk s₁ res =>
    cases res with
    | error e => rfl
    | ok _ => exact h s₁ hs

theorem request_again (h : s.request p r = (s', .ok ())) (hi : r'.ident = r.ident)
    (hs : Proceeds p s' s'') : s''.request p r' = (s''.noted r', .ok ()) := by
  obtain ⟨s₁, t, hres, rfl⟩ := request_ok h
  have hagain : (s''.noted r').resolve p r'.ident = (s''.noted r', .ok "") := by
    rw [hi]
    by_cases hm : r.ident.isMetadataKey
    · have hturn : (s''.noted r').turnBack r.ident = s''.noted r' := if_pos hm
      rw [resolve_of_turnsBack (.inl hm), hturn]
    · have hsettled : Settled r.ident.finalName s₁ := settled_of_resolve hm hres
      exact resolve_of_settled
        ((Proceeds.noted r' ((Proceeds.delivered _ t .refl).trans hs)).settled hsettled)
  rw [request_eq, hagain]
  simp [delivered]

theorem requestAll_drop (s : Session) (rs₁ rs₂ rs₃ : List Request) (hi : r'.ident = r.ident) :
    Prod.map unsigned id (s.requestAll p ((rs₁ ++ r :: rs₂) ++ rs₃)) =
      Prod.map unsigned id (s.requestAll p ((rs₁ ++ r :: rs₂) ++ r' :: rs₃)) := by
  refine requestAll_append_congr _ fun s₃ h => ?_
  obtain ⟨s₁, -, hrest⟩ := requestAll_append_ok h
  obtain ⟨s₂, hr, hrs₂⟩ := requestAll_cons_ok hrest
  have hlater : Proceeds p s₂ s₃ := by
    have hproceeds := maintains_proceeds.requestAll (p := p) (s := s₂) .refl rs₂
    rwa [hrs₂] at hproceeds
  rw [requestAll_cons_of_ok (request_again hr hi hlater)]
  exact requestAll_congr (unsigned_noted s₃ r').symm

end Session

theorem LinkState.runPass_congr_unsigned {p : Plan} {l l' : LinkState} {rs rs' : List Request}
    (h : Prod.map Session.unsigned id (Session.requestAll p { link := l } rs) =
      Prod.map Session.unsigned id (Session.requestAll p { link := l' } rs')) :
    (l.runPass p rs).map (Prod.map unsigned id) =
      (l'.runPass p rs').map (Prod.map unsigned id) := by
  obtain ⟨s, s', res, hs, hs', hunsigned⟩ := Session.exists_of_unsigned_eq h
  have hlink : s.link.unsigned = s'.link.unsigned := congrArg Session.link hunsigned
  have hpass : s.pass = s'.pass := (congrArg Session.pass hunsigned :)
  rw [runPass, runPass, hs, hs']
  cases res with
  | error e => rfl
  | ok _ =>
    dsimp only
    rw [hpass]
    cases s'.pass.finish with
    | error e => rfl
    | ok q => simp [Except.map, hlink]

section Repetition

variable {catalog : Catalog} {config : Config} {program : Program} {shell : Shell}

theorem link_congr_unsigned {rs : List Request}
    (h : ((LinkState.ofLists program.compiled config.exportedNames).runPass ⟨catalog, config⟩
        (rs ++ Link.defaultRequests ⟨catalog, config⟩)).map (Prod.map LinkState.unsigned id) =
      ((LinkState.ofLists program.compiled config.exportedNames).runPass ⟨catalog, config⟩
        (program.requests ++ Link.defaultRequests ⟨catalog, config⟩)).map
          (Prod.map LinkState.unsigned id)) :
    (link catalog config { program with requests := rs } shell).map Output.unsigned =
      (link catalog config program shell).map Output.unsigned := by
  unfold link
  cases hc : Link.conflict? config with
  | some e => rfl
  | none =>
    dsimp only
    refine map_bind_congr h ?_
    rintro ⟨l, q⟩ ⟨l', q'⟩ hmain
    obtain ⟨hl, rfl⟩ : l.unsigned = l'.unsigned ∧ q = q' := Prod.mk.inj hmain
    dsimp only
    refine map_bind_congr (LinkState.runPass_congr_unsigned (Session.requestAll_congr ?_)) ?_
    · exact congrArg (Session.mk · {}) hl
    · rintro ⟨k, q₂⟩ ⟨k', q₂'⟩ hglobals
      obtain ⟨hk, rfl⟩ : k.unsigned = k'.unsigned ∧ q₂ = q₂' := Prod.mk.inj hglobals
      obtain ⟨sigs, rfl⟩ : ∃ sigs, k = { k' with requestSigs := sigs } :=
        ⟨k.requestSigs, LinkState.eq_of_unsigned_eq hk⟩
      refine map_bind_congr (f := id) rfl ?_
      rintro text _ rfl
      rfl

/-- Once an identifier is resolved, nothing in the pass that resolves its name again has an effect;
the resolutions of the steps that follow, and those that they call, are among that. So a repeated
request can be dropped from a program, and its signature is all that a link misses. -/
theorem repetition_has_no_effect (catalog : Catalog) (config : Config) :
    (∀ (s : Session) (i : Ident) (s₁ : Session) (t : String), ¬i.isMetadataKey →
      s.resolve ⟨catalog, config⟩ i = (s₁, .ok t) →
      (∀ steps x, Session.Called ⟨catalog, config⟩ s₁ steps x →
        Session.Proceeds ⟨catalog, config⟩ s₁ x.1) ∧
      ∀ s₂, Session.Proceeds ⟨catalog, config⟩ s₁ s₂ → ∀ j : Ident, ¬j.isMetadataKey →
        j.finalName = i.finalName → s₂.resolve ⟨catalog, config⟩ j = (s₂, .ok "")) ∧
    ∀ (program : Program) (shell : Shell) (rs₁ rs₂ rs₃ : List Request) (r r' : Request),
      program.requests = rs₁ ++ r :: (rs₂ ++ r' :: rs₃) → r'.ident = r.ident →
      (link catalog config { program with requests := rs₁ ++ r :: (rs₂ ++ rs₃) } shell).map
          Output.unsigned =
        (link catalog config program shell).map Output.unsigned := by
  constructor
  · intro s i s₁ t hm h
    refine ⟨fun steps x hx => hx.proceeds, fun s₂ hs₂ j _ hj => ?_⟩
    have hsettled : Session.Settled i.finalName s₂ := hs₂.settled (Session.settled_of_resolve hm h)
    exact Session.resolve_of_settled (hj ▸ hsettled)
  · intro program shell rs₁ rs₂ rs₃ r r' hrs hi
    refine link_congr_unsigned (LinkState.runPass_congr_unsigned ?_)
    have hdrop := Session.requestAll_drop (p := ⟨catalog, config⟩)
      { link := .ofLists program.compiled config.exportedNames } rs₁ rs₂
      (rs₃ ++ Link.defaultRequests ⟨catalog, config⟩) hi
    simpa only [hrs, List.append_assoc, List.cons_append] using hdrop

def recurring : Catalog where
  items := [(⟨"f"⟩, { entry := some (.body "function() { return _g; }"), deps := [⟨"g"⟩] }),
    (⟨"g"⟩, { entry := some (.body "function() { return _f; }"), deps := [⟨"f"⟩] })]
  order := [⟨"f"⟩, ⟨"g"⟩]

/-- A program that requests a function twice, with different signatures. -/
def insistent : Program where
  requests := [⟨⟨"f"⟩, some .void, some []⟩, ⟨⟨"g"⟩, none, none⟩, ⟨⟨"f"⟩, some .i32, some [.i32]⟩]

theorem insistent_repetition :
    (∃ out out', link recurring {} insistent {} = .ok out ∧
      out.requestSigs = [(⟨"_f"⟩, "v"), (⟨"_f"⟩, "ii")] ∧
      link recurring {} { requests := [⟨⟨"f"⟩, some .void, some []⟩, ⟨⟨"g"⟩, none, none⟩] } {} =
        .ok out' ∧
      out'.requestSigs = [(⟨"_f"⟩, "v")] ∧ out'.unsigned = out.unsigned) ∧
    ∃ s₁ t s₂, Session.resolve ⟨recurring, {}⟩ { link := {} } ⟨"f"⟩ = (s₁, .ok t) ∧
      Session.Completes ⟨recurring, {}⟩ s₁ [.request ⟨⟨"g"⟩, none, none⟩] s₂ ∧
      s₂.resolve ⟨recurring, {}⟩ ⟨"$_f"⟩ = (s₂, .ok "") := by
  obtain ⟨hagain, hdrop⟩ := repetition_has_no_effect recurring {}
  constructor
  · obtain ⟨out, hout, hsigs⟩ : ∃ out, link recurring {} insistent {} = .ok out ∧
        out.requestSigs = [(⟨"_f"⟩, "v"), (⟨"_f"⟩, "ii")] :=
      exists_ok (by decide +kernel)
    obtain ⟨out', hout', hsigs'⟩ : ∃ out, link recurring {}
        { requests := [⟨⟨"f"⟩, some .void, some []⟩, ⟨⟨"g"⟩, none, none⟩] } {} = .ok out ∧
          out.requestSigs = [(⟨"_f"⟩, "v")] :=
      exists_ok (by decide +kernel)
    have hsame : Except.map Output.unsigned (.ok out' : Except LinkError Output) =
        Except.map Output.unsigned (.ok out) := by
      rw [← hout, ← hout']
      exact hdrop insistent {} [] [⟨⟨"g"⟩, none, none⟩] [] ⟨⟨"f"⟩, some .void, some []⟩
        ⟨⟨"f"⟩, some .i32, some [.i32]⟩ rfl rfl
    exact ⟨out, out', hout, hsigs, hout', hsigs', Except.ok.inj hsame⟩
  · have hf : Session.resolve ⟨recurring, {}⟩ { link := {} } ⟨"f"⟩ = (_, .ok _) :=
      Prod.ext rfl (by decide +kernel : _ = Except.ok
        "function _g() { return _f; }\nfunction _f() { return _g; }")
    have hg : Session.Completes ⟨recurring, {}⟩
        (Session.resolve ⟨recurring, {}⟩ { link := {} } ⟨"f"⟩).1 [.request ⟨⟨"g"⟩, none, none⟩] _ :=
      .cons (Session.perform_eq_ok (by decide +kernel)) (.nil _)
    exact ⟨_, _, _, hf, hg, (hagain _ _ _ _ (by decide) hf).2 _ hg.proceeds ⟨"$_f"⟩ (by decide)
      (by decide)⟩

end Repetition

end CatalogLinker
