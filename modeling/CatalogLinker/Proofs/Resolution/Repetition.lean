import CatalogLinker.Proofs.Resolution.Trace

namespace CatalogLinker

namespace Session

inductive Proceeds (p : Plan) (s : Session) : Session → Prop
  | refl : Proceeds p s s
  | noted {s' : Session} (r : Request) : Proceeds p s s' → Proceeds p s (s'.noted r)
  | delivered {s' : Session} (n : Name) (t : String) : Proceeds p s s' →
      Proceeds p s (s'.delivered n t)
  | turnBack {s' : Session} (i : Ident) : Proceeds p s s' → Proceeds p s (s'.turnBack i)
  | start {s' : Session} (i : Ident) : Proceeds p s s' → Proceeds p s (s'.start p i)
  | announce {s' : Session} (i : Ident) : Proceeds p s s' → Proceeds p s (s'.announce p i)
  | addPostset {s' : Session} (i : Ident) : Proceeds p s s' → Proceeds p s (s'.addPostset p i)
  | finish {s' s'' : Session} {i : Ident} {t : String} (u : String) : Proceeds p s s' →
      Places p s' i s'' t → Proceeds p s (s''.conclude p i u)

def Settled (n : Name) (s : Session) : Prop :=
  (n ∈ s.link.compiled ∧ s.link.exports.contains n) ∨ (n ∉ s.link.compiled ∧ n ∈ s.pass.resolved)

variable {p : Plan} {s s' s'' : Session} {i : Ident} {is : List Ident} {n : Name} {t : String}
  {steps : List Step} {x y : Session × Ident}

section Proceeds

theorem Proceeds.trans (h : Proceeds p s s') (h' : Proceeds p s' s'') : Proceeds p s s'' := by
  induction h' with
  | refl => exact h
  | noted r _ ih => exact .noted r ih
  | delivered n t _ ih => exact .delivered n t ih
  | turnBack i _ ih => exact .turnBack i ih
  | start i _ ih => exact .start i ih
  | announce i _ ih => exact .announce i ih
  | addPostset i _ ih => exact .addPostset i ih
  | finish u _ hp ih => exact .finish u ih hp

theorem maintains_proceeds : Maintains p fun _ s' => Proceeds p s s' where
  noted r h := .noted r h
  delivered n t h := .delivered n t h
  turnBack i h := .turnBack i h
  start _ h := .start _ h
  announce _ h := .announce _ (.start _ h)
  addPostset i h := .addPostset i h
  finish u h hp := .finish u h hp
  abandon h := h

theorem proceeds_resolveAll (s : Session) (is : List Ident) :
    Proceeds p s (s.resolveAll p is).1 :=
  resolveAll_keeps .refl fun _ d _ s₁ _ _ _ h => maintains_proceeds.resolve (s₁, d) [] h

theorem Calls.proceeds (h : Calls p x y) : Proceeds p x.1 y.1 := by
  cases h with
  | @dependency s s₁ i d before _ _ ts _ _ _ hr =>
    have hdeps := proceeds_resolveAll (p := p) ((s.start p i).announce p i) before
    rw [hr] at hdeps
    exact (Proceeds.announce i (.start i .refl)).trans hdeps

theorem Completes.proceeds (h : Completes p s steps s') : Proceeds p s s' := by
  induction h with
  | nil => exact .refl
  | @cons s s₁ _ step _ hstep _ ih =>
    have hs₁ : Proceeds p s (s.perform p step).1 := maintains_proceeds.perform .refl step
    rw [hstep] at hs₁
    exact hs₁.trans ih

theorem Called.proceeds (h : Called p s steps x) : Proceeds p s x.1 := by
  obtain ⟨before, step, after, s₁, -, hbefore, hcalls⟩ := h
  have hcall : Proceeds p s₁ (step.call s₁).1 := by
    cases step with
    | resolve i => exact .refl
    | request r => exact .noted r .refl
  refine (hbefore.proceeds.trans hcall).trans ?_
  induction hcalls with
  | refl => exact .refl
  | tail _ hxy ih => exact ih.trans hxy.proceeds

end Proceeds

section Settled

theorem Settled.frame (h : Settled n s) (hc : s'.link.compiled = s.link.compiled)
    (he : s.link.exports.contains n → s'.link.exports.contains n)
    (hr : n ∈ s.pass.resolved → n ∈ s'.pass.resolved) : Settled n s' := by
  rw [Settled, hc]
  exact h.imp (.imp_right he) (.imp_right hr)

theorem Proceeds.settled (h : Proceeds p s s') (hs : Settled n s) : Settled n s' := by
  induction h with
  | refl => exact hs
  | noted r _ ih => exact ih.frame noted_compiled (by rw [noted_exports]; exact id) id
  | delivered n t _ ih =>
    exact ih.frame (by rw [delivered_link]) (by rw [delivered_link]; exact id)
      (by rw [delivered_resolved]; exact id)
  | turnBack i _ ih =>
    exact ih.frame (turnBack_compiled _ i) (fun hn => (mem_turnBack_exports _ i).2 (.inl hn))
      fun hn => (mem_turnBack_resolved _ i).2 (.inl hn)
  | start i _ ih => exact ih.frame rfl id fun hn => (mem_start_resolved p _ i).2 (.inl hn)
  | announce i _ ih =>
    exact ih.frame (announce_compiled p _ i) (fun hn => (mem_announce_exports p _ i).2 (.inl hn)) id
  | addPostset i _ ih =>
    exact ih.frame (by rw [addPostset_link]) (by rw [addPostset_link]; exact id)
      (by rw [addPostset_resolved]; exact id)
  | finish u _ hp ih =>
    refine ih.frame hp.compiled_eq (fun hn => ?_) fun hn => ?_
    · exact (mem_conclude_exports p _ _ u).2 (.inl (hp.exports_eq ▸ hn))
    · rwa [conclude_resolved, hp.resolved_eq]

theorem settled_turnBack (hm : ¬i.isMetadataKey) : Settled i.finalName (s.turnBack i) := by
  rw [Settled, turnBack_compiled, mem_turnBack_exports, mem_turnBack_resolved, LinkState.isCompiled,
    List.contains_iff_mem]
  by_cases hc : i.finalName ∈ s.link.compiled
  · exact .inl ⟨hc, .inr ⟨hm, hc, rfl⟩⟩
  · exact .inr ⟨hc, .inr ⟨hm, hc, rfl⟩⟩

theorem settled_of_resolve (hm : ¬i.isMetadataKey) (h : s.resolve p i = (s', .ok t)) :
    Settled i.finalName s' := by
  cases resolves s i h with
  | turnedBack _ => exact settled_turnBack hm
  | @completed own s₁ s₂ ts u ht _ hd hp =>
    have hopen : i.finalName ∉ s.link.compiled := fun hc =>
      ht (.inr (.inl ((isClosed_iff s i.finalName).2 (.inl hc))))
    have hstart : Settled i.finalName ((s.start p i).announce p i) := by
      refine .inr ⟨?_, (mem_start_resolved p s i).2 (.inr rfl)⟩
      rwa [announce_compiled, start_link]
    have hdeps := proceeds_resolveAll (p := p) ((s.start p i).announce p i) (p.deps i)
    rw [hd] at hdeps
    exact (Proceeds.finish _ (.addPostset i hdeps) hp).settled hstart

theorem turnBack_of_settled (h : Settled i.finalName s) : s.turnBack i = s := by
  have hiff : s.link.isCompiled i.finalName ↔ i.finalName ∈ s.link.compiled :=
    List.contains_iff_mem
  rw [turnBack]
  split_ifs with hm hc
  · rfl
  · have he := (h.resolve_right fun hr => hr.1 (hiff.1 hc)).2
    have hexport : s.link.exports.request i.finalName = s.link.exports :=
      if_pos he
    rw [LinkState.requestExport, hexport]
  · have hr := (h.resolve_left fun he => hc (hiff.2 he.1)).2
    have hmark : s.pass.markResolved i.finalName = s.pass := if_pos (List.contains_iff_mem.2 hr)
    rw [hmark]

theorem resolve_of_settled (h : Settled i.finalName s) : s.resolve p i = (s, .ok "") := by
  have ht : s.TurnsBack i := by
    obtain ⟨hc, -⟩ | ⟨-, hr⟩ := h
    · exact .inr (.inl ((isClosed_iff s i.finalName).2 (.inl hc)))
    · exact .inr (.inr hr)
  rw [resolve_of_turnsBack ht, turnBack_of_settled h]

end Settled

end Session

end CatalogLinker
