import CatalogLinker.Proofs.Resolution.Progress

namespace CatalogLinker

namespace TraceEvent

def begunNames : List TraceEvent → List Name
  | [] => []
  | began _ n :: es => n :: begunNames es
  | ended _ _ _ :: es => begunNames es

def endedNames : List TraceEvent → List Name
  | [] => []
  | began _ _ :: es => endedNames es
  | ended n _ _ :: es => n :: endedNames es

inductive Nested : List TraceEvent → Prop
  | nil : Nested []
  | bracket {i : Ident} {o : Outcome} {k : Nat} {inner rest : List TraceEvent} :
      Nested inner → Nested rest →
      Nested (began i i.finalName :: (inner ++ ended i.finalName o k :: rest))

variable {es fs : List TraceEvent}

@[simp] theorem begunNames_append : begunNames (es ++ fs) = begunNames es ++ begunNames fs := by
  induction es with
  | nil => rfl
  | cons e es ih => cases e <;> simp [begunNames, ih]

@[simp] theorem endedNames_append : endedNames (es ++ fs) = endedNames es ++ endedNames fs := by
  induction es with
  | nil => rfl
  | cons e es ih => cases e <;> simp [endedNames, ih]

theorem Nested.append (he : Nested es) (hf : Nested fs) : Nested (es ++ fs) := by
  induction he with
  | nil => exact hf
  | bracket hi _ _ ih =>
    rw [List.cons_append, List.append_assoc, List.cons_append]
    exact .bracket hi ih

theorem Nested.endedNames_perm (h : Nested es) : (endedNames es).Perm (begunNames es) := by
  induction h with
  | nil => exact List.Perm.nil
  | @bracket i _ _ inner rest _ _ ihi ihr =>
    simp only [begunNames, endedNames, begunNames_append, endedNames_append]
    exact List.perm_middle.trans ((ihi.append ihr).cons i.finalName)

end TraceEvent

open TraceEvent

namespace Session

variable (p : Plan)

/-- Each beginning among events is that of a resolution of `R`, and is closed by the end of that
resolution, which has the length of the text that it returns. The events come after those of
`before`. -/
def Closed (R : Session × Ident → Prop) (before events : List TraceEvent) : Prop :=
  ∀ earlier i n later, events = earlier ++ .began i n :: later →
    ∃ s s' t inner after, R (s, i) ∧ s.pass.trace = before ++ earlier ∧
      s.resolve p i = (s', .ok t) ∧ n = i.finalName ∧ Nested inner ∧
      later = inner ++ .ended n (p.outcome i) t.utf8ByteSize :: after ∧
      s'.pass.trace =
        before ++ (earlier ++ .began i n :: (inner ++ [.ended n (p.outcome i) t.utf8ByteSize]))

def Tells (R : Session × Ident → Prop) (s s' : Session) : Prop :=
  ∃ events, s'.pass.trace = s.pass.trace ++ events ∧ Nested events ∧
    Closed p R s.pass.trace events

inductive Completes : Session → List Step → Session → Prop
  | nil (s : Session) : Completes s [] s
  | cons {s s₁ s' : Session} {step : Step} {steps : List Step} :
      s.perform p step = (s₁, .ok ()) → Completes s₁ steps s' → Completes s (step :: steps) s'

def Step.call (s : Session) : Step → Session × Ident
  | .resolve i => (s, i)
  | .request r => (s.noted r, r.ident)

def Called (s : Session) (steps : List Step) (x : Session × Ident) : Prop :=
  ∃ before step after s₁, steps = before ++ step :: after ∧ Completes p s before s₁ ∧
    Relation.ReflTransGen (Calls p) (step.call s₁) x

variable {p} {s s' s₁ : Session} {i : Ident} {is : List Ident} {t : String} {ts : List String}
  {R R' : Session × Ident → Prop} {before es fs : List TraceEvent} {step : Step} {steps : List Step}

section Once

def BegunOnce (s : Session) : Prop :=
  (begunNames s.pass.trace).Nodup ∧ ∀ n ∈ begunNames s.pass.trace, n ∈ s.pass.resolved

theorem BegunOnce.start (ht : ¬s.TurnsBack i) (h : BegunOnce s) : BegunOnce (s.start p i) := by
  obtain ⟨hnodup, hmem⟩ := h
  have hnew : i.finalName ∉ begunNames s.pass.trace := fun hn => ht (.inr (.inr (hmem _ hn)))
  rw [BegunOnce, start_trace, begunNames_append]
  constructor
  · rw [List.nodup_append_comm]
    exact List.nodup_cons.2 ⟨hnew, hnodup⟩
  · intro n hn
    rw [mem_start_resolved]
    rw [List.mem_append, begunNames, begunNames, List.mem_singleton] at hn
    exact hn.imp_left (hmem n)

theorem maintains_begunOnce : Maintains p fun _ s => BegunOnce s where
  noted _ h := h
  delivered n t h := by rwa [BegunOnce, delivered_trace, delivered_resolved]
  turnBack i h := by
    rw [BegunOnce, turnBack_trace]
    exact ⟨h.1, fun n hn => (mem_turnBack_resolved _ _).2 (.inl (h.2 n hn))⟩
  start ht h := h.start ht
  announce ht h := by
    rw [BegunOnce, announce_trace, announce_resolved]
    exact h.start ht
  addPostset i h := by rwa [BegunOnce, addPostset_trace, addPostset_resolved]
  finish u h hp := by
    rw [BegunOnce, conclude_trace, conclude_resolved, hp.trace_eq, hp.resolved_eq,
      begunNames_append, begunNames, begunNames, List.append_nil]
    exact h
  abandon h := h

theorem begun_nodup {l : LinkState} {x : Progress}
    (h : Progress.Reaches p { session := { link := l } } x) :
    (begunNames x.session.pass.trace).Nodup := by
  have hempty : ∀ l : LinkState, BegunOnce { link := l } := fun l =>
    ⟨List.nodup_nil, fun n hn => absurd hn List.not_mem_nil⟩
  exact (h.maintained (J := fun _ _ s => BegunOnce s) (fun _ => maintains_begunOnce)
    (fun _ s _ => hempty s.link) (hempty l)).1

end Once

section Answered

theorem maintains_trace_prefix : Maintains p fun _ s => es <+: s.pass.trace where
  noted _ h := h
  delivered n t h := by rwa [delivered_trace]
  turnBack i h := by rwa [turnBack_trace]
  start _ h := by
    rw [start_trace]
    exact h.trans (List.prefix_append _ _)
  announce _ h := by
    rw [announce_trace, start_trace]
    exact h.trans (List.prefix_append _ _)
  addPostset i h := by rwa [addPostset_trace]
  finish u h hp := by
    rw [conclude_trace, hp.trace_eq]
    exact h.trans (List.prefix_append _ _)
  abandon h := h

theorem began_prefix (ht : ¬s.TurnsBack i) :
    s.pass.trace ++ [.began i i.finalName] <+: (s.resolve p i).1.pass.trace := by
  have hdeps : s.pass.trace ++ [.began i i.finalName] <+:
      (((s.start p i).announce p i).resolveAll p (p.deps i)).1.pass.trace := by
    refine resolveAll_keeps (K := fun u => _ <+: u.pass.trace) ?_ fun _ d _ s₁ _ _ _ h => ?_
    · exact (announce_trace p _ i).trans (start_trace p s i) ▸ List.prefix_rfl
    · exact maintains_trace_prefix.resolve (s₁, d) [] h
  cases hr : s.resolve p i with
  | mk s' r =>
    cases resolves s i hr with
    | turnedBack h => exact absurd h ht
    | unreadable _ _ => exact start_trace p s i ▸ List.prefix_rfl
    | interrupted _ _ hd => rwa [hd] at hdeps
    | unplaced _ _ hd =>
      rw [hd] at hdeps
      rwa [addPostset_trace]
    | completed _ _ hd hp =>
      rw [hd] at hdeps
      rw [conclude_trace, hp.trace_eq, addPostset_trace]
      exact hdeps.trans (List.prefix_append _ _)

end Answered

section Closed

theorem closed_nil : Closed p R before [] := by
  intro earlier i n later h
  simp at h

theorem closed_ended {n : Name} {o : Outcome} {k : Nat} : Closed p R before [.ended n o k] := by
  intro earlier i m later h
  have hmem : TraceEvent.began i m ∈ [TraceEvent.ended n o k] := by rw [h]; simp
  simp at hmem

theorem Closed.mono (h : Closed p R before es) (hR : ∀ x, R x → R' x) : Closed p R' before es := by
  intro earlier i n later hs
  obtain ⟨s, s', t, inner, after, hr, rest⟩ := h earlier i n later hs
  exact ⟨s, s', t, inner, after, hR _ hr, rest⟩

theorem Closed.append (he : Closed p R before es) (hf : Closed p R (before ++ es) fs) :
    Closed p R before (es ++ fs) := by
  intro earlier i n later hs
  obtain ⟨more, rfl, hfs⟩ | ⟨more, rfl, hl⟩ := List.append_eq_append_iff.1 hs
  · obtain ⟨s, s', t, inner, after, hr, htr, hres, hn, hnest, hlater, hend⟩ := hf more i n later hfs
    exact ⟨s, s', t, inner, after, hr, by simpa using htr, hres, hn, hnest, hlater,
      by simpa using hend⟩
  · cases more with
    | nil =>
      obtain ⟨s, s', t, inner, after, hr, htr, hres, hn, hnest, hlater, hend⟩ :=
        hf [] i n later hl.symm
      exact ⟨s, s', t, inner, after, hr, by simpa using htr, hres, hn, hnest, hlater,
        by simpa using hend⟩
    | cons e more =>
      obtain ⟨rfl, rfl⟩ := List.cons.inj hl
      obtain ⟨s, s', t, inner, after, hr, htr, hres, hn, hnest, hlater, hend⟩ :=
        he earlier i n more rfl
      refine ⟨s, s', t, inner, after ++ fs, hr, htr, hres, hn, hnest, ?_, hend⟩
      simp [hlater]

theorem Closed.around (hR : R (s, i)) (htr : s.pass.trace = before)
    (hres : s.resolve p i = (s', .ok t)) (hn : Nested es)
    (hend : s'.pass.trace = before ++ .began i i.finalName ::
      (es ++ [.ended i.finalName (p.outcome i) t.utf8ByteSize]))
    (h : Closed p R (before ++ [.began i i.finalName]) es) :
    Closed p R before (.began i i.finalName ::
      (es ++ [.ended i.finalName (p.outcome i) t.utf8ByteSize])) := by
  intro earlier j n later hs
  cases earlier with
  | nil =>
    obtain ⟨hj, rfl⟩ := List.cons.inj hs
    obtain ⟨rfl, rfl⟩ := TraceEvent.began.inj hj
    exact ⟨s, s', t, es, [], hR, by simpa using htr, hres, rfl, hn, rfl, hend⟩
  | cons e earlier =>
    obtain ⟨rfl, htail⟩ := List.cons.inj hs
    obtain ⟨s₁, s₂, u, inner, after, hr, htr', rest⟩ :=
      (h.append closed_ended) earlier j n later htail
    exact ⟨s₁, s₂, u, inner, after, hr, by simpa using htr', by simpa using rest⟩

namespace Tells

theorem of_eq (h : s'.pass.trace = s.pass.trace) : Tells p R s s' :=
  ⟨[], by rw [h, List.append_nil], .nil, closed_nil⟩

theorem mono (h : Tells p R s s') (hR : ∀ x, R x → R' x) : Tells p R' s s' := by
  obtain ⟨es, htr, hn, hc⟩ := h
  exact ⟨es, htr, hn, hc.mono hR⟩

theorem trans (h : Tells p R s s₁) (h' : Tells p R s₁ s') : Tells p R s s' := by
  obtain ⟨es, htr, hn, hc⟩ := h
  obtain ⟨fs, htr', hn', hc'⟩ := h'
  rw [htr] at htr' hc'
  exact ⟨es ++ fs, by rw [htr', List.append_assoc], hn.append hn', hc.append hc'⟩

theorem congr {u u' : Session} (h : Tells p R s s') (hs : s.pass.trace = u.pass.trace)
    (hs' : u'.pass.trace = s'.pass.trace) : Tells p R u u' := by
  rw [Tells] at *
  rwa [hs', ← hs]

end Tells

end Closed

theorem resolveAll_ok_keeps {K : Session → Prop} (hs : K s)
    (h : ∀ before d after s₁ ts s₂ t, is = before ++ d :: after →
      s.resolveAll p before = (s₁, .ok ts) → K s₁ → s₁.resolve p d = (s₂, .ok t) → K s₂)
    (hr : s.resolveAll p is = (s', .ok ts)) : K s' := by
  induction is generalizing s ts with
  | nil =>
    obtain ⟨rfl, -⟩ := resolveAll_nil_ok hr
    exact hs
  | cons i is ih =>
    obtain ⟨s₁, t, us, hi, hrest⟩ := resolveAll_cons_inv hr
    have hs₁ : K s₁ := h [] i is s [] s₁ t rfl rfl hs hi
    refine ih hs₁ (fun before d after s₂ us s₃ u his hb hs₂ hd => ?_) hrest
    exact h (i :: before) d after s₂ (t :: us) s₃ u (by rw [his, List.cons_append])
      (resolveAll_cons_ok hi hb) hs₂ hd

/-- The events of a resolution that does not fail nest and are closed. -/
theorem tells_of_resolve (x : Session × Ident) (h : x.1.resolve p x.2 = (s', .ok t)) :
    Tells p (Relation.ReflTransGen (Calls p) x) x.1 s' := by
  induction x using (wellFounded_calls p).induction generalizing s' t with
  | _ x ih =>
    obtain ⟨s, i⟩ := x
    cases resolves s i h with
    | turnedBack _ => exact .of_eq (turnBack_trace s i)
    | @completed own s₁ s₂ ts u ht ho hd hp =>
      -- The events below those of the resolution itself are those of its calls, in turn.
      have hcalls : Tells p (Relation.ReflTransGen (Calls p) (s, i))
          ((s.start p i).announce p i) s₁ := by
        refine resolveAll_ok_keeps (.of_eq rfl) ?_ hd
        intro before d after s₃ us s₄ v hdeps hb h₃ hv
        have hcall : Calls p (s, i) (s₃, d) := .dependency ht ho hdeps hb
        exact h₃.trans ((ih (s₃, d) hcall hv).mono fun y hy => .head hcall hy)
      obtain ⟨inner, htr, hn, hc⟩ := hcalls
      rw [announce_trace, start_trace] at htr hc
      have hend : (s₂.conclude p i (joinTexts (ts ++ [u]))).pass.trace =
          s.pass.trace ++ .began i i.finalName ::
            (inner ++ [.ended i.finalName (p.outcome i) (joinTexts (ts ++ [u])).utf8ByteSize]) := by
        rw [conclude_trace, hp.trace_eq, addPostset_trace, htr]
        simp
      exact ⟨_, hend, .bracket hn .nil, .around .refl rfl h hn hend hc⟩

theorem perform_ok (h : s.perform p step = (s', .ok ())) :
    ∃ s₁ t, (step.call s).1.resolve p (step.call s).2 = (s₁, .ok t) ∧
      (step.call s).1.pass.trace = s.pass.trace ∧ s'.pass.trace = s₁.pass.trace := by
  cases step with
  | resolve i =>
    rw [perform] at h
    cases hr : s.resolve p i with
    | mk s₁ r =>
      rw [hr] at h
      cases r with
      | error e => simp at h
      | ok t =>
        obtain ⟨rfl, -⟩ := Prod.mk.inj h
        exact ⟨s₁, t, hr, rfl, rfl⟩
  | request r =>
    obtain ⟨s₁, t, hr, rfl⟩ := request_ok h
    exact ⟨s₁, t, hr, rfl, delivered_trace⟩

theorem perform_eq_ok (h : (s.perform p step).2.isOk) :
    s.perform p step = ((s.perform p step).1, .ok ()) := by
  cases hr : s.perform p step with
  | mk s' res =>
    rw [hr] at h
    cases res with
    | error e => simp [Except.isOk, Except.toBool] at h
    | ok _ => rfl

theorem Completes.reaches (h : Completes p s steps s') (past : List Pass) :
    Progress.Reaches p ⟨past, s⟩ ⟨past, s'⟩ := by
  induction h with
  | nil s => exact .refl
  | @cons s s₁ s' step steps hstep _ ih =>
    have hadv : Progress.Advances p ⟨past, s⟩ ⟨past, (s.perform p step).1⟩ := .step _ step
    rw [hstep] at hadv
    exact .head hadv ih

theorem Called.head (h : Relation.ReflTransGen (Calls p) (step.call s) x) :
    Called p s (step :: steps) x :=
  ⟨[], step, steps, s, rfl, .nil s, h⟩

theorem Completes.tells (h : Completes p s steps s') : Tells p (Called p s steps) s s' := by
  induction h with
  | nil s => exact .of_eq rfl
  | @cons s s₁ s' step steps hstep _ ih =>
    obtain ⟨s₂, t, hr, htr, htr'⟩ := perform_ok hstep
    have hfirst : Tells p (Called p s (step :: steps)) s s₁ :=
      ((tells_of_resolve _ hr).congr htr htr').mono fun x hx => .head hx
    refine hfirst.trans (ih.mono ?_)
    rintro x ⟨before, step', after, s₃, rfl, hb, hx⟩
    exact ⟨step :: before, step', after, s₃, rfl, .cons hstep hb, hx⟩

/-- Resolutions come to an end, however the dependencies run in circles. What turns back is not
traced, and what does not begins, each name at most once in a pass. In a pass without failures the
trace nests, and each beginning is closed by the end of its resolution, with the length of the text
that the resolution returns. -/
theorem resolutions_traced (p : Plan) (l : LinkState) :
    (WellFounded fun y x => Calls p x y) ∧
    (∀ (s : Session) i, s.TurnsBack i →
      (s.resolve p i).2 = .ok "" ∧ (s.resolve p i).1.pass.trace = s.pass.trace) ∧
    (∀ (s : Session) i, ¬s.TurnsBack i →
      s.pass.trace ++ [.began i i.finalName] <+: (s.resolve p i).1.pass.trace) ∧
    (∀ x, Progress.Reaches p { session := { link := l } } x →
      (begunNames x.session.pass.trace).Nodup) ∧
    ∀ steps s, Completes p { link := l } steps s →
      Nested s.pass.trace ∧ (endedNames s.pass.trace).Nodup ∧
      (endedNames s.pass.trace).Perm (begunNames s.pass.trace) ∧
      Closed p (Called p { link := l } steps) [] s.pass.trace := by
  refine ⟨wellFounded_calls p, fun s i ht => ?_, fun s i ht => began_prefix ht,
    fun x hx => begun_nodup hx, fun steps s hs => ?_⟩
  · rw [resolve_of_turnsBack ht]
    exact ⟨rfl, turnBack_trace s i⟩
  · obtain ⟨events, htr, hn, hc⟩ := hs.tells
    obtain rfl : s.pass.trace = events := by simpa using htr
    have hbegun : (begunNames s.pass.trace).Nodup := begun_nodup (hs.reaches [])
    exact ⟨hn, hn.endedNames_perm.nodup_iff.2 hbegun, hn.endedNames_perm, hc⟩

/-- A value that depends on itself, and two names that are aliases of each other. -/
def circular : Plan where
  catalog := {
    items := [(⟨"a"⟩, { entry := some (.raw "1"), deps := [⟨"a"⟩, ⟨"b"⟩] }),
      (⟨"b"⟩, { entry := some (.aliasOf ⟨"c"⟩) }), (⟨"c"⟩, { entry := some (.aliasOf ⟨"b"⟩) })]
    order := [⟨"a"⟩, ⟨"b"⟩, ⟨"c"⟩] }
  config := {}

theorem circular_traced :
    ∃ s, Completes circular { link := {} } [.resolve ⟨"a"⟩, .request ⟨⟨"c"⟩, none, none⟩] s ∧
      s.pass.trace = [.began ⟨"a"⟩ ⟨"_a"⟩, .began ⟨"b"⟩ ⟨"_b"⟩, .began ⟨"c"⟩ ⟨"_c"⟩,
        .ended ⟨"_c"⟩ .catalogEntry 10, .ended ⟨"_b"⟩ .catalogEntry 21,
        .ended ⟨"_a"⟩ .catalogEntry 31] ∧
      Nested s.pass.trace ∧
      Closed circular (Called circular { link := {} }
        [.resolve ⟨"a"⟩, .request ⟨⟨"c"⟩, none, none⟩]) [] s.pass.trace := by
  have h : Completes circular { link := {} } [.resolve ⟨"a"⟩, .request ⟨⟨"c"⟩, none, none⟩] _ :=
    .cons (perform_eq_ok (by decide +kernel)) (.cons (perform_eq_ok (by decide +kernel)) (.nil _))
  obtain ⟨-, -, -, -, hsteps⟩ := resolutions_traced circular {}
  obtain ⟨hn, -, -, hc⟩ := hsteps _ _ h
  exact ⟨_, h, by decide +kernel, hn, hc⟩

end Session

end CatalogLinker
