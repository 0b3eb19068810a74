import CatalogLinker.Proofs.Resolution.Progress
import Mathlib.Data.Set.Defs

namespace CatalogLinker

def Pass.silent (q : Pass) : Pass :=
  { q with undefined := [], notices := [] }

namespace Pass

variable (q : Pass)

theorem silent_markResolved (n : Name) : (q.markResolved n).silent = q.silent.markResolved n := by
  unfold markResolved
  split <;> rename_i h
  · exact (if_pos h).symm
  · exact (if_neg h).symm

theorem silent_markPostset (i : Ident) : (q.markPostset i).silent = q.silent.markPostset i := by
  unfold markPostset
  split <;> rename_i h
  · exact (if_pos h).symm
  · exact (if_neg h).symm

theorem silent_emit (f : Fragment) : (q.emit f).silent = q.silent.emit f := rfl

variable {q} {q' : Pass}

theorem eq_of_silent_eq (h : q.silent = q'.silent) (hu : q.undefined = q'.undefined)
    (hn : q.notices = q'.notices) : q = q' := by
  obtain ⟨resolved, postsets, undefined, fragments, notices, trace⟩ := q
  obtain ⟨resolved', postsets', undefined', fragments', notices', trace'⟩ := q'
  simp only [silent, Pass.mk.injEq] at h hu hn ⊢
  tauto

end Pass

/-- Two plans that make the same of the identifiers of `M`, and that are led by them to identifiers
of `M` only. They may differ in what they report. -/
structure Plan.EmitAlike (p q : Plan) (M : Set Ident) : Prop where
  exportAll_eq : p.config.exportAll = q.config.exportAll
  mem_of_mem_deps : ∀ {i d}, i ∈ M → d ∈ p.deps i → d ∈ M
  deps_eq : ∀ {i}, i ∈ M → p.deps i = q.deps i
  outcome_eq : ∀ {i}, i ∈ M → p.outcome i = q.outcome i
  ownText_eq : ∀ {i}, i ∈ M → p.ownText i = q.ownText i
  isLibraryFn_eq : ∀ {i}, i ∈ M → p.isLibraryFn i = q.isLibraryFn i
  autoexports_eq : ∀ {i}, i ∈ M → p.autoexports i = q.autoexports i
  compiledDeps_eq : ∀ {i}, i ∈ M → p.compiledDeps i = q.compiledDeps i
  proxyMode?_eq : ∀ {i}, i ∈ M → p.proxyMode? i = q.proxyMode? i
  compiledSig?_eq : ∀ {i}, i ∈ M → p.compiledSig? i = q.compiledSig? i
  postset?_eq : ∀ {i}, i ∈ M → p.postset? i = q.postset? i

namespace Session

/-- Two sessions that differ in what they report at most, and have begun identifiers of `M` only. -/
structure InStep (M : Set Ident) (s s' : Session) : Prop where
  link_eq : s.link = s'.link
  silent_eq : s.pass.silent = s'.pass.silent
  begun_mem : ∀ i ∈ s.pass.begun, i ∈ M

def Concur {α : Type} (M : Set Ident) (x y : Session × Except LinkError α) : Prop :=
  x.2 = y.2 ∧ InStep M x.1 y.1

variable {p q : Plan} {M : Set Ident} {s s' : Session} {i : Ident} {is : List Ident}

namespace InStep

section Fields

variable (h : InStep M s s')
include h

theorem resolved_eq : s.pass.resolved = s'.pass.resolved :=
  (congrArg Pass.resolved h.silent_eq :)

theorem hasPostset_eq : s.pass.hasPostset i = s'.pass.hasPostset i :=
  (congrArg (Pass.hasPostset · i) h.silent_eq :)

theorem fragments_eq : s.pass.fragments = s'.pass.fragments :=
  (congrArg Pass.fragments h.silent_eq :)

theorem begun_eq : s.pass.begun = s'.pass.begun :=
  (congrArg Pass.begun h.silent_eq :)

theorem turnsBack_iff : s.TurnsBack i ↔ s'.TurnsBack i := by
  rw [TurnsBack, TurnsBack, isClosed, isClosed, h.link_eq, h.resolved_eq]

end Fields

theorem refl_of_fresh (M : Set Ident) (l : LinkState) : InStep M { link := l } { link := l } :=
  ⟨rfl, rfl, by simp [Pass.begun]⟩

theorem noted (h : InStep M s s') (r : Request) : InStep M (s.noted r) (s'.noted r) where
  link_eq := by rw [Session.noted, Session.noted, h.link_eq]
  silent_eq := h.silent_eq
  begun_mem := h.begun_mem

theorem delivered (h : InStep M s s') (n : Name) (t : String) :
    InStep M (s.delivered n t) (s'.delivered n t) where
  link_eq := by rw [delivered_link, delivered_link, h.link_eq]
  silent_eq := by
    rw [Session.delivered, Session.delivered, h.link_eq]
    split
    · exact h.silent_eq
    · exact congrArg (Pass.emit · _) h.silent_eq
  begun_mem := by
    rw [Pass.begun, delivered_trace]
    exact h.begun_mem

theorem turnBack (h : InStep M s s') (i : Ident) : InStep M (s.turnBack i) (s'.turnBack i) where
  link_eq := by
    unfold Session.turnBack
    rw [h.link_eq]
    split_ifs <;> first | exact h.link_eq | rfl
  silent_eq := by
    unfold Session.turnBack
    rw [h.link_eq]
    split_ifs
    · exact h.silent_eq
    · exact h.silent_eq
    · dsimp only
      rw [Pass.silent_markResolved, Pass.silent_markResolved, h.silent_eq]
  begun_mem := by
    rw [Pass.begun, turnBack_trace]
    exact h.begun_mem

theorem start (h : InStep M s s') (hi : i ∈ M) : InStep M (s.start p i) (s'.start q i) where
  link_eq := h.link_eq
  silent_eq := by
    have hsilent : ∀ (p : Plan) (s : Session), (s.start p i).pass.silent =
        (s.pass.silent.markResolved i.finalName).record (.began i i.finalName) := by
      intro p s
      rw [← Pass.silent_markResolved, Session.start]
      dsimp only
      split <;> rfl
    rw [hsilent, hsilent, h.silent_eq]
  begun_mem := by
    rw [Pass.begun, start_trace, List.filterMap_append]
    intro j hj
    obtain hj | hj := List.mem_append.1 hj
    · exact h.begun_mem j hj
    · obtain rfl : j = i := by simpa [TraceEvent.begun?] using hj
      exact hi

theorem announce (hpq : p.EmitAlike q M) (h : InStep M s s') (hi : i ∈ M) :
    InStep M (s.announce p i) (s'.announce q i) where
  link_eq := by
    simp only [Session.announce]
    rw [h.link_eq, hpq.isLibraryFn_eq hi, hpq.autoexports_eq hi]
  silent_eq := h.silent_eq
  begun_mem := h.begun_mem

theorem addPostset (hpq : p.EmitAlike q M) (h : InStep M s s') (hi : i ∈ M) :
    InStep M (s.addPostset p i) (s'.addPostset q i) where
  link_eq := by rw [addPostset_link, addPostset_link, h.link_eq]
  silent_eq := by
    simp only [Session.addPostset]
    rw [hpq.postset?_eq hi, h.hasPostset_eq]
    split
    · exact h.silent_eq
    · split
      · exact h.silent_eq
      · dsimp only
        rw [Pass.silent_emit, Pass.silent_emit, Pass.silent_markPostset, Pass.silent_markPostset,
          h.silent_eq]
  begun_mem := by
    rw [Pass.begun, addPostset_trace]
    exact h.begun_mem

theorem conclude (hpq : p.EmitAlike q M) (h : InStep M s s') (hi : i ∈ M) (t : String) :
    InStep M (s.conclude p i t) (s'.conclude q i t) where
  link_eq := by simp only [Session.conclude, h.link_eq, hpq.compiledDeps_eq hi]
  silent_eq := by
    simp only [Session.conclude, hpq.outcome_eq hi]
    exact congrArg (Pass.record · _) h.silent_eq
  begun_mem := by
    rw [Pass.begun, conclude_trace, List.filterMap_append, List.filterMap_cons_none rfl,
      List.filterMap_nil, List.append_nil]
    exact h.begun_mem

end InStep

theorem registered_eq (hpq : p.EmitAlike q M) (h : InStep M s s') (hi : i ∈ M) (t : String) :
    s.registered p i t = s'.registered q i t := by
  have hregistrable : p.isRegistrable i = q.isRegistrable i :=
    decide_eq_decide.2 (by rw [hpq.outcome_eq hi])
  rw [registered, registered, hregistrable, hpq.exportAll_eq, h.link_eq]

theorem concur_place (hpq : p.EmitAlike q M) (h : InStep M s s') (hi : i ∈ M)
    (own : Option String) :
    Concur M (own.elim (s, .ok "") (s.place p i)) (own.elim (s', .ok "") (s'.place q i)) := by
  cases own with
  | none => exact ⟨rfl, h⟩
  | some own =>
    have hproxied : proxied q i own s'.link.proxies = proxied p i own s.link.proxies := by
      rw [proxied, proxied, hpq.proxyMode?_eq hi, h.link_eq]
    simp only [Option.elim_some, place, hproxied, ← hpq.compiledSig?_eq hi]
    obtain ⟨proxies, result⟩ := proxied p i own s.link.proxies
    have hplaced : InStep M { s with link := { s.link with proxies } }
        { s' with link := { s'.link with proxies } } := by
      rw [h.link_eq]
      exact ⟨rfl, h.silent_eq, h.begun_mem⟩
    cases result with
    | error e => exact ⟨rfl, hplaced⟩
    | ok text =>
      dsimp only
      cases p.compiledSig? i with
      | none => exact ⟨congrArg Except.ok (registered_eq hpq hplaced hi text), hplaced⟩
      | some sig =>
        refine ⟨rfl, ?_, ?_, h.begun_mem⟩
        · exact congrArg (LinkState.implement · i.finalName sig) hplaced.link_eq
        · exact congrArg (Pass.emit · _) h.silent_eq

theorem concur_resolveAll (hs : InStep M s s')
    (h : ∀ before d after s₁ s₁' ts, is = before ++ d :: after →
      s.resolveAll p before = (s₁, .ok ts) → InStep M s₁ s₁' →
      Concur M (s₁.resolve p d) (s₁'.resolve q d)) :
    Concur M (s.resolveAll p is) (s'.resolveAll q is) := by
  induction is generalizing s s' with
  | nil => exact ⟨rfl, hs⟩
  | cons i is ih =>
    obtain ⟨heq, hstep⟩ := h [] i is s s' [] rfl rfl hs
    rw [resolveAll, resolveAll]
    cases hr : s.resolve p i with
    | mk s₁ r =>
      cases hr' : s'.resolve q i with
      | mk s₁' r' =>
        rw [hr, hr'] at heq hstep
        obtain rfl : r = r' := heq
        cases r with
        | error e => exact ⟨rfl, hstep⟩
        | ok t =>
          obtain ⟨heq', hstep'⟩ : Concur M (s₁.resolveAll p is) (s₁'.resolveAll q is) := by
            refine ih hstep fun before d after s₂ s₂' ts his hb hs₂ => ?_
            refine h (i :: before) d after s₂ s₂' (t :: ts) ?_ (resolveAll_cons_ok hr hb) hs₂
            rw [his, List.cons_append]
          dsimp only
          cases hd : s₁.resolveAll p is with
          | mk s₂ r =>
            cases hd' : s₁'.resolveAll q is with
            | mk s₂' r' =>
              rw [hd, hd'] at heq' hstep'
              obtain rfl : r = r' := heq'
              cases r <;> exact ⟨rfl, hstep'⟩

/-- Plans that emit alike resolve alike. -/
theorem concur_resolve (hpq : p.EmitAlike q M) (x : Session × Ident) (hs : InStep M x.1 s')
    (hi : x.2 ∈ M) : Concur M (x.1.resolve p x.2) (s'.resolve q x.2) := by
  induction x using (wellFounded_calls p).induction generalizing s' with
  | _ x ih =>
    obtain ⟨s, i⟩ := x
    dsimp only at hs hi ⊢
    -- Both sessions turn back at the same identifiers, so that the calls of one decide for both.
    by_cases ht : s.TurnsBack i
    · rw [resolve_of_turnsBack ht, resolve_of_turnsBack (hs.turnsBack_iff.1 ht)]
      exact ⟨rfl, hs.turnBack i⟩
    have ht' : ¬s'.TurnsBack i := fun h => ht (hs.turnsBack_iff.2 h)
    have hstart : InStep M (s.start p i) (s'.start q i) := hs.start hi
    have hunfold := ht
    rw [TurnsBack] at hunfold ht'
    rw [resolve_eq, resolve_eq, if_neg hunfold, if_neg ht', ← hpq.ownText_eq hi, ← hpq.deps_eq hi]
    cases ho : p.ownText i with
    | error e => exact ⟨rfl, hstart⟩
    | ok own =>
      obtain ⟨heq, hstep⟩ : Concur M (((s.start p i).announce p i).resolveAll p (p.deps i))
          (((s'.start q i).announce q i).resolveAll q (p.deps i)) := by
        refine concur_resolveAll (hstart.announce hpq hi)
          fun before d after s₁ s₁' ts hd hb hs₁ => ?_
        have hdM : d ∈ M := hpq.mem_of_mem_deps hi (by simp [hd])
        exact ih (s₁, d) (.dependency ht ho hd hb) hs₁ hdM
      dsimp only
      cases hd : ((s.start p i).announce p i).resolveAll p (p.deps i) with
      | mk s₁ r =>
        cases hd' : ((s'.start q i).announce q i).resolveAll q (p.deps i) with
        | mk s₁' r' =>
          rw [hd, hd'] at heq hstep
          obtain rfl : r = r' := heq
          cases r with
          | error e => exact ⟨rfl, hstep⟩
          | ok ts =>
            obtain ⟨heq', hstep'⟩ := concur_place hpq (hstep.addPostset hpq hi) hi own
            dsimp only
            cases hp : own.elim (s₁.addPostset p i, .ok "") ((s₁.addPostset p i).place p i) with
            | mk s₂ r =>
              cases hp' : own.elim (s₁'.addPostset q i, .ok "")
                  ((s₁'.addPostset q i).place q i) with
              | mk s₂' r' =>
                rw [hp, hp'] at heq' hstep'
                obtain rfl : r = r' := heq'
                cases r with
                | error e => exact ⟨rfl, hstep'⟩
                | ok t => exact ⟨rfl, hstep'.conclude hpq hi _⟩

theorem concur_request (hpq : p.EmitAlike q M) (hs : InStep M s s') {r : Request}
    (hr : r.ident ∈ M) : Concur M (s.request p r) (s'.request q r) := by
  obtain ⟨heq, hstep⟩ := concur_resolve hpq (s.noted r, r.ident) (hs.noted r) hr
  rw [request_eq, request_eq]
  dsimp only at heq hstep
  cases h : (s.noted r).resolve p r.ident with
  | mk s₁ res =>
    cases h' : (s'.noted r).resolve q r.ident with
    | mk s₁' res' =>
      rw [h, h'] at heq hstep
      obtain rfl : res = res' := heq
      cases res with
      | error e => exact ⟨rfl, hstep⟩
      | ok t => exact ⟨rfl, hstep.delivered _ t⟩

theorem concur_requestAll (hpq : p.EmitAlike q M) (hs : InStep M s s') {rs : List Request}
    (hrs : ∀ r ∈ rs, r.ident ∈ M) : Concur M (s.requestAll p rs) (s'.requestAll q rs) := by
  induction rs generalizing s s' with
  | nil => exact ⟨rfl, hs⟩
  | cons r rs ih =>
    obtain ⟨heq, hstep⟩ := concur_request hpq hs (hrs r List.mem_cons_self)
    rw [requestAll, requestAll]
    cases h : s.request p r with
    | mk s₁ res =>
      cases h' : s'.request q r with
      | mk s₁' res' =>
        rw [h, h'] at heq hstep
        obtain rfl : res = res' := heq
        cases res with
        | error e => exact ⟨rfl, hstep⟩
        | ok _ => exact ih hstep fun r' hr' => hrs r' (List.mem_cons_of_mem r hr')

end Session

end CatalogLinker
