import CatalogLinker.Proofs.Resolution.Trace

namespace CatalogLinker

open TraceEvent

namespace Plan

variable (p : Plan)

structure Missing (i : Ident) : Prop where
  standalone : p.config.linkage = .standalone
  entry_eq : (p.item i).entry = none
  not_inline : ¬(p.item i).isInline
  not_helper : ¬isNumberedCatch i
  alive : ¬(i.finalName ∈ p.config.deadNames ∧ ¬(p.item i).inCompiledSection)
  reported : i.beginsWith "emscripten_" → p.config.verbose

structure ListsMissing (begun missing : List Ident) : Prop where
  ordered : missing.Sublist begun
  nodup : missing.Nodup
  mem_iff : ∀ i, i ∈ missing ↔ i ∈ begun ∧ p.Missing i

variable {p} {i : Ident}

theorem outcome_eq_missingStub_iff :
    p.outcome i = .missingStub ↔
      p.config.linkage = .standalone ∧ ¬p.isDefined i ∧
        ¬(i.finalName ∈ p.config.deadNames ∧ ¬(p.item i).inCompiledSection) := by
  have hdead : (p.isListedDead i && !(p.item i).inCompiledSection) = true ↔
      i.finalName ∈ p.config.deadNames ∧ ¬(p.item i).inCompiledSection := by
    simp [isListedDead]
  rw [← hdead, outcome]
  cases hl : p.config.linkage <;> split_ifs <;> simp_all

theorem isUndefined_iff_missing (hfail : p.config.failOnUndefined) :
    p.isUndefined i ↔ p.Missing i := by
  have hreported : (!isInternal i || p.config.verbose) = true ↔
      (i.beginsWith "emscripten_" → p.config.verbose) := by
    cases h : isInternal i <;> simp_all [isInternal]
  have hdefined : ¬p.isDefined i ↔
      ¬isNumberedCatch i ∧ (p.item i).entry = none ∧ ¬(p.item i).isInline := by
    simp [isDefined, Item.isDefined]
  rw [isUndefined, isReportedMissing, Bool.and_eq_true, Bool.and_eq_true, decide_eq_true_iff,
    outcome_eq_missingStub_iff, hreported, hdefined]
  constructor
  · rintro ⟨⟨⟨hl, ⟨hh, he, hi⟩, hd⟩, hr⟩, -⟩
    exact ⟨hl, he, hi, hh, hd, hr⟩
  · rintro ⟨hl, he, hi, hh, hd, hr⟩
    exact ⟨⟨⟨hl, ⟨hh, he, hi⟩, hd⟩, hr⟩, hfail⟩

end Plan

namespace Session

structure ListsUndefined (p : Plan) (s : Session) : Prop where
  names_eq : begunNames s.pass.trace = s.pass.begun.map Ident.finalName
  undefined_eq : s.pass.undefined = s.pass.begun.filter p.isUndefined

variable {p : Plan} {s s' : Session} {i : Ident} {t : String}

section Undefined

@[simp] theorem turnBack_undefined (s : Session) (i : Ident) :
    (s.turnBack i).pass.undefined = s.pass.undefined := by
  rw [turnBack]
  split_ifs <;> simp

@[simp] theorem addPostset_undefined (s : Session) (i : Ident) :
    (s.addPostset p i).pass.undefined = s.pass.undefined := by
  rw [addPostset, Pass.markPostset]
  split
  · rfl
  · split_ifs <;> rfl

@[simp] theorem delivered_undefined (s : Session) (n : Name) (t : String) :
    (s.delivered n t).pass.undefined = s.pass.undefined := by
  rw [delivered]
  split <;> rfl

theorem Places.undefined_eq (h : Places p s i s' t) :
    s'.pass.undefined = s.pass.undefined := by
  cases h <;> rfl

end Undefined

namespace ListsUndefined

theorem frame (h : ListsUndefined p s) (htrace : s'.pass.trace = s.pass.trace)
    (hundefined : s'.pass.undefined = s.pass.undefined) : ListsUndefined p s' where
  names_eq := by rw [Pass.begun, htrace, h.names_eq, Pass.begun]
  undefined_eq := by rw [Pass.begun, htrace, hundefined, h.undefined_eq, Pass.begun]

theorem start (h : ListsUndefined p s) (i : Ident) : ListsUndefined p (s.start p i) := by
  have hbegun : (s.start p i).pass.begun = s.pass.begun ++ [i] := by
    simp [Pass.begun, begun?]
  constructor
  · rw [hbegun, start_trace, begunNames_append, h.names_eq, List.map_append]
    rfl
  · rw [hbegun, start_undefined, h.undefined_eq, List.filter_append]

theorem finish (h : ListsUndefined p s) (hp : Places p s i s' t) (u : String) :
    ListsUndefined p (s'.conclude p i u) := by
  have hs' : ListsUndefined p s' := h.frame hp.trace_eq hp.undefined_eq
  have hbegun : (s'.conclude p i u).pass.begun = s'.pass.begun := by
    simp [Pass.begun, begun?]
  constructor
  · rw [hbegun, ← hs'.names_eq, conclude_trace, begunNames_append, begunNames, begunNames,
      List.append_nil]
  · rw [hbegun, ← hs'.undefined_eq]
    rfl

end ListsUndefined

/-- What a pass lists does not depend on whether its steps fail. -/
theorem maintains_listsUndefined : Maintains p fun _ s => ListsUndefined p s where
  noted _ h := h.frame rfl rfl
  delivered n t h := h.frame delivered_trace (delivered_undefined _ n t)
  turnBack i h := h.frame (turnBack_trace _ i) (turnBack_undefined _ i)
  start _ h := h.start _
  announce _ h := (h.start _).frame rfl rfl
  addPostset i h := h.frame (addPostset_trace p _ i) (addPostset_undefined _ i)
  finish u h hp := h.finish hp u
  abandon h := h

theorem performAll_of_requestAll {rs : List Request} (h : s.requestAll p rs = (s', .ok ())) :
    s.performAll p (rs.map .request) = s' := by
  induction rs generalizing s with
  | nil => exact (Prod.mk.inj h).1
  | cons r rs ih =>
    obtain ⟨s₁, hr, hrs⟩ := requestAll_cons_ok h
    have hstep : (s.perform p (.request r)).1 = s₁ := congrArg Prod.fst hr
    rw [List.map_cons, performAll, List.foldl_cons, hstep]
    exact ih hrs

/-- Where undefined identifiers are errors, a pass that ends fails if something that it has begun is
missing, and over exactly that. Only a standalone output can miss anything. -/
theorem finish_fails_over_missing (hfail : p.config.failOnUndefined) (l : LinkState)
    (steps : List Step) (hs : Session.performAll p { link := l } steps = s) :
    ∃ missing, p.ListsMissing s.pass.begun missing ∧
      s.pass.finish =
        (if missing = [] then .ok s.pass else .error (.undefinedSymbols missing)) ∧
      (p.config.linkage ≠ .standalone → missing = []) ∧
      ∀ rs, steps = rs.map .request → (Session.requestAll p { link := l } rs).2.isOk →
        l.runPass p rs =
          if missing = [] then .ok (s.link, s.pass) else .error (.undefinedSymbols missing) := by
  have hlists : ListsUndefined p s :=
    hs ▸ (maintains_listsUndefined (p := p)).performAll ⟨rfl, rfl⟩ steps
  have honce : BegunOnce s := by
    have hempty : BegunOnce { link := l } :=
      ⟨List.nodup_nil, fun n hn => absurd hn List.not_mem_nil⟩
    exact hs ▸ (maintains_begunOnce (p := p)).performAll hempty steps
  have hnodup : s.pass.begun.Nodup := by
    have hnames := honce.1
    rw [hlists.names_eq] at hnames
    exact hnames.of_map Ident.finalName
  have hmem : ∀ i, i ∈ s.pass.undefined ↔ i ∈ s.pass.begun ∧ p.Missing i := by
    intro i
    rw [hlists.undefined_eq, List.mem_filter, Plan.isUndefined_iff_missing hfail]
  have hfinish : s.pass.finish = if s.pass.undefined = [] then .ok s.pass
      else .error (.undefinedSymbols s.pass.undefined) := by
    rw [Pass.finish]
    cases s.pass.undefined <;> simp
  refine ⟨s.pass.undefined, ⟨?_, ?_, hmem⟩, hfinish, fun hl => ?_, ?_⟩
  · rw [hlists.undefined_eq]
    exact List.filter_sublist
  · rw [hlists.undefined_eq]
    exact hnodup.filter _
  · rw [List.eq_nil_iff_forall_not_mem]
    exact fun i hi => hl ((hmem i).1 hi).2.standalone
  · rintro rs rfl hok
    have hrs := requestAll_eq_ok hok
    obtain rfl : _ = s := (performAll_of_requestAll hrs).symm.trans hs
    rw [LinkState.runPass, hrs]
    dsimp only
    rw [hfinish]
    split <;> rfl

/-- A function whose dependencies are missing, dead, expanded inline, synthesized, internal and
compiled; a dead function of the compiled section is missing as well. -/
def unmetDeps : Plan where
  catalog := {
    items := [
      (⟨"f"⟩, {
        entry := some (.body "function() \x7b\x7d")
        deps := [⟨"gone"⟩, ⟨"dead"⟩, ⟨"inlined"⟩, ⟨"__cxa_find_matching_catch_2"⟩,
          ⟨"emscripten_sleep"⟩, ⟨"puts"⟩, ⟨"ghost"⟩] }),
      (⟨"inlined"⟩, { isInline := true }),
      (⟨"ghost"⟩, { deps := [⟨"lost"⟩], inCompiledSection := true })]
    order := [⟨"f"⟩, ⟨"inlined"⟩] }
  config := { deadNames := [⟨"_dead"⟩, ⟨"_ghost"⟩] }

theorem unmetDeps_fail :
    ∃ s missing, Session.performAll unmetDeps { link := { compiled := [⟨"_puts"⟩] } }
        [.request ⟨⟨"f"⟩, none, none⟩, .request ⟨⟨"lost"⟩, some .void, some []⟩] = s ∧
      unmetDeps.ListsMissing s.pass.begun missing ∧ missing = [⟨"gone"⟩, ⟨"ghost"⟩, ⟨"lost"⟩] ∧
      s.pass.finish = .error (.undefinedSymbols missing) ∧
      LinkState.runPass unmetDeps { compiled := [⟨"_puts"⟩] }
        [⟨⟨"f"⟩, none, none⟩, ⟨⟨"lost"⟩, some .void, some []⟩] =
          .error (.undefinedSymbols missing) := by
  obtain ⟨s, hrs, hundefined⟩ : ∃ s,
      Session.requestAll unmetDeps { link := { compiled := [⟨"_puts"⟩] } }
        [⟨⟨"f"⟩, none, none⟩, ⟨⟨"lost"⟩, some .void, some []⟩] = (s, .ok ()) ∧
      s.pass.undefined = [⟨"gone"⟩, ⟨"ghost"⟩, ⟨"lost"⟩] :=
    exists_requestAll (by decide +kernel)
  have hs := performAll_of_requestAll hrs
  have hfails : s.pass.finish = .error (.undefinedSymbols [⟨"gone"⟩, ⟨"ghost"⟩, ⟨"lost"⟩]) := by
    rw [Pass.finish, hundefined]
    rfl
  obtain ⟨missing, hlists, hfinish, -, hpass⟩ := finish_fails_over_missing rfl _ _ hs
  have hmissing : missing = [⟨"gone"⟩, ⟨"ghost"⟩, ⟨"lost"⟩] := by
    rw [hfails] at hfinish
    split at hfinish
    · nomatch hfinish
    · exact (LinkError.undefinedSymbols.inj (Except.error.inj hfinish)).symm
  have hne : missing ≠ [] := by simp [hmissing]
  refine ⟨s, missing, hs, hlists, hmissing, ?_, ?_⟩
  · rw [hfinish, if_neg hne]
  · rw [hpass _ rfl (by rw [hrs]; rfl), if_neg hne]

end Session

end CatalogLinker
