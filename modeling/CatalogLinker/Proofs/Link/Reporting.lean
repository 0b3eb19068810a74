import CatalogLinker.Proofs.Link.Assembly
import CatalogLinker.Proofs.Resolution.Reports
import Mathlib.Data.List.Flatten

namespace CatalogLinker

def Config.silent (c : Config) : Config :=
  { c with failOnUndefined := false, warnOnUndefined := false, verbose := false }

def Output.silent (o : Output) : Output :=
  { o with notices := [] }

namespace Plan

variable {catalog : Catalog} {c c' : Config} {p q : Plan} {i j : Ident}
  {isCompiled : Name → Bool}

theorem emitAlike_of_silent (h : c.silent = c'.silent) :
    EmitAlike ⟨catalog, c⟩ ⟨catalog, c'⟩ Set.univ where
  exportAll_eq := (congrArg Config.exportAll h :)
  mem_of_mem_deps _ _ := Set.mem_univ _
  deps_eq {i} _ := (congrArg (fun c => deps ⟨catalog, c⟩ i) h :)
  outcome_eq {i} _ := (congrArg (fun c => outcome ⟨catalog, c⟩ i) h :)
  ownText_eq {i} _ := (congrArg (fun c => ownText ⟨catalog, c⟩ i) h :)
  isLibraryFn_eq {i} _ := (congrArg (fun c => isLibraryFn ⟨catalog, c⟩ i) h :)
  autoexports_eq {i} _ := (congrArg (fun c => autoexports ⟨catalog, c⟩ i) h :)
  compiledDeps_eq {i} _ := (congrArg (fun c => compiledDeps ⟨catalog, c⟩ i) h :)
  proxyMode?_eq {i} _ := (congrArg (fun c => proxyMode? ⟨catalog, c⟩ i) h :)
  compiledSig?_eq {i} _ := (congrArg (fun c => compiledSig? ⟨catalog, c⟩ i) h :)
  postset?_eq {i} _ := (congrArg (fun c => postset? ⟨catalog, c⟩ i) h :)

theorem undefinedSymbol_mem_notes : .undefinedSymbol j ∈ p.notes isCompiled i ↔
    p.isTolerated i ∧ j = i := by
  unfold notes openingNotices addingNotices
  split_ifs <;> simp [*]

section Silent

variable (h : c.silent = c'.silent)
include h

theorem outcome_eq_of_silent (i : Ident) : outcome ⟨catalog, c⟩ i = outcome ⟨catalog, c'⟩ i :=
  (emitAlike_of_silent h).outcome_eq (Set.mem_univ i)

theorem isReportedMissing_eq_of_silent (hv : c.verbose = c'.verbose) (i : Ident) :
    isReportedMissing ⟨catalog, c⟩ i = isReportedMissing ⟨catalog, c'⟩ i := by
  rw [isReportedMissing, isReportedMissing, outcome_eq_of_silent h, hv]

theorem isUnkillable_eq_of_silent (i : Ident) :
    isUnkillable ⟨catalog, c⟩ i = isUnkillable ⟨catalog, c'⟩ i :=
  (congrArg (fun c => isUnkillable ⟨catalog, c⟩ i) h :)

theorem missingDeps_eq_of_silent (i : Ident) :
    missingDeps ⟨catalog, c⟩ i isCompiled = missingDeps ⟨catalog, c'⟩ i isCompiled :=
  (congrArg (fun c => missingDeps ⟨catalog, c⟩ i isCompiled) h :)

theorem notes_eq_of_silent (hv : c.verbose = c'.verbose)
    (hi : isReportedMissing ⟨catalog, c⟩ i = false) :
    notes ⟨catalog, c⟩ isCompiled i = notes ⟨catalog, c'⟩ isCompiled i := by
  have hadding : addingNotices ⟨catalog, c⟩ i = addingNotices ⟨catalog, c'⟩ i := by
    rw [addingNotices, addingNotices, standsAlone, standsAlone, outcome_eq_of_silent h, hv,
      (emitAlike_of_silent h).deps_eq (Set.mem_univ i)]
  have hi' : isReportedMissing ⟨catalog, c'⟩ i = false :=
    isReportedMissing_eq_of_silent h hv i ▸ hi
  rw [notes, notes, openingNotices, openingNotices, isTolerated, isTolerated, hi, hi',
    isUnkillable_eq_of_silent h, missingDeps_eq_of_silent h, hadding]
  rfl

end Silent

end Plan

def Config.strict (c : Config) : Config :=
  { c with failOnUndefined := true }

def Config.lenient (c : Config) : Config :=
  { c with failOnUndefined := false }

namespace Session

variable {catalog : Catalog} {c c' : Config} {s : Session} {l : LinkState} {rs : List Request}
  {i : Ident}

/-- If nothing that has begun is missing, it does not matter what happens to what is missing. -/
theorem requestAll_eq_of_notMissing (hsilent : c.silent = c'.silent) (hv : c.verbose = c'.verbose)
    (h : Session.requestAll ⟨catalog, c⟩ { link := l } rs = (s, .ok ()))
    (hs : ∀ i ∈ s.pass.begun, Plan.isReportedMissing ⟨catalog, c⟩ i = false) :
    Session.requestAll ⟨catalog, c'⟩ { link := l } rs = (s, .ok ()) := by
  refine requestAll_eq_of_reportAlike (Plan.emitAlike_of_silent hsilent)
    (fun _ _ => Set.mem_univ _) h (fun i hi => ?_) fun i hi => ?_
  · rw [Plan.isUndefined, Plan.isUndefined, ← Plan.isReportedMissing_eq_of_silent hsilent hv,
      hs i hi, Bool.false_and, Bool.false_and]
  · exact Plan.notes_eq_of_silent hsilent hv (hs i hi)

theorem notMissing_of_strict
    (h : Session.requestAll ⟨catalog, c.strict⟩ { link := l } rs = (s, .ok ()))
    (hu : s.pass.undefined = []) (hi : i ∈ s.pass.begun) :
    Plan.isReportedMissing ⟨catalog, c⟩ i = false := by
  rw [(reports_of_requestAll h).undefined_eq, List.filter_eq_nil_iff] at hu
  have hdefined := hu i hi
  rw [Plan.isUndefined, Bool.and_eq_true, not_and] at hdefined
  exact Bool.eq_false_iff.2 fun hmissing => hdefined hmissing rfl

theorem notMissing_of_lenient (hwarn : c.warnOnUndefined = true)
    (h : Session.requestAll ⟨catalog, c.lenient⟩ { link := l } rs = (s, .ok ()))
    (hn : .undefinedSymbol i ∉ s.pass.notices) (hi : i ∈ s.pass.begun) :
    Plan.isReportedMissing ⟨catalog, c⟩ i = false := by
  refine Bool.eq_false_iff.2 fun hmissing => hn ?_
  have htolerated : Plan.isTolerated ⟨catalog, c.lenient⟩ i := by
    have hmissing' : Plan.isReportedMissing ⟨catalog, c.lenient⟩ i = true := hmissing
    have hwarn' : c.lenient.warnOnUndefined = true := hwarn
    rw [Plan.isTolerated, hmissing', hwarn', Bool.or_true]
    rfl
  rw [(reports_of_requestAll h).notices_eq]
  exact List.mem_flatMap.2 ⟨i, hi, Plan.undefinedSymbol_mem_notes.2 ⟨htolerated, rfl⟩⟩

theorem requestAll_strict_iff (hwarn : c.warnOnUndefined = true) :
    (Session.requestAll ⟨catalog, c.strict⟩ { link := l } rs = (s, .ok ()) ∧
        s.pass.undefined = []) ↔
      (Session.requestAll ⟨catalog, c.lenient⟩ { link := l } rs = (s, .ok ()) ∧
        s.pass.undefined = []) ∧ ∀ i, .undefinedSymbol i ∉ s.pass.notices := by
  have hsilent : c.strict.silent = c.lenient.silent := rfl
  constructor
  · rintro ⟨h, hu⟩
    have hlenient : Session.requestAll ⟨catalog, c.lenient⟩ { link := l } rs = (s, .ok ()) :=
      requestAll_eq_of_notMissing hsilent rfl h fun i hi => notMissing_of_strict h hu hi
    refine ⟨⟨hlenient, hu⟩, fun i hmem => ?_⟩
    rw [(reports_of_requestAll h).notices_eq] at hmem
    obtain ⟨j, hj, hmem⟩ := List.mem_flatMap.1 hmem
    obtain ⟨htolerated, rfl⟩ := Plan.undefinedSymbol_mem_notes.1 hmem
    have hmissing : Plan.isReportedMissing ⟨catalog, c.strict⟩ i = false :=
      notMissing_of_strict h hu hj
    rw [Plan.isTolerated, hmissing] at htolerated
    simp at htolerated
  · rintro ⟨⟨h, hu⟩, hn⟩
    exact ⟨requestAll_eq_of_notMissing hsilent.symm rfl h fun i hi =>
      notMissing_of_lenient hwarn h (hn i) hi, hu⟩

end Session

section Undefined

variable {catalog : Catalog} {config : Config} {program : Program} {shell : Shell}
  {main globals : Session} {out : Output}

theorem Link.passes_strict_iff (hwarn : config.warnOnUndefined = true) :
    Passes catalog config.strict program main globals ↔
      Passes catalog config.lenient program main globals ∧
        ∀ i, .undefinedSymbol i ∉ main.pass.notices ++ globals.pass.notices := by
  constructor
  · intro h
    obtain ⟨⟨hm, hmu⟩, hmn⟩ := (Session.requestAll_strict_iff hwarn).1 ⟨h.served, h.defined⟩
    obtain ⟨⟨hg, hgu⟩, hgn⟩ :=
      (Session.requestAll_strict_iff hwarn).1 ⟨h.served_globals, h.defined_globals⟩
    exact ⟨⟨h.compatible, hm, hg, hmu, hgu⟩,
      fun i hi => (List.mem_append.1 hi).elim (hmn i) (hgn i)⟩
  · rintro ⟨h, hn⟩
    obtain ⟨hm, hmu⟩ := (Session.requestAll_strict_iff hwarn).2
      ⟨⟨h.served, h.defined⟩, fun i hi => hn i (List.mem_append_left _ hi)⟩
    obtain ⟨hg, hgu⟩ := (Session.requestAll_strict_iff hwarn).2
      ⟨⟨h.served_globals, h.defined_globals⟩, fun i hi => hn i (List.mem_append_right _ hi)⟩
    exact ⟨h.compatible, hm, hg, hmu, hgu⟩

/-- A strict link succeeds as a lenient one does that has no undefined identifiers to tell of. -/
theorem link_strict_iff (hwarn : config.warnOnUndefined = true) :
    link catalog config.strict program shell = .ok out ↔
      link catalog config.lenient program shell = .ok out ∧
        ∀ i, .undefinedSymbol i ∉ out.notices := by
  constructor
  · intro h
    obtain ⟨main, globals, hp, hd⟩ := link_eq_ok_iff.1 h
    obtain ⟨hp, hn⟩ := (Link.passes_strict_iff hwarn).1 hp
    exact ⟨link_eq_ok_iff.2 ⟨main, globals, hp, hd⟩, Link.deliver_notices hd ▸ hn⟩
  · rintro ⟨h, hn⟩
    obtain ⟨main, globals, hp, hd⟩ := link_eq_ok_iff.1 h
    rw [Link.deliver_notices hd] at hn
    exact link_eq_ok_iff.2 ⟨main, globals, (Link.passes_strict_iff hwarn).2 ⟨hp, hn⟩, hd⟩

end Undefined

/-- A program that asks for what nothing defines. -/
def undefinedRequest : Program where
  requests := [⟨⟨"gone"⟩, none, none⟩]

theorem undefinedRequest_strict : (∃ out, link {} (Config.strict {}) {} {} = .ok out) ∧
    (∃ out, link {} (Config.lenient {}) undefinedRequest {} = .ok out) ∧
    ∀ out, link {} (Config.strict {}) undefinedRequest {} ≠ .ok out := by
  obtain ⟨out, hout, hnone⟩ : ∃ out, link {} (Config.lenient {}) {} {} = .ok out ∧
      out.notices = [] := exists_ok (by decide +kernel)
  have hlenient : ∃ out, link {} (Config.lenient {}) undefinedRequest {} = .ok out ∧
      .undefinedSymbol ⟨"gone"⟩ ∈ out.notices := exists_ok (by decide +kernel)
  obtain ⟨told, htold, hmem⟩ := hlenient
  refine ⟨⟨out, (link_strict_iff rfl).2 ⟨hout, by simp [hnone]⟩⟩, ⟨told, htold⟩, fun out h => ?_⟩
  obtain ⟨h, hn⟩ := (link_strict_iff rfl).1 h
  obtain rfl : told = out := Except.ok.inj (htold.symm.trans h)
  exact hn _ hmem

def Config.loud (c : Config) : Config :=
  { c with verbose := true }

def Config.quiet (c : Config) : Config :=
  { c with verbose := false }

def Plan.isConcealed (p : Plan) (i : Ident) : Bool :=
  p.outcome i = .missingStub && isInternal i

namespace Plan

variable {catalog : Catalog} {c : Config} {i : Ident}

theorem isReportedMissing_loud_iff : isReportedMissing ⟨catalog, c.loud⟩ i ↔
    isReportedMissing ⟨catalog, c.quiet⟩ i ∨ isConcealed ⟨catalog, c.quiet⟩ i := by
  have houtcome : outcome ⟨catalog, c.loud⟩ i = outcome ⟨catalog, c.quiet⟩ i :=
    outcome_eq_of_silent rfl i
  have hloud : c.loud.verbose = true := rfl
  have hquiet : c.quiet.verbose = false := rfl
  simp only [isReportedMissing, isConcealed, houtcome, hloud, hquiet, Bool.and_eq_true,
    Bool.or_true, Bool.or_false, and_true]
  cases isInternal i <;> simp

theorem isUndefined_loud_iff : isUndefined ⟨catalog, c.loud⟩ i ↔
    isUndefined ⟨catalog, c.quiet⟩ i ∨ c.failOnUndefined ∧ isConcealed ⟨catalog, c.quiet⟩ i := by
  have hfail : c.loud.failOnUndefined = c.failOnUndefined := rfl
  have hfail' : c.quiet.failOnUndefined = c.failOnUndefined := rfl
  rw [isUndefined, isUndefined, Bool.and_eq_true, Bool.and_eq_true, isReportedMissing_loud_iff,
    hfail, hfail']
  tauto

theorem isTolerated_loud_of_quiet (h : isTolerated ⟨catalog, c.quiet⟩ i) :
    isTolerated ⟨catalog, c.loud⟩ i := by
  have hfail : c.loud.failOnUndefined = c.quiet.failOnUndefined := rfl
  have hloud : c.loud.verbose = true := rfl
  rw [isTolerated, Bool.and_eq_true, Bool.and_eq_true] at h ⊢
  rw [isReportedMissing_loud_iff, hfail, hloud, Bool.true_or]
  exact ⟨⟨.inl h.1.1, h.1.2⟩, rfl⟩

theorem notes_sublist (isCompiled : Name → Bool) : (notes ⟨catalog, c.quiet⟩ isCompiled i).Sublist
    (notes ⟨catalog, c.loud⟩ isCompiled i) := by
  have hsilent : c.quiet.silent = c.loud.silent := rfl
  have hadding : addingNotices ⟨catalog, c.quiet⟩ i = [] := rfl
  rw [notes, notes, openingNotices, openingNotices, isUnkillable_eq_of_silent hsilent,
    missingDeps_eq_of_silent hsilent, hadding]
  refine .append (.append (.append (.refl _) ?_) (.refl _)) (List.nil_sublist _)
  by_cases h : isTolerated ⟨catalog, c.quiet⟩ i
  · rw [if_pos h, if_pos (isTolerated_loud_of_quiet h)]
  · rw [if_neg h]
    exact List.nil_sublist _

end Plan

/-- Two sessions in step. The second tells more, and has undefined identifiers also if one that the
first has begun is concealed from it. -/
structure Session.Subdues (catalog : Catalog) (c : Config) (s s' : Session) : Prop where
  inStep : InStep Set.univ s s'
  defined_iff : s'.pass.undefined = [] ↔ s.pass.undefined = [] ∧
    ¬(c.failOnUndefined ∧ ∃ i ∈ s.pass.begun, Plan.isConcealed ⟨catalog, c.quiet⟩ i)
  notices_sublist : s.pass.notices.Sublist s'.pass.notices

namespace Session

variable {catalog : Catalog} {c : Config} {s s' : Session} {l : LinkState} {rs : List Request}

theorem subdues_of_reports {compiled : List Name} (h : InStep Set.univ s s')
    (hs : Reports ⟨catalog, c.quiet⟩ compiled s) (hs' : Reports ⟨catalog, c.loud⟩ compiled s') :
    Subdues catalog c s s' where
  inStep := h
  defined_iff := by
    rw [hs.undefined_eq, hs'.undefined_eq, ← h.begun_eq, List.filter_eq_nil_iff,
      List.filter_eq_nil_iff]
    simp only [Plan.isUndefined_loud_iff, not_or, not_and, not_exists]
    exact ⟨fun h => ⟨fun i hi => (h i hi).1, fun hf i hi => (h i hi).2 hf⟩,
      fun h i hi => ⟨h.1 i hi, fun hf => h.2 hf i hi⟩⟩
  notices_sublist := by
    rw [hs.notices_eq, hs'.notices_eq, ← h.begun_eq]
    exact List.Sublist.flatMap_right _ fun i _ => Plan.notes_sublist _

theorem concur_quiet_loud (catalog : Catalog) (c : Config) (l : LinkState) (rs : List Request) :
    Concur Set.univ (Session.requestAll ⟨catalog, c.quiet⟩ { link := l } rs)
      (Session.requestAll ⟨catalog, c.loud⟩ { link := l } rs) := by
  have hsilent : c.quiet.silent = c.loud.silent := rfl
  exact concur_requestAll (Plan.emitAlike_of_silent hsilent) (.refl_of_fresh Set.univ l)
    fun r _ => Set.mem_univ r.ident

theorem loud_of_quiet
    (h : Session.requestAll ⟨catalog, c.quiet⟩ { link := l } rs = (s, .ok ())) :
    ∃ s', Session.requestAll ⟨catalog, c.loud⟩ { link := l } rs = (s', .ok ()) ∧
      Subdues catalog c s s' := by
  obtain ⟨heq, hstep⟩ := concur_quiet_loud catalog c l rs
  cases h' : Session.requestAll ⟨catalog, c.loud⟩ { link := l } rs with
  | mk s' r =>
    rw [h, h'] at heq hstep
    obtain rfl : .ok () = r := heq
    exact ⟨s', rfl, subdues_of_reports hstep (reports_of_requestAll h) (reports_of_requestAll h')⟩

theorem quiet_of_loud
    (h : Session.requestAll ⟨catalog, c.loud⟩ { link := l } rs = (s', .ok ())) :
    ∃ s, Session.requestAll ⟨catalog, c.quiet⟩ { link := l } rs = (s, .ok ()) ∧
      Subdues catalog c s s' := by
  obtain ⟨heq, hstep⟩ := concur_quiet_loud catalog c l rs
  cases h' : Session.requestAll ⟨catalog, c.quiet⟩ { link := l } rs with
  | mk s r =>
    rw [h, h'] at heq hstep
    obtain rfl : r = .ok () := heq
    exact ⟨s, rfl, subdues_of_reports hstep (reports_of_requestAll h') (reports_of_requestAll h)⟩

end Session

section Verbose

variable {catalog : Catalog} {config : Config} {program : Program} {shell : Shell}
  {main main' globals globals' : Session} {out out' : Output}

def Link.begun (catalog : Catalog) (config : Config) (program : Program) : List Ident :=
  let main := (Session.requestAll ⟨catalog, config⟩
    { link := .ofLists program.compiled config.exportedNames }
    (program.requests ++ defaultRequests ⟨catalog, config⟩)).1
  let globals := (Session.requestAll ⟨catalog, config⟩ { link := main.link } program.globals).1
  main.pass.begun ++ globals.pass.begun

theorem Link.begun_of_passes (h : Passes catalog config program main globals) :
    begun catalog config program = main.pass.begun ++ globals.pass.begun := by
  simp only [begun, h.served, h.served_globals]

/-- Whether a link fails for an identifier that it would conceal if it were not verbose. -/
def Link.FailsConcealed (catalog : Catalog) (config : Config) (program : Program) : Prop :=
  config.failOnUndefined ∧
    ∃ i ∈ begun catalog config.quiet program, Plan.isConcealed ⟨catalog, config.quiet⟩ i

theorem Link.failsConcealed_iff (h : Passes catalog config.quiet program main globals) :
    FailsConcealed catalog config program ↔
      (config.failOnUndefined ∧
        ∃ i ∈ main.pass.begun, Plan.isConcealed ⟨catalog, config.quiet⟩ i) ∨
      (config.failOnUndefined ∧
        ∃ i ∈ globals.pass.begun, Plan.isConcealed ⟨catalog, config.quiet⟩ i) := by
  rw [FailsConcealed, begun_of_passes h]
  simp only [List.mem_append, or_and_right, exists_or, and_or_left]

theorem Link.passes_loud (h : Passes catalog config.quiet program main globals)
    (hc : ¬FailsConcealed catalog config program) :
    ∃ main' globals', Passes catalog config.loud program main' globals' ∧
      Session.Subdues catalog config main main' ∧
      Session.Subdues catalog config globals globals' := by
  rw [failsConcealed_iff h, not_or] at hc
  obtain ⟨main', hm, hms⟩ := Session.loud_of_quiet h.served
  obtain ⟨globals', hg, hgs⟩ := Session.loud_of_quiet h.served_globals
  rw [hms.inStep.link_eq] at hg
  exact ⟨main', globals', ⟨h.compatible, hm, hg, hms.defined_iff.2 ⟨h.defined, hc.1⟩,
    hgs.defined_iff.2 ⟨h.defined_globals, hc.2⟩⟩, hms, hgs⟩

theorem Link.passes_quiet (h : Passes catalog config.loud program main' globals') :
    ∃ main globals, Passes catalog config.quiet program main globals ∧
      ¬FailsConcealed catalog config program ∧ Session.Subdues catalog config main main' ∧
      Session.Subdues catalog config globals globals' := by
  obtain ⟨main, hm, hms⟩ := Session.quiet_of_loud h.served
  obtain ⟨globals, hg, hgs⟩ := Session.quiet_of_loud h.served_globals
  rw [← hms.inStep.link_eq] at hg
  obtain ⟨hmu, hmc⟩ := hms.defined_iff.1 h.defined
  obtain ⟨hgu, hgc⟩ := hgs.defined_iff.1 h.defined_globals
  have hp : Passes catalog config.quiet program main globals := ⟨h.compatible, hm, hg, hmu, hgu⟩
  exact ⟨main, globals, hp, (failsConcealed_iff hp).not.2 (not_or.2 ⟨hmc, hgc⟩), hms, hgs⟩

theorem Link.deliver_silent (config : Config) (program : Program) (shell : Shell)
    (hm : Session.InStep Set.univ main main')
    (hg : Session.InStep Set.univ globals globals') :
    (deliver config.quiet program shell main globals).map Output.silent =
      (deliver config.loud program shell main' globals').map Output.silent := by
  unfold deliver
  rw [hm.fragments_eq, hg.fragments_eq, hg.link_eq]
  have hassemble : ∀ s, assemble config.quiet program shell s =
      assemble config.loud program shell s := fun _ => rfl
  have hsections : sections config.quiet program globals'.link.proxies globals'.pass.fragments
      main'.pass.fragments = sections config.loud program globals'.link.proxies
        globals'.pass.fragments main'.pass.fragments := rfl
  rw [hassemble, hsections]
  cases assemble config.loud program shell (sections config.loud program globals'.link.proxies
    globals'.pass.fragments main'.pass.fragments) <;> rfl

theorem link_loud_of_quiet (h : link catalog config.quiet program shell = .ok out)
    (hc : ¬Link.FailsConcealed catalog config program) :
    ∃ out', link catalog config.loud program shell = .ok out' := by
  obtain ⟨main, globals, hp, hd⟩ := link_eq_ok_iff.1 h
  obtain ⟨main', globals', hp', hm, hg⟩ := Link.passes_loud hp hc
  have hsilent := Link.deliver_silent config program shell hm.inStep hg.inStep
  rw [hd] at hsilent
  obtain ⟨out', hd', -⟩ := map_ok hsilent.symm
  exact ⟨out', link_eq_ok_iff.2 ⟨main', globals', hp', hd'⟩⟩

theorem link_quiet_of_loud (h : link catalog config.loud program shell = .ok out') :
    ¬Link.FailsConcealed catalog config program ∧
      ∃ out, link catalog config.quiet program shell = .ok out ∧ out.silent = out'.silent ∧
        out.notices.Sublist out'.notices := by
  obtain ⟨main', globals', hp', hd'⟩ := link_eq_ok_iff.1 h
  obtain ⟨main, globals, hp, hc, hm, hg⟩ := Link.passes_quiet hp'
  have hsilent := Link.deliver_silent config program shell hm.inStep hg.inStep
  rw [hd'] at hsilent
  obtain ⟨out, hd, hout⟩ := map_ok hsilent
  refine ⟨hc, out, link_eq_ok_iff.2 ⟨main, globals, hp, hd⟩, hout, ?_⟩
  rw [Link.deliver_notices hd, Link.deliver_notices hd']
  exact hm.notices_sublist.append hg.notices_sublist

/-- A verbose link succeeds as one that is not verbose does, unless it fails for an identifier that
the latter conceals. It only adds notices. -/
theorem link_loud_iff (catalog : Catalog) (config : Config) (program : Program) (shell : Shell) :
    ((∃ out, link catalog config.loud program shell = .ok out) ↔
      (∃ out, link catalog config.quiet program shell = .ok out) ∧
        ¬Link.FailsConcealed catalog config program) ∧
    ∀ out out', link catalog config.quiet program shell = .ok out →
      link catalog config.loud program shell = .ok out' →
      out.silent = out'.silent ∧ out.notices.Sublist out'.notices := by
  refine ⟨⟨?_, ?_⟩, ?_⟩
  · rintro ⟨out', h⟩
    obtain ⟨hc, out, h, -⟩ := link_quiet_of_loud h
    exact ⟨⟨out, h⟩, hc⟩
  · rintro ⟨⟨out, h⟩, hc⟩
    exact link_loud_of_quiet h hc
  · intro out out' h h'
    obtain ⟨-, out₀, h₀, hsilent, hnotices⟩ := link_quiet_of_loud h'
    -- There is only one output of the quiet link.
    obtain rfl : out₀ = out := Except.ok.inj (h₀.symm.trans h)
    exact ⟨hsilent, hnotices⟩

end Verbose

/-- A program that asks for what the run time has to define. -/
def internalRequest : Program where
  requests := [⟨⟨"emscripten_sleep"⟩, none, none⟩]

theorem internalRequest_warned : ∃ out out',
    link {} (Config.quiet (Config.lenient {})) internalRequest {} = .ok out ∧ out.notices = [] ∧
      link {} (Config.loud (Config.lenient {})) internalRequest {} = .ok out' ∧
      .undefinedSymbol ⟨"emscripten_sleep"⟩ ∈ out'.notices ∧ out.silent = out'.silent ∧
      out.notices.Sublist out'.notices := by
  obtain ⟨out, h, hnone⟩ : ∃ out,
      link {} (Config.quiet (Config.lenient {})) internalRequest {} = .ok out ∧ out.notices = [] :=
    exists_ok (by decide +kernel)
  have hloud : ∃ out', link {} (Config.loud (Config.lenient {})) internalRequest {} = .ok out' ∧
      .undefinedSymbol ⟨"emscripten_sleep"⟩ ∈ out'.notices := exists_ok (by decide +kernel)
  obtain ⟨out', h', hmem⟩ := hloud
  exact ⟨out, out', h, hnone, h', hmem,
    (link_loud_iff {} (Config.lenient {}) internalRequest {}).2 out out' h h'⟩

/-- What is concealed from a link is an error of a verbose one. -/
theorem internalRequest_undefined :
    (∃ out, link {} (Config.quiet {}) internalRequest {} = .ok out) ∧
      link {} (Config.loud {}) internalRequest {} =
        .error (.undefinedSymbols [⟨"emscripten_sleep"⟩]) := by
  refine ⟨?_, eq_error (by decide +kernel)⟩
  obtain ⟨out, h, -⟩ : ∃ out,
      link {} (Config.quiet {}) internalRequest {} = .ok out ∧ out.notices = [] :=
    exists_ok (by decide +kernel)
  exact ⟨out, h⟩

end CatalogLinker
