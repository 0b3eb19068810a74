import CatalogLinker.Proofs.Proxy.Table
import CatalogLinker.Proofs.Resolution.Dependency
import CatalogLinker.Proofs.Resolution.Trace

namespace CatalogLinker

open TraceEvent

theorem Pass.statements_eq_nil_iff {q : Pass} :
    q.statements = [] ↔ ∀ d, .postset d ∉ q.fragments := by
  rw [statements, List.filterMap_eq_nil_iff]
  constructor
  · intro h d hd
    simpa [Fragment.postset?] using h _ hd
  · intro h f hf
    cases f with
    | postset d => exact absurd hf (h d)
    | _ => rfl

namespace Plan

section

variable (p : Plan) (i : Ident)

def collected? : Option Postset :=
  if (p.ownText i).isOk then p.postset? i else none

def joinsTable : Bool :=
  match p.ownText i, p.proxyMode? i with
  | .ok (some own), some mode =>
    (ProxyMode.ofText i mode).isOk && (FunctionHeader.find? own.toList).isSome
  | _, _ => false

end

variable {p : Plan} {i : Ident}

theorem deps_of_sideModule (hside : p.config.linkage = .sideModule) : p.deps i = [] := by
  rw [List.eq_nil_iff_forall_not_mem]
  intro d hd
  have hpursues : p.Pursues i := by cases mem_deps_iff.1 hd <;> assumption
  exact hpursues.2 hside

theorem standsAlone_of_sideModule (hside : p.config.linkage = .sideModule)
    (hi : p.outcome i ≠ .deadStub) : p.standsAlone i := by
  have hpursues : ¬p.Pursues i := fun h => h.2 hside
  simpa [standsAlone] using (outcome_of_not_pursues hpursues).resolve_left hi

theorem collected?_of_standsAlone (h : p.standsAlone i) : p.collected? i = none := by
  simp [collected?, postset?, h]

theorem joinsTable_of_proxyMode? (hmode : p.proxyMode? i = none) : p.joinsTable i = false := by
  rw [joinsTable, hmode]
  split <;> simp_all

theorem joinsTable_of_standsAlone (h : p.standsAlone i) : p.joinsTable i = false :=
  joinsTable_of_proxyMode? (by simp [proxyMode?, h])

theorem Proxies.joinsTable_eq {c : ProxyCall} (hc : p.Proxies i c) : p.joinsTable i = c.succeeds := by
  obtain ⟨-, ho, mode, hmode, hm⟩ := hc
  simp [joinsTable, ho, hmode, hm, ProxyCall.succeeds, Except.isOk, Except.toBool]

end Plan

namespace Session

def Step.ident : Step → Ident
  | .resolve i => i
  | .request r => r.ident

variable (p : Plan)

def Marked (s : Session) : Prop :=
  ∀ j ∈ s.pass.postsets, j.finalName ∈ s.pass.resolved

/-- One session has begun the identifiers `is` more than another, each with what belongs to it. -/
structure Adds (s s' : Session) (is : List Ident) : Prop where
  begun : s'.pass.begun = s.pass.begun ++ is
  names : begunNames s'.pass.trace = begunNames s.pass.trace ++ is.map Ident.finalName
  statements : s'.pass.statements = s.pass.statements ++ is.filterMap p.collected?
  proxies : s'.link.proxies.names =
    s.link.proxies.names ++ (is.filter p.joinsTable).map Ident.finalName
  marked : Marked s → Marked s'

variable {p} {s s' s'' : Session} {i : Ident} {is js : List Ident} {t : String}

namespace Adds

theorem of_eq (htrace : s'.pass.trace = s.pass.trace)
    (hstatements : s'.pass.statements = s.pass.statements)
    (hproxies : s'.link.proxies = s.link.proxies) (hmarked : Marked s → Marked s') :
    Adds p s s' [] where
  begun := by simp [Pass.begun, htrace]
  names := by simp [htrace]
  statements := by simp [hstatements]
  proxies := by simp [hproxies]
  marked := hmarked

theorem trans (h : Adds p s s' is) (h' : Adds p s' s'' js) : Adds p s s'' (is ++ js) where
  begun := by rw [h'.begun, h.begun, List.append_assoc]
  names := by rw [h'.names, h.names, List.map_append, List.append_assoc]
  statements := by rw [h'.statements, h.statements, List.filterMap_append, List.append_assoc]
  proxies := by
    rw [h'.proxies, h.proxies, List.filter_append, List.map_append, List.append_assoc]
  marked hm := h'.marked (h.marked hm)

end Adds

section Placed

theorem proxied_names {own text : String} {x y : ProxyTable} (ho : p.ownText i = .ok (some own))
    (h : proxied p i own x = (y, .ok text)) :
    y.names = x.names ++ ([i].filter p.joinsTable).map Ident.finalName := by
  obtain ⟨hmode, -, rfl⟩ | ⟨c, hc, hcall⟩ := call_of_proxied ho h
  · simp [Plan.joinsTable_of_proxyMode? hmode]
  · obtain rfl : x.after c = y := by rw [ProxyTable.after, hcall]
    rw [ProxyTable.names_after]
    cases hs : c.succeeds with
    | true => simp [hs, hc.joinsTable_eq, hc.1]
    | false => simp [hs, hc.joinsTable_eq]

theorem joinsTable_of_error {own : String} {x : ProxyTable} {e : LinkError}
    (ho : p.ownText i = .ok (some own)) (h : (proxied p i own x).2 = .error e) :
    p.joinsTable i = false := by
  obtain ⟨mode, hmode, hm⟩ | ⟨c, hc, hfails⟩ := call_of_proxied_error ho h
  · simp [Plan.joinsTable, ho, hmode, hm, Except.isOk, Except.toBool]
  · rw [hc.joinsTable_eq]
    simpa using hfails

theorem Places.proxies_names (h : Places p s i s' t) :
    s'.link.proxies.names =
      s.link.proxies.names ++ ([i].filter p.joinsTable).map Ident.finalName := by
  cases h with
  | nothing ho => simp [Plan.joinsTable, ho]
  | declared ho hp _ => exact proxied_names ho hp
  | moved ho hp _ =>
    rw [LinkState.implement_proxies]
    exact proxied_names ho hp

theorem joinsTable_of_place {own : Option String} {e : LinkError} (ho : p.ownText i = .ok own)
    (h : own.elim (s, .ok "") (s.place p i) = (s', .error e)) : p.joinsTable i = false := by
  cases own with
  | none => simp at h
  | some own =>
    rw [Option.elim_some, place] at h
    split at h
    · rename_i hp
      exact joinsTable_of_error ho (congrArg Prod.snd hp)
    · dsimp only at h
      split at h <;> simp at h

end Placed

section Step

theorem adds_of_turnBack (s : Session) (i : Ident) : Adds p s (s.turnBack i) [] := by
  refine .of_eq (turnBack_trace s i) ?_ (turnBack_proxies s i) fun hm j hj => ?_
  · rw [Pass.statements, turnBack_fragments]
    rfl
  · rw [turnBack_postsets] at hj
    exact (mem_turnBack_resolved s i).2 (.inl (hm j hj))

theorem adds_of_start {e : LinkError} (ho : p.ownText i = .error e) :
    Adds p s (s.start p i) [i] where
  begun := by simp [Pass.begun, begun?]
  names := by simp [begunNames]
  statements := by
    have hnone : p.collected? i = none := by
      simp [Plan.collected?, ho, Except.isOk, Except.toBool]
    rw [Pass.statements, start_fragments, List.filterMap_cons_none hnone, List.filterMap_nil,
      List.append_nil]
    rfl
  proxies := by simp [Plan.joinsTable, ho]
  marked hm j hj := by
    rw [start_postsets] at hj
    exact (mem_start_resolved p s i).2 (.inl (hm j hj))

def readied (p : Plan) (s : Session) (i : Ident) : Session :=
  ((s.start p i).announce p i).addPostset p i

theorem readied_statements {own : Option String} (hm : Marked s) (ht : ¬s.TurnsBack i)
    (ho : p.ownText i = .ok own) :
    (readied p s i).pass.statements = s.pass.statements ++ [i].filterMap p.collected? := by
  have hnew : ((s.start p i).announce p i).pass.hasPostset i = false := by
    rw [Pass.hasPostset, announce_postsets, start_postsets, ← Bool.not_eq_true,
      List.contains_iff_mem]
    exact fun hi => ht (.inr (.inr (hm i hi)))
  have hcollected : p.collected? i = p.postset? i := by
    simp [Plan.collected?, ho, Except.isOk, Except.toBool]
  rw [readied, addPostset_statements, hnew, Pass.statements, announce_fragments, start_fragments]
  cases hd : p.postset? i with
  | none => simp [hcollected, hd, Pass.statements]
  | some d => simp [hcollected, hd, Pass.statements]

theorem readied_marked (hm : Marked s) : Marked (readied p s i) := by
  intro j hj
  rw [readied, addPostset_resolved, announce_resolved, mem_start_resolved]
  obtain hj | rfl := mem_addPostset_postsets _ _ _ hj
  · rw [announce_postsets, start_postsets] at hj
    exact .inl (hm j hj)
  · exact .inr rfl

theorem resolve_of_deps_nil (hd : p.deps i = []) (ht : ¬s.TurnsBack i) :
    s.resolve p i =
      match p.ownText i with
      | .error e => (s.start p i, .error e)
      | .ok own =>
        match own.elim (readied p s i, .ok "") ((readied p s i).place p i) with
        | (s, .error e) => (s, .error e)
        | (s, .ok text) => (s.conclude p i (joinTexts [text]), .ok (joinTexts [text])) := by
  rw [TurnsBack] at ht
  rw [resolve_eq, if_neg ht, hd]
  rfl

theorem adds_of_resolve (hside : p.config.linkage = .sideModule) (hm : Marked s) :
    ∃ is, is ⊆ [i] ∧ Adds p s (s.resolve p i).1 is := by
  by_cases ht : s.TurnsBack i
  · rw [resolve_of_turnsBack ht]
    exact ⟨[], List.nil_subset _, adds_of_turnBack s i⟩
  refine ⟨[i], List.Subset.refl _, ?_⟩
  rw [resolve_of_deps_nil (Plan.deps_of_sideModule hside) ht]
  cases ho : p.ownText i with
  | error e => exact adds_of_start ho
  | ok own =>
    dsimp only
    have hstatements := readied_statements hm ht ho
    split
    · rename_i s₁ e hp
      have hjoins := joinsTable_of_place ho hp
      rw [session_of_place hp]
      exact {
        begun := by simp [readied, Pass.begun, begun?]
        names := by simp [readied, begunNames]
        statements := hstatements
        proxies := by simp [readied, hjoins]
        marked := readied_marked }
    · rename_i s₁ t hp
      have hplaces := places_of_place ho hp
      exact {
        begun := by simp [readied, Pass.begun, begun?, hplaces.trace_eq]
        names := by simp [readied, begunNames, hplaces.trace_eq]
        statements := by
          rw [Pass.statements, conclude_fragments, ← Pass.statements, hplaces.statements_eq,
            hstatements]
        proxies := by
          rw [conclude_proxies, hplaces.proxies_names]
          simp [readied]
        marked := fun hm j hj => by
          rw [conclude_resolved, hplaces.resolved_eq]
          rw [conclude_postsets, hplaces.postsets_eq] at hj
          exact readied_marked hm j hj }

theorem adds_of_perform (hside : p.config.linkage = .sideModule) (hm : Marked s) (step : Step) :
    ∃ is, is ⊆ [step.ident] ∧ Adds p s (s.perform p step).1 is := by
  cases step with
  | resolve i =>
    obtain ⟨is, his, hadds⟩ := adds_of_resolve (i := i) hside hm
    refine ⟨is, his, ?_⟩
    rw [perform]
    cases hr : s.resolve p i with
    | mk s₁ r =>
      rw [hr] at hadds
      cases r <;> exact hadds
  | request r =>
    have hnoted : Adds p s (s.noted r) [] := .of_eq rfl rfl noted_proxies id
    obtain ⟨is, his, hadds⟩ := adds_of_resolve (i := r.ident) hside (hnoted.marked hm)
    refine ⟨is, his, ?_⟩
    rw [perform, request_eq]
    cases hr : (s.noted r).resolve p r.ident with
    | mk s₁ res =>
      rw [hr] at hadds
      cases res with
      | error e => exact hnoted.trans hadds
      | ok t =>
        have hdelivered : Adds p s₁ (s₁.delivered r.ident.finalName t) [] := by
          refine .of_eq delivered_trace delivered_statements (by rw [delivered_link]) fun hm j hj => ?_
          rw [delivered_postsets] at hj
          rw [delivered_resolved]
          exact hm j hj
        have hall := (hnoted.trans hadds).trans hdelivered
        rwa [List.nil_append, List.append_nil] at hall

theorem adds_of_performAll (hside : p.config.linkage = .sideModule) (hm : Marked s)
    (steps : List Step) :
    ∃ is, is ⊆ steps.map Step.ident ∧ Adds p s (s.performAll p steps) is := by
  induction steps generalizing s with
  | nil => exact ⟨[], List.nil_subset _, .of_eq rfl rfl rfl id⟩
  | cons step steps ih =>
    obtain ⟨is, his, hstep⟩ := adds_of_perform hside hm step
    obtain ⟨js, hjs, hrest⟩ := ih (hstep.marked hm)
    refine ⟨is ++ js, ?_, hstep.trans hrest⟩
    rw [List.map_cons]
    exact List.append_subset.2 ⟨fun j hj => List.mem_cons.2 (.inl (List.mem_singleton.1 (his hj))),
      fun j hj => List.mem_cons_of_mem _ (hjs hj)⟩

end Step

/-- A pass of a side module begins nothing but what its steps ask for. It collects postsets and
proxies calls only for dead functions; so it does neither exactly if none of those that it begins
has a postset or a mode to be proxied in. -/
theorem performAll_of_sideModule (hside : p.config.linkage = .sideModule) (l : LinkState)
    (steps : List Step) (hs : Session.performAll p { link := l } steps = s) :
    s.pass.begun ⊆ steps.map Step.ident ∧
    begunNames s.pass.trace = s.pass.begun.map Ident.finalName ∧
    s.pass.statements = s.pass.begun.filterMap p.collected? ∧
    s.link.proxies.names =
      l.proxies.names ++ (s.pass.begun.filter p.joinsTable).map Ident.finalName ∧
    (((∀ d, .postset d ∉ s.pass.fragments) ∧ s.link.proxies = l.proxies) ↔
      ∀ i ∈ s.pass.begun, p.outcome i = .deadStub →
        p.collected? i = none ∧ ¬p.joinsTable i) := by
  have hempty : Marked { link := l } := fun j hj => absurd hj List.not_mem_nil
  obtain ⟨is, his, hadds⟩ := adds_of_performAll hside hempty steps
  rw [hs] at hadds
  obtain rfl : s.pass.begun = is := hadds.begun
  have hstatements : s.pass.statements = s.pass.begun.filterMap p.collected? := hadds.statements
  refine ⟨his, hadds.names, hstatements, hadds.proxies, ?_⟩
  have hpostsets : (∀ d, .postset d ∉ s.pass.fragments) ↔
      ∀ i ∈ s.pass.begun, p.collected? i = none := by
    rw [← Pass.statements_eq_nil_iff, hstatements, List.filterMap_eq_nil_iff]
  have hproxies : s.link.proxies = l.proxies ↔ ∀ i ∈ s.pass.begun, ¬p.joinsTable i := by
    rw [← ProxyTable.names_inj, hadds.proxies, List.append_right_eq_self, List.map_eq_nil_iff,
      List.filter_eq_nil_iff]
  rw [hpostsets, hproxies]
  constructor
  · exact fun h i hi _ => ⟨h.1 i hi, h.2 i hi⟩
  · intro h
    have hall : ∀ i ∈ s.pass.begun, p.collected? i = none ∧ ¬p.joinsTable i := by
      intro i hi
      by_cases hdead : p.outcome i = .deadStub
      · exact h i hi hdead
      · have halone := Plan.standsAlone_of_sideModule hside hdead
        exact ⟨Plan.collected?_of_standsAlone halone,
          by simp [Plan.joinsTable_of_standsAlone halone]⟩
    exact ⟨fun i hi => (hall i hi).1, fun i hi => (hall i hi).2⟩

/-- A side module with a dead function and a function that depends on it. -/
def deadInSideModule : Plan where
  catalog := {
    items := [
      (⟨"K"⟩, {
        entry := some (.body "function() \x7b\x7d")
        proxy := some "sync"
        postset := some ⟨none, none, "initK()"⟩ }),
      (⟨"L"⟩, {
        entry := some (.body "function() \x7b\x7d")
        deps := [⟨"K"⟩]
        proxy := some "sync"
        postset := some ⟨none, none, "initL()"⟩ })]
    order := [⟨"K"⟩, ⟨"L"⟩] }
  config := {
    linkage := .sideModule
    threadProxying := true
    assertions := false
    deadNames := [⟨"_K"⟩] }

theorem deadInSideModule_forwards :
    ∃ s, Session.performAll deadInSideModule { link := { proxies := ⟨[⟨"_main"⟩]⟩ } }
        [.request ⟨⟨"L"⟩, none, none⟩, .resolve ⟨"absent"⟩] = s ∧
      s.pass.begun = [⟨"L"⟩, ⟨"absent"⟩] ∧ (∀ d, .postset d ∉ s.pass.fragments) ∧
      s.link.proxies = ⟨[⟨"_main"⟩]⟩ := by
  obtain ⟨s, hs⟩ : ∃ s, Session.performAll deadInSideModule { link := { proxies := ⟨[⟨"_main"⟩]⟩ } }
      [.request ⟨⟨"L"⟩, none, none⟩, .resolve ⟨"absent"⟩] = s := ⟨_, rfl⟩
  have hbegun : s.pass.begun = [⟨"L"⟩, ⟨"absent"⟩] := by
    rw [← hs]
    decide +kernel
  obtain ⟨-, -, -, -, hneither⟩ := performAll_of_sideModule (p := deadInSideModule) rfl _ _ hs
  have halive : ∀ i ∈ s.pass.begun, deadInSideModule.outcome i ≠ .deadStub := by
    rw [hbegun]
    decide
  exact ⟨s, hs, hbegun, hneither.2 fun i hi hdead => absurd hdead (halive i hi)⟩

/-- The stub of the dead function is proxied, and its postset is collected. -/
theorem deadInSideModule_collects :
    ∃ s, Session.performAll deadInSideModule { link := {} } [.request ⟨⟨"K"⟩, none, none⟩] = s ∧
      deadInSideModule.config.linkage = .sideModule ∧
      .postset ⟨none, none, "initK();"⟩ ∈ s.pass.fragments ∧ s.link.proxies.names = [⟨"_K"⟩] := by
  refine ⟨_, rfl, rfl, ?_⟩
  decide +kernel

end Session

end CatalogLinker
