import CatalogLinker.Proofs.FunctionBody.Agreement
import CatalogLinker.Proofs.Link.Forwarding
import CatalogLinker.Proofs.Proxy.Rewriting
import CatalogLinker.Proofs.Resolution.Repetition
import CatalogLinker.Proofs.Resolution.SideModule

namespace CatalogLinker

theorem ExportSet.requestAll_of_forall_contains {e : ExportSet} {ns : List Name}
    (h : ∀ n ∈ ns, e.contains n) : e.requestAll ns = e := by
  induction ns with
  | nil => rfl
  | cons n ns ih =>
    have hn : e.request n = e := if_pos (h n List.mem_cons_self)
    rw [requestAll, List.foldl_cons, hn]
    exact ih fun m hm => h m (List.mem_cons_of_mem n hm)

theorem ProxyTable.ne_of_rewrite {t t' : ProxyTable} {n : Name} {body text : String}
    {mode : ProxyMode} (h : t.rewrite n body mode = (t', .ok text)) : text ≠ body := by
  obtain ⟨header, hcuts, rfl⟩ := exists_cuts_of_proxy (proxy_eq_ok_iff_rewrite.2 h)
  intro heq
  have hcuts' : (header.proxied t.nextIndex mode).Cuts (inject t.nextIndex mode header) :=
    hcuts.proxied
  rw [← String.toList_ofList (l := inject t.nextIndex mode header), heq] at hcuts'
  -- A text is cut at one header, and the dispatch stands behind it.
  have hsame : header = header.proxied t.nextIndex mode := Option.some.inj
    ((FunctionHeader.find?_eq_some_iff.2 hcuts).symm.trans
      (FunctionHeader.find?_eq_some_iff.2 hcuts'))
  have hlength := congrArg (List.length ∘ FunctionHeader.after) hsame
  simp only [Function.comp_apply, FunctionHeader.proxied, List.length_cons, List.length_append]
    at hlength
  omega

namespace FunctionBody

variable {i : Ident} {n : Name} {code text : String}

theorem prepare_ne_empty (h : prepare i n code = .ok text) : text ≠ "" := by
  obtain ⟨-, b, m, a, -, htext⟩ := prepare_eq_ok_iff.1 h
  intro hempty
  rw [hempty, String.toList_empty, named, header] at htext
  simpa using htext.symm

theorem traced_ne_empty (h : traced i n code = .ok text) : text ≠ "" := by
  obtain ⟨head, inner, -, htext⟩ := traced_eq_ok_iff.1 h
  intro hempty
  have hend : traceEnd = "" := (String.append_eq_empty_iff.1 (htext.symm.trans hempty)).2
  exact absurd (String.append_eq_empty_iff.1 hend).2 (by simp)

end FunctionBody

namespace Plan

variable {p : Plan} {i : Ident} {holder : String}

theorem functionText_ne_empty {code text : String} (h : p.functionText i code = .ok text) :
    text ≠ "" := by
  obtain ⟨named, hnamed, h⟩ := bind_ok h
  split at h
  · exact FunctionBody.traced_ne_empty h
  · rw [← Except.ok.inj h]
    exact FunctionBody.prepare_ne_empty hnamed

def thunkText (p : Plan) (i : Ident) (holder : String) : Except LinkError String :=
  p.functionText i (FunctionBody.forwardingThunk i (forwardTarget i holder) p.config.assertions)

namespace Forwards

theorem ownText_eq (h : p.Forwards i holder) :
    p.ownText i = (p.thunkText i holder).map some := by
  have hreads := h.reads
  rw [Reads, ← forwardTarget_eq] at hreads
  rw [ownText, hreads, thunkText]

theorem isFunction (h : p.Forwards i holder) : p.isFunction i := by
  rw [Plan.isFunction, h.reads]

theorem outcome_eq (h : p.Forwards i holder) :
    p.outcome i =
      if p.config.linkage = .mainModule then .forwardedToModule else .forwardedToParent := by
  cases h with
  | toParent hside hd =>
    have hdead : ¬(p.isListedDead i && !(p.item i).inCompiledSection) := by
      simpa [isListedDead, IsDead] using hd
    rw [outcome, if_neg hdead, if_pos hside, hside]
    rfl
  | toModule hmain hdead hi =>
    rw [outcome_of_pursues ⟨hdead, by rw [hmain]; decide⟩, if_pos (by simpa using hi), if_pos hmain,
      if_pos hmain]

theorem not_isRegistrable (h : p.Forwards i holder) : ¬p.isRegistrable i := by
  rw [isRegistrable, decide_eq_true_iff, h.outcome_eq]
  split_ifs <;> simp

end Forwards

end Plan

namespace Session

variable (p : Plan)

/-- A resolution links a thunk and nothing else. -/
structure LinksOnly (i : Ident) (holder : String) (s s' : Session) (t : String) : Prop where
  text : p.thunkText i holder = .ok t
  resolved : ∀ n, n ∈ s'.pass.resolved ↔ n ∈ s.pass.resolved ∨ n = i.finalName
  statements : s'.pass.statements = s.pass.statements
  exports : s'.link.exports = s.link.exports

/-- Nothing that belongs to an identifier has an effect on a session. -/
structure Inert (s : Session) (i : Ident) : Prop where
  deps : ∀ d ∈ p.deps i, d.isMetadataKey ∨ d.finalName = i.finalName ∨ Settled d.finalName s
  autoexports : ∀ n ∈ p.autoexports i, s.link.exports.contains n
  compiledDeps : ∀ n ∈ p.compiledDeps i, s.link.exports.contains n
  postset : p.postset? i = none ∨ s.pass.hasPostset i
  proxyMode : p.proxyMode? i = none
  compiledSig : p.compiledSig? i = none

variable {p} {s s' : Session} {i d : Ident} {is : List Ident} {n : Name} {t own : String}
  {ts : List String} {holder : String}

theorem Proceeds.compiled_eq (h : Proceeds p s s') : s'.link.compiled = s.link.compiled := by
  induction h with
  | refl => rfl
  | noted r _ ih => rwa [noted_compiled]
  | delivered m t _ ih => rwa [delivered_link]
  | turnBack i _ ih => rwa [turnBack_compiled]
  | start i _ ih => exact ih
  | announce i _ ih => rwa [announce_compiled]
  | addPostset i _ ih => rwa [addPostset_link]
  | finish u _ hp ih => rwa [conclude_compiled, hp.compiled_eq]

section Dependencies

theorem resolveAll_of_settled (h : ∀ d ∈ is, d.isMetadataKey ∨ Settled d.finalName s) :
    s.resolveAll p is = (s, .ok (is.map fun _ => "")) := by
  induction is with
  | nil => rfl
  | cons d is ih =>
    have hd : s.resolve p d = (s, .ok "") := by
      obtain hm | hs := h d List.mem_cons_self
      · rw [resolve_of_turnsBack (.inl hm), turnBack, if_pos hm]
      · exact resolve_of_settled hs
    exact resolveAll_cons_ok hd (ih fun c hc => h c (List.mem_cons_of_mem d hc))

theorem settled_of_resolveAll (h : s.resolveAll p is = (s', .ok ts)) (hd : d ∈ is)
    (hm : ¬d.isMetadataKey) : Settled d.finalName s' := by
  induction is generalizing s ts with
  | nil => exact absurd hd List.not_mem_nil
  | cons c is ih =>
    obtain ⟨s₁, t, us, hc, hrest⟩ := resolveAll_cons_inv h
    obtain rfl | hd := List.mem_cons.1 hd
    · have hlater := proceeds_resolveAll (p := p) s₁ is
      rw [hrest] at hlater
      exact hlater.settled (settled_of_resolve hm hc)
    · exact ih hrest hd

theorem settled_announce (ht : ¬s.TurnsBack i)
    (h : n = i.finalName ∨ Settled n s) : Settled n ((s.start p i).announce p i) := by
  obtain rfl | hs := h
  · refine .inr ⟨?_, (mem_start_resolved p s i).2 (.inr rfl)⟩
    rw [announce_compiled, start_link]
    exact fun hc => ht (.inr (.inl ((isClosed_iff s _).2 (.inl hc))))
  · exact (Proceeds.announce i (.start i .refl)).settled hs

theorem settled_of_proceeds (h : Proceeds p s s') (hs : Settled n s')
    (he : s'.link.exports.contains n → s.link.exports.contains n)
    (hr : n ∈ s'.pass.resolved → n ∈ s.pass.resolved ∨ n = i.finalName) :
    n = i.finalName ∨ Settled n s := by
  rw [Settled, h.compiled_eq] at hs
  obtain ⟨hc, hn⟩ | ⟨hc, hn⟩ := hs
  · exact .inr (.inl ⟨hc, he hn⟩)
  · exact (hr hn).symm.imp_right fun hn => .inr ⟨hc, hn⟩

end Dependencies

theorem Places.text_eq_iff (h : Places p s i s' t) (ho : p.ownText i = .ok (some own))
    (hne : own ≠ "") (hr : ¬p.isRegistrable i) :
    t = own ↔ p.proxyMode? i = none ∧ p.compiledSig? i = none := by
  cases h with
  | nothing ho' => simp [ho] at ho'
  | @declared own' text x ho' hp hsig =>
    obtain rfl : own = own' := Option.some.inj (Except.ok.inj (ho.symm.trans ho'))
    rw [registered, if_neg (by simp [hr]), and_iff_left hsig]
    obtain ⟨hmode, rfl, -⟩ | ⟨c, ⟨-, hbody, mode, hmode, -⟩, hcall⟩ := call_of_proxied ho hp
    · exact iff_of_true rfl hmode
    · obtain rfl : own = c.body := Option.some.inj (Except.ok.inj (ho.symm.trans hbody))
      exact iff_of_false (ProxyTable.ne_of_rewrite hcall) (by simp [hmode])
  | moved _ _ hsig => exact iff_of_false hne.symm (by simp [hsig])

theorem joinTexts_of_map_empty (is : List Ident) (t : String) :
    joinTexts (is.map (fun _ => "") ++ [t]) = t := by
  induction is with
  | nil => exact joinTexts_singleton t
  | cons i is ih => rwa [List.map_cons, List.cons_append, joinTexts_empty_cons]

theorem exports_announce :
    ((s.start p i).announce p i).link.exports = s.link.exports.requestAll (p.autoexports i) := by
  rw [announce]
  dsimp only
  split_ifs
  · rw [LinkState.requestExports, LinkState.markLibraryFn_exports, start_link]
  · rfl

theorem exports_eq_iff (hp : Places p (readied p s i) i s' t) (w : String) :
    (s'.conclude p i w).link.exports = s.link.exports ↔
      (∀ n ∈ p.autoexports i, s.link.exports.contains n) ∧
        ∀ n ∈ p.compiledDeps i, s.link.exports.contains n := by
  have hplaced : s'.link.exports = s.link.exports.requestAll (p.autoexports i) := by
    rw [hp.exports_eq, readied, addPostset_link, exports_announce]
  have hconclude : (s'.conclude p i w).link.exports =
      (s.link.exports.requestAll (p.autoexports i)).requestAll (p.compiledDeps i) := by
    rw [← hplaced]
    rfl
  rw [hconclude]
  constructor
  · intro h
    have hmem : ∀ n, s.link.exports.contains n ∨ n ∈ p.autoexports i ∨ n ∈ p.compiledDeps i →
        s.link.exports.contains n := by
      intro n hn
      rw [← h, ExportSet.contains_requestAll, ExportSet.contains_requestAll, or_assoc]
      exact hn
    exact ⟨fun n hn => hmem n (.inr (.inl hn)), fun n hn => hmem n (.inr (.inr hn))⟩
  · rintro ⟨hauto, hcompiled⟩
    rw [ExportSet.requestAll_of_forall_contains hauto,
      ExportSet.requestAll_of_forall_contains hcompiled]

theorem statements_eq_iff (hp : Places p (readied p s i) i s' t) (w : String) :
    (s'.conclude p i w).pass.statements = s.pass.statements ↔
      p.postset? i = none ∨ s.pass.hasPostset i := by
  have hconclude : (s'.conclude p i w).pass.statements =
      s.pass.statements ++ if s.pass.hasPostset i then [] else (p.postset? i).toList := by
    have hstatements := hp.statements_eq
    rw [readied, addPostset_statements] at hstatements
    simpa [Pass.statements, Pass.hasPostset] using hstatements
  rw [hconclude, List.append_right_eq_self]
  by_cases hs : s.pass.hasPostset i <;> simp [hs]

theorem readied_of_settled {s₁ : Session} (ht : ¬s.TurnsBack i)
    (hd : ((s.start p i).announce p i).resolveAll p (p.deps i) = (s₁, .ok ts))
    (hs : ∀ d ∈ p.deps i, d.isMetadataKey ∨ d.finalName = i.finalName ∨ Settled d.finalName s) :
    s₁.addPostset p i = readied p s i ∧ ∀ u, joinTexts (ts ++ [u]) = u := by
  have hall := resolveAll_of_settled (p := p) fun d hd =>
    (hs d hd).imp_right (settled_announce (p := p) ht)
  obtain ⟨rfl, hts⟩ := Prod.mk.inj (hd.symm.trans hall)
  rw [Except.ok.inj hts]
  exact ⟨rfl, joinTexts_of_map_empty _⟩

theorem settled_of_linksOnly {s₁ : Session} (hl : LinksOnly p i holder s s' t)
    (hd : ((s.start p i).announce p i).resolveAll p (p.deps i) = (s₁, .ok ts))
    (hafter : Proceeds p s₁ s') (d : Ident) (hmem : d ∈ p.deps i) :
    d.isMetadataKey ∨ d.finalName = i.finalName ∨ Settled d.finalName s := by
  by_cases hm : d.isMetadataKey
  · exact .inl hm
  · have hdeps := proceeds_resolveAll (p := p) ((s.start p i).announce p i) (p.deps i)
    rw [hd] at hdeps
    have hall : Proceeds p s s' := (Proceeds.announce i (.start i .refl)).trans (hdeps.trans hafter)
    have hsettled : Settled d.finalName s' := hafter.settled (settled_of_resolveAll hd hmem hm)
    refine .inr (settled_of_proceeds hall hsettled ?_ (hl.resolved _).1)
    rw [hl.exports]
    exact id

/-- A thunk is linked alone exactly if nothing that belongs to its identifier has an effect. -/
theorem linksOnly_iff_inert (hf : p.Forwards i holder) (ht : ¬s.TurnsBack i)
    (h : s.resolve p i = (s', .ok t)) : LinksOnly p i holder s s' t ↔ Inert p s i := by
  cases resolves s i h with
  | turnedBack ht' => exact absurd ht' ht
  | @completed own? s₁ s₂ ts u _ ho hd hp =>
    obtain ⟨own, hthunk, rfl⟩ : ∃ own, p.thunkText i holder = .ok own ∧ some own = own? :=
      map_ok (hf.ownText_eq.symm.trans ho)
    have htext := hp.text_eq_iff ho (Plan.functionText_ne_empty hthunk) hf.not_isRegistrable
    constructor
    · intro hl
      have hafter : Proceeds p s₁ (s₂.conclude p i (joinTexts (ts ++ [u]))) :=
        .finish _ (.addPostset i .refl) hp
      have hs := settled_of_linksOnly hl hd hafter
      obtain ⟨hready, hjoin⟩ := readied_of_settled ht hd hs
      rw [hready] at hp
      obtain ⟨hauto, hcompiled⟩ := (exports_eq_iff hp _).1 hl.exports
      have hown : own = u := by
        have htext' := hl.text
        rw [hjoin, hthunk] at htext'
        exact Except.ok.inj htext'
      exact ⟨hs, hauto, hcompiled, (statements_eq_iff hp _).1 hl.statements,
        (htext.1 hown.symm).1, (htext.1 hown.symm).2⟩
    · intro hi
      obtain ⟨hready, hjoin⟩ := readied_of_settled ht hd hi.deps
      rw [hready] at hp
      refine ⟨?_, fun n => ?_, (statements_eq_iff hp _).2 hi.postset,
        (exports_eq_iff hp _).2 ⟨hi.autoexports, hi.compiledDeps⟩⟩
      · rw [hjoin, hthunk, htext.2 ⟨hi.proxyMode, hi.compiledSig⟩]
      · rw [conclude_resolved, hp.resolved_eq, readied, addPostset_resolved, announce_resolved,
          mem_start_resolved]

section Linkage

/-- None of the metadata of an identifier has an effect on a session. -/
structure MetadataIdle (p : Plan) (s : Session) (i : Ident) : Prop where
  deps : ∀ d ∈ (p.item i).deps,
    d.isMetadataKey ∨ d.finalName = i.finalName ∨ Settled d.finalName s
  autoexported : ∀ d ∈ (p.item i).deps, d ∈ p.config.autoexports →
    s.link.exports.contains d.finalName
  compiled : ∀ d ∈ (p.item i).deps, (p.item d).inCompiledSection →
    ¬(p.item i).inCompiledSection → s.link.exports.contains d.finalName
  postset : (p.item i).postset = none ∨ s.pass.hasPostset i
  proxy : (p.item i).proxy = none ∨ ¬p.config.threadProxying
  sig : (p.item i).sig = none ∨ ¬(p.item i).inCompiledSection

theorem inert_of_sideModule (hf : p.Forwards i holder) (hside : p.config.linkage = .sideModule) :
    Inert p s i := by
  have hdeps : p.deps i = [] := Plan.deps_of_sideModule hside
  have hmain : p.config.linkage ≠ .mainModule := by rw [hside]; decide
  have halone : p.standsAlone i := by simp [Plan.standsAlone, hf.outcome_eq, hmain]
  constructor
  · simp [hdeps]
  · simp [Plan.autoexports, hdeps]
  · simp [Plan.compiledDeps, hdeps]
  · exact .inl (by simp [Plan.postset?, halone])
  · simp [Plan.proxyMode?, halone]
  · simp [Plan.compiledSig?, halone]

theorem deps_of_mainModule (hf : p.Forwards i holder) (hmain : p.config.linkage = .mainModule) :
    p.deps i = (p.item i).deps := by
  have hundefined : ¬p.isDefined i := by
    cases hf with
    | toParent hside _ => exact absurd (hmain.symm.trans hside) (by decide)
    | toModule _ _ hi => exact hi
  have hcatch : Plan.isNumberedCatch i = false := by
    simp only [Plan.isDefined, Bool.or_eq_true, not_or, Bool.not_eq_true] at hundefined
    exact hundefined.1
  have hentry := hf.reads
  rw [Plan.Reads] at hentry
  simp [Plan.deps, Plan.declaredDeps, Plan.linkedTarget?, hf.outcome_eq, hmain, hcatch, hentry]

theorem inert_iff_of_mainModule (hf : p.Forwards i holder)
    (hmain : p.config.linkage = .mainModule) : Inert p s i ↔ MetadataIdle p s i := by
  have hdeps := deps_of_mainModule hf hmain
  have halone : p.standsAlone i = false := by simp [Plan.standsAlone, hf.outcome_eq, hmain]
  have hauto : ∀ n, n ∈ p.autoexports i ↔
      ∃ d ∈ (p.item i).deps, d ∈ p.config.autoexports ∧ d.finalName = n := by
    simp [Plan.autoexports, hdeps, and_assoc]
  have hcompiled : ∀ n, n ∈ p.compiledDeps i ↔ ¬(p.item i).inCompiledSection ∧
      ∃ d ∈ (p.item i).deps, (p.item d).inCompiledSection ∧ d.finalName = n := by
    intro n
    rw [Plan.compiledDeps, hdeps]
    split_ifs with hi <;> simp [hi, and_assoc]
  have hpostset : p.postset? i = none ↔ (p.item i).postset = none := by
    simp [Plan.postset?, halone]
  have hproxy : p.proxyMode? i = none ↔ (p.item i).proxy = none ∨ ¬p.config.threadProxying := by
    rw [Plan.proxyMode?, hf.isFunction, halone]
    cases p.config.threadProxying <;> simp
  have hsig : p.compiledSig? i = none ↔
      (p.item i).sig = none ∨ ¬(p.item i).inCompiledSection := by
    rw [Plan.compiledSig?, hf.isFunction, halone]
    cases (p.item i).inCompiledSection <;> simp
  constructor
  · intro h
    exact ⟨hdeps ▸ h.deps, fun d hd ha => h.autoexports _ ((hauto _).2 ⟨d, hd, ha, rfl⟩),
      fun d hd hc hi => h.compiledDeps _ ((hcompiled _).2 ⟨hi, d, hd, hc, rfl⟩),
      h.postset.imp_left hpostset.1, hproxy.1 h.proxyMode, hsig.1 h.compiledSig⟩
  · intro h
    refine ⟨hdeps ▸ h.deps, fun n hn => ?_, fun n hn => ?_, h.postset.imp_left hpostset.2,
      hproxy.2 h.proxy, hsig.2 h.sig⟩
    · obtain ⟨d, hd, ha, rfl⟩ := (hauto n).1 hn
      exact h.autoexported d hd ha
    · obtain ⟨hi, d, hd, hc, rfl⟩ := (hcompiled n).1 hn
      exact h.compiled d hd hc hi

end Linkage

/-- A resolution that begins an identifier and satisfies it with a thunk links nothing but the
thunk, except that in a main module the metadata of the identifier must not have an effect. -/
theorem thunk_linked_alone_iff (hf : p.Forwards i holder) (ht : ¬s.TurnsBack i)
    (h : s.resolve p i = (s', .ok t)) :
    LinksOnly p i holder s s' t ↔ (p.config.linkage = .mainModule → MetadataIdle p s i) := by
  rw [linksOnly_iff_inert hf ht h]
  by_cases hmain : p.config.linkage = .mainModule
  · rw [inert_iff_of_mainModule hf hmain, forall_prop_of_true hmain]
  · refine iff_of_true ?_ fun hm => absurd hm hmain
    cases hf with
    | toParent hside hdead => exact inert_of_sideModule (.toParent hside hdead) hside
    | toModule hm _ _ => exact absurd hm hmain

/-- Two identifiers that have nothing but metadata, and a value. -/
def annotated (linkage : Linkage) : Plan where
  catalog := {
    items := [
      (⟨"x"⟩, {
        deps := [⟨"y"⟩]
        proxy := some "sync"
        postset := some ⟨none, none, "initX()"⟩ }),
      (⟨"y"⟩, { entry := some (.raw "1") }),
      (⟨"z"⟩, { deps := [⟨"y"⟩], sig := some "v" })]
    order := [⟨"y"⟩] }
  config := { linkage, assertions := false, autoexports := [⟨"y"⟩] }

def provided : Session :=
  (Session.resolve (annotated .mainModule) { link := { exports := .ofList [⟨"_y"⟩] } } ⟨"y"⟩).1

theorem annotated_alone :
    (∃ s t, Session.resolve (annotated .sideModule) { link := {} } ⟨"x"⟩ = (s, .ok t) ∧
      LinksOnly (annotated .sideModule) ⟨"x"⟩ "parentModule" { link := {} } s t ∧
      t = "function _x() \x7b\n  return parentModule['_x'].apply(null, arguments);\n\x7d") ∧
    ∃ s t, Session.resolve (annotated .mainModule) provided ⟨"z"⟩ = (s, .ok t) ∧
      LinksOnly (annotated .mainModule) ⟨"z"⟩ "Module" provided s t ∧
      t = "function _z() \x7b\n  return Module['_z'].apply(null, arguments);\n\x7d" := by
  have hside : Session.resolve (annotated .sideModule) { link := {} } ⟨"x"⟩ =
      (_, .ok "function _x() \x7b\n  return parentModule['_x'].apply(null, arguments);\n\x7d") :=
    Prod.ext rfl (by decide +kernel)
  have hmain : Session.resolve (annotated .mainModule) provided ⟨"z"⟩ =
      (_, .ok "function _z() \x7b\n  return Module['_z'].apply(null, arguments);\n\x7d") :=
    Prod.ext rfl (by decide +kernel)
  have hparent : (annotated .sideModule).Forwards ⟨"x"⟩ "parentModule" :=
    .toParent rfl fun hd => absurd hd.1 List.not_mem_nil
  have hmodule : (annotated .mainModule).Forwards ⟨"z"⟩ "Module" :=
    .toModule rfl (fun hd => absurd hd.1 List.not_mem_nil) (by decide +kernel)
  have hx : ¬Session.TurnsBack { link := {} } ⟨"x"⟩ := by
    rw [TurnsBack]
    decide +kernel
  have hz : ¬provided.TurnsBack ⟨"z"⟩ := by
    rw [TurnsBack]
    decide +kernel
  have hdeps : ∀ d ∈ ((annotated .mainModule).item ⟨"z"⟩).deps,
      provided.link.exports.contains d.finalName ∧
        d.finalName ∉ provided.link.compiled ∧ d.finalName ∈ provided.pass.resolved := by
    decide +kernel
  have hidle : MetadataIdle (annotated .mainModule) provided ⟨"z"⟩ := {
    deps := fun d hd => .inr (.inr (.inr (hdeps d hd).2))
    autoexported := fun d hd _ => (hdeps d hd).1
    compiled := fun d hd _ _ => (hdeps d hd).1
    postset := .inl rfl
    proxy := .inl rfl
    sig := .inr (by decide +kernel) }
  exact ⟨⟨_, _, hside, (thunk_linked_alone_iff hparent hx hside).2 nofun, rfl⟩,
    _, _, hmain, (thunk_linked_alone_iff hmodule hz hmain).2 fun _ => hidle, rfl⟩

/-- In a main module the value that the metadata of the first identifier name comes with its thunk,
is exported, and a postset is collected. -/
theorem annotated_accompanied :
    ∃ s, Session.resolve (annotated .mainModule) { link := {} } ⟨"x"⟩ =
        (s, .ok ("var _y=1;\nModule[\"_y\"] = _y;\n" ++
          "function _x() \x7b\n  return Module['_x'].apply(null, arguments);\n\x7d")) ∧
      (annotated .mainModule).Forwards ⟨"x"⟩ "Module" ∧
      ¬Session.TurnsBack { link := {} } ⟨"x"⟩ ∧
      ⟨"_y"⟩ ∈ s.pass.resolved ∧ s.pass.statements = [⟨none, none, "initX();"⟩] ∧
      s.link.exports.names = [⟨"_y"⟩] := by
  refine ⟨_, Prod.ext rfl (by decide +kernel), ?_, ?_, by decide +kernel⟩
  · exact .toModule rfl (fun hd => absurd hd.1 List.not_mem_nil) (by decide +kernel)
  · rw [TurnsBack]
    decide +kernel

end Session

end CatalogLinker
