import CatalogLinker.Proofs.Link.Gathering
import CatalogLinker.Proofs.Resolution.Dependency
import CatalogLinker.Proofs.Resolution.Requests

namespace CatalogLinker

open CatalogLinker.Graph Graph.Visit Graph.Network

namespace Plan

variable (p : Plan)

/-- The identifiers that the metadata and the text of an identifier refer to: those it declares, the
one that it is assigned from, and the helper that the catalog has for a numbered catch helper. -/
inductive Refers (i : Ident) : Ident → Prop
  | declared {d : Ident} : d ∈ (p.item i).deps → Refers i d
  | target {t : Ident} : p.AssignsFrom i t → Refers i t
  | helper : isNumberedCatch i → p.catalog.isDefined generalCatch → Refers i generalCatch

variable {p} {i d : Ident}

theorem Refers.needs (hp : p.Pursues i) (h : p.Refers i d) : p.Needs i d := by
  cases h with
  | declared hd => exact .declared hp hd
  | target ht => exact .target hp ht
  | helper hi hg => exact .general hp hi hg

theorem pursues_of_outcome (hl : p.config.linkage ≠ .sideModule) (ho : p.outcome i ≠ .deadStub) :
    p.Pursues i := by
  by_contra hp
  have hparent := (outcome_of_not_pursues hp).resolve_left ho
  rw [outcome] at hparent
  split_ifs at hparent

end Plan

namespace Session

variable {p : Plan} {s s' : Session} {i d : Ident} {n : Name} {rs : List Request}
  {vs : List (Visit Ident)} {ts : List String} {ps : List Placement} {l : LinkState}

theorem Executes.mem_exports (h : Executes p s vs s' ts ps) (hn : s.link.exports.contains n) :
    s'.link.exports.contains n := by
  refine (h.invariant (I := fun _ u => u.link.exports.contains n) ?_ ?_ ?_ ?_ [] hn).1
  · exact fun _ u i hu => (mem_turnBack_exports u i).2 (.inl hu)
  · exact fun _ u i hu => (mem_announce_exports p _ i).2 (.inl hu)
  · exact fun _ u i hu => by rwa [addPostset_link]
  · exact fun _ u u' i t w hu hp => (mem_conclude_exports p u' i w).2 (.inl (hp.exports_eq ▸ hu))

/-- Where a walk turns back at what compiled code provides, it requests the name for export. -/
theorem Executes.exports_of_turnsBackAt (h : Executes p s vs s' ts ps) (hd : TurnsBackAt d vs)
    (hm : ¬d.isMetadataKey) (hc : d.finalName ∈ s.link.compiled) :
    s'.link.exports.contains d.finalName := by
  induction h with
  | nil => nomatch hd
  | turnedBack hv ih =>
    cases hd with
    | here _ =>
      refine hv.mem_exports ((mem_turnBack_exports _ d).2 (.inr ⟨hm, ?_, rfl⟩))
      exact List.contains_iff_mem.2 hc
    | later _ hd => exact ih hd (by rwa [turnBack_compiled])
  | @expanded s s₁ s₂ s' i us vs ts ts' t ps ps' hu hp hv ihu ihv =>
    have hstart : ((s.start p i).announce p i).link.compiled = s.link.compiled := by
      rw [announce_compiled, start_link]
    have hfinish : (s₂.conclude p i (joinTexts (ts ++ [t]))).link.compiled = s.link.compiled := by
      rw [conclude_compiled, hp.compiled_eq, addPostset_link, hu.compiled_eq, hstart]
    cases hd with
    | inside _ hd =>
      have hmem := ihu hd (by rwa [hstart])
      refine hv.mem_exports ((mem_conclude_exports p s₂ i _).2 (.inl ?_))
      rwa [hp.exports_eq, addPostset_link]
    | later _ hd => exact ihv hd (by rwa [hfinish])

theorem Serves.mem_exports (h : Serves p s rs vs s' ps) (hn : s.link.exports.contains n) :
    s'.link.exports.contains n := by
  induction h with
  | nil => exact hn
  | cons hps _ ih =>
    refine ih ?_
    rw [delivered_link]
    exact hps.mem_exports (by rwa [noted_exports])

theorem Serves.exports_of_turnsBackAt (h : Serves p s rs vs s' ps) (hd : TurnsBackAt d vs)
    (hm : ¬d.isMetadataKey) (hc : d.finalName ∈ s.link.compiled) :
    s'.link.exports.contains d.finalName := by
  induction h with
  | nil => nomatch hd
  | @cons s s₁ s' r rs v vs t ps ps' hps hss ih =>
    have hfirst : TurnsBackAt d [v] → s'.link.exports.contains d.finalName := by
      intro hd
      refine hss.mem_exports ?_
      rw [delivered_link]
      exact hps.exports_of_turnsBackAt hd hm (by rwa [noted_compiled])
    cases hd with
    | here _ => exact hfirst (.here [])
    | inside _ hd => exact hfirst (.inside [] hd)
    | later _ hd =>
      refine ih hd ?_
      rwa [delivered_link, hps.compiled_eq, noted_compiled]

theorem exports_of_needs (h : Session.requestAll p { link := l } rs = (s, .ok ()))
    (hi : .began i n ∈ s.pass.trace) (hd : p.Needs i d) (hm : ¬d.isMetadataKey)
    (hc : l.isCompiled d.finalName) : s.link.exports.contains d.finalName := by
  obtain ⟨ps, hps⟩ := serves_of_pass h
  have hexp := ((hps.began_iff.1 hi).resolve_left List.not_mem_nil).1
  have hclosed : ¬(p.network ({ link := l } : Session).isClosed).isOpen d := by
    simp [Plan.network, isClosed, hc]
  have hback := turnsBackAt_of_leads hexp (Plan.mem_deps_iff.2 hd) hclosed
  exact hps.exports_of_turnsBackAt hback hm (List.contains_iff_mem.1 hc)

/-- When a pass ends, whatever the text and the metadata of its identifiers refer to is exported, as
far as compiled code provides it. -/
theorem references_exported (hl : p.config.linkage ≠ .sideModule)
    (h : Session.requestAll p { link := l } rs = (s, .ok ())) :
    ∀ i n d, .began i n ∈ s.pass.trace → p.outcome i ≠ .deadStub → p.Refers i d →
      ¬d.isMetadataKey → l.isCompiled d.finalName →
      s.link.exports.contains d.finalName ∧
        (l.Sound → d.finalName ∈ s.link.exports.names) := by
  intro i n d hi ho hd hm hc
  have hexp := exports_of_needs h hi (hd.needs (Plan.pursues_of_outcome hl ho)) hm hc
  refine ⟨hexp, fun hs => ?_⟩
  have hreach := Progress.Reaches.requestAll (p := p) [] { link := l } rs
  rw [h] at hreach
  exact ((hreach.sound hs).exports.mem_names _).2 hexp

def hosted : Plan where
  catalog := {
    items := [(⟨"f"⟩, { entry := some (.body "function() {}"), deps := [⟨"puts"⟩, ⟨"v"⟩] }),
      (⟨"a"⟩, { entry := some (.aliasOf ⟨"t"⟩) }), (⟨"t"⟩, { entry := some (.raw "1") }),
      (⟨"v"⟩, { entry := some (.raw "2") }),
      (⟨"__cxa_find_matching_catch"⟩, { entry := some (.body "function() {}") })]
    order := [⟨"f"⟩, ⟨"a"⟩, ⟨"t"⟩, ⟨"v"⟩, ⟨"__cxa_find_matching_catch"⟩] }
  config := { linkage := .mainModule }

def hostedLink : LinkState :=
  .ofLists [⟨"_puts"⟩, ⟨"_t"⟩, ⟨"___cxa_find_matching_catch"⟩, ⟨"_unused"⟩] []

def hostedRequests : List Request :=
  [⟨⟨"f"⟩, none, none⟩, ⟨⟨"a"⟩, none, none⟩, ⟨⟨"__cxa_find_matching_catch_2"⟩, none, none⟩]

theorem hosted_exported :
    ∃ s, Session.requestAll hosted { link := hostedLink } hostedRequests = (s, .ok ()) ∧
      ⟨"_puts"⟩ ∈ s.link.exports.names ∧ ⟨"_t"⟩ ∈ s.link.exports.names ∧
      ⟨"___cxa_find_matching_catch"⟩ ∈ s.link.exports.names ∧ s.link.exports.names.length = 3 := by
  obtain ⟨s, h, hbf, hba, hbg, hlen⟩ :
      ∃ s, Session.requestAll hosted { link := hostedLink } hostedRequests = (s, .ok ()) ∧
        .began ⟨"f"⟩ ⟨"_f"⟩ ∈ s.pass.trace ∧ .began ⟨"a"⟩ ⟨"_a"⟩ ∈ s.pass.trace ∧
        .began ⟨"__cxa_find_matching_catch_2"⟩ ⟨"___cxa_find_matching_catch_2"⟩ ∈ s.pass.trace ∧
        s.link.exports.names.length = 3 := exists_requestAll (by decide +kernel)
  have hexp := references_exported (by decide) h
  have hputs := hexp _ _ ⟨"puts"⟩ hbf (by decide +kernel) (.declared (by decide +kernel))
    (by decide +kernel) (by decide +kernel)
  have ht := hexp _ _ ⟨"t"⟩ hba (by decide +kernel) (.target ⟨by decide +kernel, rfl, rfl⟩)
    (by decide +kernel) (by decide +kernel)
  have hg := hexp _ _ _ hbg (by decide +kernel) (.helper (by decide +kernel) (by decide +kernel))
    (by decide +kernel) (by decide +kernel)
  have hsound : hostedLink.Sound := .ofLists _ _
  exact ⟨s, h, hputs.2 hsound, ht.2 hsound, hg.2 hsound, hlen⟩

def keyed : Plan where
  catalog := {
    items := [(⟨"A"⟩, { entry := some (.raw "1"), deps := [⟨"x__sig"⟩] })]
    order := [⟨"A"⟩] }
  config := {}

/-- Neither the name of a metadata key is exported nor the helper that a numbered catch helper calls
if the catalog does not define it, although compiled code provides both. -/
theorem keyed_unexported :
    ∃ s, Session.requestAll keyed
        { link := { compiled := [⟨"_x__sig"⟩, ⟨"___cxa_find_matching_catch"⟩] } }
        [⟨⟨"A"⟩, none, none⟩, ⟨⟨"__cxa_find_matching_catch_2"⟩, none, none⟩] = (s, .ok ()) ∧
      .began ⟨"A"⟩ ⟨"_A"⟩ ∈ s.pass.trace ∧ ⟨"x__sig"⟩ ∈ (keyed.item ⟨"A"⟩).deps ∧
      s.link.isCompiled (Ident.finalName ⟨"x__sig"⟩) ∧
      Ident.finalName ⟨"x__sig"⟩ ∉ s.link.exports.names ∧
      .began ⟨"__cxa_find_matching_catch_2"⟩ ⟨"___cxa_find_matching_catch_2"⟩ ∈ s.pass.trace ∧
      .functionBody ⟨"___cxa_find_matching_catch_2"⟩
        ("function ___cxa_find_matching_catch_2() \x7b\n" ++
          "  return ___cxa_find_matching_catch.apply(null, arguments);\n\x7d") ∈
        s.pass.fragments ∧
      s.link.isCompiled ⟨"___cxa_find_matching_catch"⟩ ∧
      ⟨"___cxa_find_matching_catch"⟩ ∉ s.link.exports.names := by
  exact exists_requestAll (by decide +kernel)

end Session

end CatalogLinker
