import CatalogLinker.Proofs.Link.Gathering
import CatalogLinker.Proofs.Resolution.Order

namespace CatalogLinker

open CatalogLinker.Graph Graph.Visit Graph.Network

namespace Plan

variable (p : Plan)

/-- Whether a name has been requested for export when `trace` is recorded and the identifiers of
`done` have finished. -/
def RequestedBy (trace : List TraceEvent) (done : List Ident) (n : Name) : Prop :=
  (∃ i m, .began i m ∈ trace ∧ n ∈ p.autoexports i) ∨ ∃ i ∈ done, n ∈ p.compiledDeps i

def ExportedBy (exported : List Name) (trace : List TraceEvent) (done : List Ident) (n : Name) :
    Prop :=
  p.config.exportAll ∨ n ∈ exported ∨ p.RequestedBy trace done n

def Declares (i : Ident) (text : String) : Prop :=
  ∃ own t t', p.ownText i = .ok (some own) ∧ Session.proxied p i own t = (t', .ok text)

variable {p} {i : Ident} {trace : List TraceEvent} {done : List Ident} {n m : Name}

theorem requestedBy_began :
    p.RequestedBy (trace ++ [.began i m]) done n ↔
      p.RequestedBy trace done n ∨ n ∈ p.autoexports i := by
  simp only [RequestedBy, List.mem_append, List.mem_singleton, TraceEvent.began.injEq]
  constructor
  · rintro (⟨j, m, hj | ⟨rfl, rfl⟩, hn⟩ | hd)
    · exact .inl (.inl ⟨j, m, hj, hn⟩)
    · exact .inr hn
    · exact .inl (.inr hd)
  · rintro ((⟨j, m, hj, hn⟩ | hd) | hn)
    · exact .inl ⟨j, m, .inl hj, hn⟩
    · exact .inr hd
    · exact .inl ⟨i, m, .inr ⟨rfl, rfl⟩, hn⟩

theorem requestedBy_ended {o : Outcome} {k : Nat} :
    p.RequestedBy (trace ++ [.ended m o k]) (done ++ [i]) n ↔
      p.RequestedBy trace done n ∨ n ∈ p.compiledDeps i := by
  simp only [RequestedBy, List.mem_append, List.mem_singleton, reduceCtorEq, or_false, or_and_right,
    exists_or, exists_eq_left, or_assoc]

theorem isRegistrable_of_standalone (h : p.config.linkage = .standalone) : p.isRegistrable i := by
  rw [isRegistrable, decide_eq_true_iff, outcome]
  split_ifs <;> simp_all

end Plan

namespace Session

variable {p : Plan} {s s' : Session} {i : Ident} {n : Name} {rs : List Request}
  {vs : List (Visit Ident)} {ps : List Placement} {t : String}

def ExportsRequested (p : Plan) (e : ExportSet) (n : Name) (done : List Ident) (s : Session) :
    Prop :=
  n ∉ s.link.compiled ∧
    (s.link.exports.contains n ↔ e.contains n ∨ p.RequestedBy s.pass.trace done n)

theorem Serves.exportsRequested {e : ExportSet} {done : List Ident}
    (h : Serves p s rs vs s' ps) (hs : ExportsRequested p e n done s) :
    ExportsRequested p e n (done ++ ps.map Placement.ident) s' ∧
      Along (ExportsRequested p e n) done ps := by
  refine h.invariant ?_ ?_ ?_ ?_ ?_ ?_ done hs
  · rintro done s r ⟨hc, he⟩
    refine ⟨by rwa [noted_compiled], ?_⟩
    rwa [noted_exports, noted_pass]
  · rintro done s m t ⟨hc, he⟩
    refine ⟨by rwa [delivered_link], ?_⟩
    rwa [delivered_link, delivered_trace]
  · rintro done s i ⟨hc, he⟩
    refine ⟨by rwa [turnBack_compiled], ?_⟩
    -- Only what compiled code provides becomes an export where a walk turns back.
    have hne : ¬(¬i.isMetadataKey ∧ s.link.isCompiled i.finalName ∧ n = i.finalName) := by
      rintro ⟨-, hi, rfl⟩
      exact hc (List.contains_iff_mem.1 hi)
    rw [turnBack_trace, mem_turnBack_exports, ← he, or_iff_left hne]
  · rintro done s i ⟨hc, he⟩
    refine ⟨by rwa [announce_compiled], ?_⟩
    rw [mem_announce_exports, announce_trace, start_trace, Plan.requestedBy_began, ← or_assoc, ← he,
      start_link]
  · rintro done s i ⟨hc, he⟩
    refine ⟨by rwa [addPostset_link], ?_⟩
    rwa [addPostset_link, addPostset_trace]
  · rintro done s s' i t u ⟨hc, he⟩ hp
    refine ⟨by rwa [conclude_compiled, hp.compiled_eq], ?_⟩
    rw [mem_conclude_exports, conclude_trace, Plan.requestedBy_ended, ← or_assoc, hp.exports_eq,
      hp.trace_eq, ← he]

theorem exportsRequested_start {l : LinkState} (hn : n ∉ l.compiled) :
    ExportsRequested p l.exports n [] { link := l } := by
  refine ⟨hn, ?_⟩
  simp [Plan.RequestedBy]

/-- A declaration is registered if everything is exported or its name is to be exported when it is
placed. -/
theorem Places.declares (hi : p.isRegistrable i) (h : Places p s i s' t) (ht : t ≠ "") :
    ∃ text, p.Declares i text ∧
      ((p.config.exportAll ∨ s.link.exports.contains i.finalName) ∧
          t = text ++ "\n" ++ Plan.registration i.finalName ∨
        ¬(p.config.exportAll ∨ s.link.exports.contains i.finalName) ∧ t = text) := by
  cases h with
  | nothing _ => exact absurd rfl ht
  | moved _ _ _ => exact absurd rfl ht
  | @declared own text t ho hp hsig =>
    refine ⟨text, ⟨own, _, t, ho, hp⟩, ?_⟩
    rw [registered, hi, Bool.true_and]
    split
    · rename_i hr
      exact .inl ⟨by simpa using hr, rfl⟩
    · rename_i hr
      exact .inr ⟨by simpa using hr, rfl⟩

/-- The own contents of a pass, in the order in which the resolutions end, and which of them are
registered. -/
structure Registers (p : Plan) (l : LinkState) (s : Session) (cs : List (Ident × String)) : Prop where
  ordered : p.Ordered cs
  began : ∀ i, i ∈ cs.map Prod.fst ↔ .began i i.finalName ∈ s.pass.trace
  exported : ∀ n ∉ l.compiled, n ∈ s.link.exports.names ↔
    n ∈ l.exports.names ∨ p.RequestedBy s.pass.trace (cs.map Prod.fst) n
  registered : ∀ cs₁ i t cs₂, cs = cs₁ ++ (i, t) :: cs₂ → t ≠ "" →
    ∃ earlier later k text,
      s.pass.trace = earlier ++ .ended i.finalName (p.outcome i) k :: later ∧ p.Declares i text ∧
      (p.ExportedBy l.exports.names earlier (cs₁.map Prod.fst) i.finalName ∧
          t = text ++ "\n" ++ Plan.registration i.finalName ∨
        ¬p.ExportedBy l.exports.names earlier (cs₁.map Prod.fst) i.finalName ∧ t = text)

theorem Serves.not_compiled {l : LinkState} (h : Serves p { link := l } rs
      ((p.network ({ link := l } : Session).isClosed).visitAll [] (rs.map Request.ident)) s ps)
    {x : Placement} (hx : x ∈ ps) : x.ident.finalName ∉ l.compiled := by
  have hexp : x.ident ∈ finishedNodesAll _ := h.idents ▸ List.mem_map_of_mem hx
  have hopen := ((isOpen_network_iff p).1 ⟨isOpen_of_mem_expanded (mem_finishedNodesAll.1 hexp),
    List.not_mem_nil⟩).2
  rw [isClosed_iff] at hopen
  exact fun hc => hopen (.inl (.inl hc))

theorem Serves.registers {l : LinkState} (hl : p.config.linkage = .standalone)
    (he : l.exports.Sound) (hs : s.link.exports.Sound)
    (h : Serves p { link := l } rs
      ((p.network ({ link := l } : Session).isClosed).visitAll [] (rs.map Request.ident)) s ps) :
    Registers p l s (ps.map Placement.content) where
  ordered := ordered_of_walk h.idents h.places
  began := fun _ => h.mem_contents_iff
  exported := by
    intro n hn
    rw [Placement.map_fst_content, hs.mem_names, he.mem_names]
    exact (h.exportsRequested (exportsRequested_start hn)).1.2
  registered := by
    intro cs₁ i t cs₂ hcs ht
    obtain ⟨ps₁, qs, hqs, rfl, hq⟩ := List.map_eq_append_iff.1 hcs
    obtain ⟨x, ps₂, rfl, hx, -⟩ := List.map_eq_cons_iff.1 hq
    obtain ⟨rfl, rfl⟩ : x.ident = i ∧ x.text = t := by simpa [Placement.content] using hx
    have hmem : x ∈ ps := by rw [hqs]; simp
    have hexp := ((h.exportsRequested (exportsRequested_start (h.not_compiled hmem))).2.of_eq_append
      hqs).2
    obtain ⟨k, later, htr⟩ := h.ended_prefix hmem
    obtain ⟨s₁, hp⟩ := h.places x hmem
    obtain ⟨text, hd, hreg⟩ := hp.declares (Plan.isRegistrable_of_standalone hl) ht
    rw [hexp, List.nil_append, ← he.mem_names] at hreg
    refine ⟨x.session.pass.trace, later, k, text, by simpa using htr.symm, hd, ?_⟩
    rwa [Placement.map_fst_content]

end Session

/-- In a standalone output of one pass, a declaration is registered exactly if everything is
exported or its name has been requested for export by the time that its resolution ends. -/
theorem registered_iff_requested_in_time {catalog : Catalog} {config : Config} {program : Program}
    {shell : Shell} {out : Output} (h : link catalog config program shell = .ok out)
    (hl : config.linkage = .standalone) (hg : program.globals = []) :
    ∃ (main : Session) (cs : List (Ident × String)) (proxies : ProxyTable) (rest : List String),
      Session.requestAll ⟨catalog, config⟩
        { link := .ofLists program.compiled config.exportedNames }
        (program.requests ++ Link.defaultRequests ⟨catalog, config⟩) = (main, .ok ()) ∧
      Session.Registers ⟨catalog, config⟩ (.ofLists program.compiled config.exportedNames) main cs ∧
      out.exports = main.link.exports.names ∧
      out.text = Link.lines (shell.preamble ::
        Link.lines (Link.leading config program ++ (cs.map Prod.snd).filter (· ≠ "") ++
          Link.trailing config proxies) :: rest) := by
  obtain ⟨main, globals, hm, hgl, ht, he, -⟩ := link_passes h
  obtain rfl : { link := main.link } = globals := by
    simpa [hg, Session.requestAll] using hgl
  have hstart := LinkState.Sound.ofLists program.compiled config.exportedNames
  have hreach := Progress.Reaches.requestAll (p := ⟨catalog, config⟩) []
    { link := .ofLists program.compiled config.exportedNames }
    (program.requests ++ Link.defaultRequests ⟨catalog, config⟩)
  rw [hm] at hreach
  have hsound := hreach.sound hstart
  obtain ⟨ps, hps⟩ := Session.serves_of_pass hm
  obtain ⟨qs, -, htext⟩ := Link.assemble_ok ht
  rw [Link.sections_eq] at htext
  obtain ⟨rest, hrest⟩ : ∃ rest, out.text = Link.lines (shell.preamble ::
      Link.lines (Link.leading config program ++ main.pass.declarations ++
        Link.trailing config main.link.proxies) :: rest) := ⟨_, htext⟩
  have hlines : Link.lines (Link.leading config program ++ main.pass.declarations ++
        Link.trailing config main.link.proxies) =
      Link.lines (Link.leading config program ++
        ((ps.map Placement.content).map Prod.snd).filter (· ≠ "") ++
        Link.trailing config main.link.proxies) :=
    intercalate_middle_congr (hps.declarations_ne_empty (by simp [Pass.declarations]))
      (fun t ht => by simpa using (List.mem_filter.1 ht).2) hps.intercalate_declarations
  exact ⟨main, ps.map Placement.content, main.link.proxies, rest, hm,
    hps.registers hl hstart.exports hsound.exports, he, by rw [hrest, hlines]⟩

def dependedOn : Catalog where
  items := [(⟨"A"⟩, { entry := some (.raw "1") }),
    (⟨"B"⟩, { entry := some (.raw "2"), deps := [⟨"A"⟩] })]
  order := [⟨"A"⟩, ⟨"B"⟩]

theorem dependedOn_registered :
    ∃ out main cs, link dependedOn { autoexports := [⟨"A"⟩] } { requests := [⟨⟨"B"⟩, none, none⟩] }
        {} = .ok out ∧
      Session.Registers ⟨dependedOn, { autoexports := [⟨"A"⟩] }⟩ {} main cs ∧
      out.exports = main.link.exports.names ∧ ⟨"_A"⟩ ∈ out.exports ∧
      (Plan.registration ⟨"_A"⟩).toList ∈ Text.pieces '\n' out.text.toList := by
  obtain ⟨out, h, he, ht⟩ : ∃ out, link dependedOn { autoexports := [⟨"A"⟩] }
      { requests := [⟨⟨"B"⟩, none, none⟩] } {} = .ok out ∧ ⟨"_A"⟩ ∈ out.exports ∧
      (Plan.registration ⟨"_A"⟩).toList ∈ Text.pieces '\n' out.text.toList :=
    exists_ok (by decide +kernel)
  obtain ⟨main, cs, -, -, -, hcs, hx, -⟩ := registered_iff_requested_in_time h rfl rfl
  exact ⟨out, main, cs, h, hcs, hx, he, ht⟩

/-- If the value is requested before what depends on it, its name is exported all the same. -/
theorem dependedOn_unregistered :
    ∃ out, link dependedOn { autoexports := [⟨"A"⟩] }
        { requests := [⟨⟨"A"⟩, none, none⟩, ⟨⟨"B"⟩, none, none⟩] } {} = .ok out ∧
      ⟨"_A"⟩ ∈ out.exports ∧
      (Plan.registration ⟨"_A"⟩).toList ∉ Text.pieces '\n' out.text.toList ∧
      out.text = "\n// STATICTOP = STATIC_BASE + 0;\nvar _A=1;\nvar _B=2;\n" ++
        "var ASSERTIONS = true;\n\n/* no memory initializer */\n// EMSCRIPTEN_END_FUNCS\n" := by
  exact exists_ok (by decide +kernel)

end CatalogLinker
