import CatalogLinker.Link
import CatalogLinker.Proofs.Outcome
import CatalogLinker.Proofs.Resolution.Steps
import CatalogLinker.Proofs.Text.Lines

namespace CatalogLinker

theorem LinkState.runPass_ok {p : Plan} {l l' : LinkState} {rs : List Request} {q : Pass}
    (h : l.runPass p rs = .ok (l', q)) :
    ∃ s, Session.requestAll p { link := l } rs = (s, .ok ()) ∧ s.link = l' ∧ s.pass = q ∧
      q.undefined = [] := by
  rw [runPass] at h
  split at h
  · simp at h
  · rename_i s hs
    rw [Pass.finish] at h
    split at h
    · rename_i hu
      obtain ⟨rfl, rfl⟩ : s.link = l' ∧ s.pass = q := by simpa [Except.map] using h
      exact ⟨s, hs, rfl, rfl, List.isEmpty_iff.1 hu⟩
    · simp [Except.map] at h

theorem LinkState.runPass_eq_ok {p : Plan} {l : LinkState} {rs : List Request} {s : Session}
    (h : Session.requestAll p { link := l } rs = (s, .ok ())) (hu : s.pass.undefined = []) :
    l.runPass p rs = .ok (s.link, s.pass) := by
  rw [runPass, h]
  simp [Pass.finish, hu, Except.map]

namespace Sections

variable (s : Sections) (fs : List Fragment)

theorem pushAll_eq :
    s.pushAll fs =
      { declarations := s.declarations ++ fs.filterMap Fragment.declaration?
        postsets := s.postsets ++ fs.filterMap Fragment.postset?
        compiled := s.compiled ++ fs.filterMap Fragment.compiled? } := by
  rw [pushAll]
  induction fs generalizing s with
  | nil => simp
  | cons f fs ih =>
    rw [List.foldl_cons, ih]
    cases f <;>
      simp [push, pushDeclaration, pushPostset, pushCompiled, List.filterMap_cons,
        Fragment.declaration?, Fragment.postset?, Fragment.compiled?]

theorem foldl_pushDeclaration (ts : List String) :
    ts.foldl pushDeclaration s = { s with declarations := s.declarations ++ ts } := by
  induction ts generalizing s with
  | nil => simp
  | cons t ts ih => simp [ih, pushDeclaration]

theorem foldl_pushPostset (ds : List Postset) :
    ds.foldl pushPostset s = { s with postsets := s.postsets ++ ds } := by
  induction ds generalizing s with
  | nil => simp
  | cons d ds ih => simp [ih, pushPostset]

end Sections

namespace Link

variable (config : Config) (program : Program)

def leading : List String :=
  (if config.linkage = .sideModule then sideStaticArea config.maxAlign.toNat else [])
    ++ [staticTopComment program.staticTop]
    ++ program.declarations.map GlobalVariable.declaration

def trailing (proxies : ProxyTable) : List String :=
  (if config.threadProxying && config.linkage ≠ .sideModule then [proxies.declaration] else [])
    ++ [assertionsDeclaration config.assertions]

def image : MemoryImage :=
  ⟨program.memory, config.globalBase⟩

theorem sections_eq (proxies : ProxyTable) (globals main : Pass) :
    sections config program proxies globals.fragments main.fragments =
      { declarations := leading config program ++ (globals.declarations ++ main.declarations)
          ++ trailing config proxies
        postsets := program.postsets ++ (globals.statements ++ main.statements)
        compiled := globals.bodies ++ main.bodies } := by
  rw [sections, Sections.foldl_pushDeclaration, Sections.pushAll_eq, Sections.pushAll_eq,
    Sections.foldl_pushDeclaration, Sections.foldl_pushPostset]
  simp [leading, trailing, Pass.declarations, Pass.statements, Pass.bodies]

theorem assemble_ok {config : Config} {program : Program} {shell : Shell} {s : Sections}
    {text : String} (h : assemble config program shell s = .ok text) :
    ∃ ps, Postset.order s.postsets = .ok ps ∧
      text = lines [shell.preamble, lines s.declarations,
        lines ((foldStores (image config program) ps).2.map Postset.text),
        (foldStores (image config program) ps).1.text (config.linkage = .sideModule)
          config.threadProxying,
        lines (compiledSection s.compiled), shell.postamble] := by
  rw [assemble] at h
  split at h
  · simp at h
  · rename_i ps hps
    exact ⟨ps, hps, (Except.ok.inj h).symm⟩

end Link

namespace Link

/-- The passes of a link that gets to the assembly of its output. -/
structure Passes (catalog : Catalog) (config : Config) (program : Program)
    (main globals : Session) : Prop where
  compatible : conflict? config = none
  served : Session.requestAll ⟨catalog, config⟩
    { link := .ofLists program.compiled config.exportedNames }
    (program.requests ++ defaultRequests ⟨catalog, config⟩) = (main, .ok ())
  served_globals : Session.requestAll ⟨catalog, config⟩ { link := main.link } program.globals =
    (globals, .ok ())
  defined : main.pass.undefined = []
  defined_globals : globals.pass.undefined = []

end Link

def Link.deliver (config : Config) (program : Program) (shell : Shell) (main globals : Session) :
    Except LinkError Output :=
  (assemble config program shell (sections config program globals.link.proxies
    globals.pass.fragments main.pass.fragments)).map fun text =>
      { text
        exports := globals.link.exports.names
        proxies := globals.link.proxies.names
        requestSigs := globals.link.requestSigs
        compiledSigs := globals.link.implemented
        libraryFns := globals.link.libraryFns
        notices := main.pass.notices ++ globals.pass.notices }

section Passes

variable {catalog : Catalog} {config : Config} {program : Program} {main globals : Session}

theorem link_of_passes (shell : Shell) (h : Link.Passes catalog config program main globals) :
    link catalog config program shell = Link.deliver config program shell main globals := by
  have hmain := LinkState.runPass_eq_ok h.served h.defined
  have hglobals := LinkState.runPass_eq_ok h.served_globals h.defined_globals
  simp only [link, h.compatible, hmain, hglobals, bind, Except.bind, Link.deliver]
  cases Link.assemble config program shell (Link.sections config program globals.link.proxies
    globals.pass.fragments main.pass.fragments) <;> rfl

theorem link_eq_ok_iff {shell : Shell} {out : Output} :
    link catalog config program shell = .ok out ↔
      ∃ main globals, Link.Passes catalog config program main globals ∧
        Link.deliver config program shell main globals = .ok out := by
  constructor
  · intro h
    have hlink := h
    rw [link] at h
    split at h
    · simp [throw, throwThe, MonadExceptOf.throw, bind, Except.bind] at h
    · rename_i hc
      obtain ⟨⟨l, q⟩, hm, h⟩ := bind_ok h
      obtain ⟨⟨l', q'⟩, hg, h⟩ := bind_ok h
      obtain ⟨main, hmain, rfl, rfl, hmu⟩ := LinkState.runPass_ok hm
      obtain ⟨globals, hglobals, rfl, rfl, hgu⟩ := LinkState.runPass_ok hg
      have hp : Link.Passes catalog config program main globals :=
        ⟨Option.eq_none_iff_forall_ne_some.2 hc, hmain, hglobals, hmu, hgu⟩
      exact ⟨main, globals, hp, link_of_passes shell hp ▸ hlink⟩
  · rintro ⟨main, globals, hp, hd⟩
    exact (link_of_passes shell hp).trans hd

end Passes

theorem Link.deliver_ok {config : Config} {program : Program} {shell : Shell}
    {main globals : Session} {out : Output}
    (h : deliver config program shell main globals = .ok out) :
    assemble config program shell (sections config program globals.link.proxies
        globals.pass.fragments main.pass.fragments) = .ok out.text ∧
      out.exports = globals.link.exports.names ∧ out.compiledSigs = globals.link.implemented := by
  rw [deliver] at h
  obtain ⟨text, ht, rfl⟩ := map_ok h
  exact ⟨ht, rfl, rfl⟩

theorem Link.deliver_notices {config : Config} {program : Program} {shell : Shell}
    {main globals : Session} {out : Output}
    (h : deliver config program shell main globals = .ok out) :
    out.notices = main.pass.notices ++ globals.pass.notices := by
  obtain ⟨text, -, rfl⟩ := map_ok h
  rfl

/-- The passes of a link and what its output takes from them. -/
theorem link_passes {catalog : Catalog} {config : Config} {program : Program} {shell : Shell}
    {out : Output} (h : link catalog config program shell = .ok out) :
    ∃ main globals : Session,
      Session.requestAll ⟨catalog, config⟩
        { link := .ofLists program.compiled config.exportedNames }
        (program.requests ++ Link.defaultRequests ⟨catalog, config⟩) = (main, .ok ()) ∧
      Session.requestAll ⟨catalog, config⟩ { link := main.link } program.globals =
        (globals, .ok ()) ∧
      Link.assemble config program shell (Link.sections config program globals.link.proxies
        globals.pass.fragments main.pass.fragments) = .ok out.text ∧
      out.exports = globals.link.exports.names ∧ out.compiledSigs = globals.link.implemented := by
  obtain ⟨main, globals, hp, hd⟩ := link_eq_ok_iff.1 h
  exact ⟨main, globals, hp.served, hp.served_globals, Link.deliver_ok hd⟩

end CatalogLinker
