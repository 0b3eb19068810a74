import CatalogLinker.Proofs.Link.Gathering

namespace CatalogLinker

def Fragment.moved? : Fragment → Option (Name × String)
  | .compiledBody n text => some (n, text)
  | _ => none

namespace Pass

def moved (q : Pass) : List (Name × String) :=
  q.fragments.filterMap Fragment.moved?

theorem bodies_eq (q : Pass) : q.bodies = q.moved.map Prod.snd := by
  rw [bodies, moved, List.map_filterMap]
  congr 1
  funext f
  cases f <;> rfl

end Pass

inductive Moves (p : Plan) : Name × String → Name × String → Prop
  | function {i : Ident} {own text sig : String} {t t' : ProxyTable} :
      p.ownText i = .ok (some own) → Session.proxied p i own t = (t', .ok text) →
      p.compiledSig? i = some sig → Moves p (i.finalName, text) (i.finalName, sig)

/-- There is one body for every signature, in the same order, and no other. -/
structure Fills (p : Plan) (bodies sigs : List (Name × String)) : Prop where
  names : bodies.map Prod.fst = sigs.map Prod.fst
  once : (bodies.map Prod.fst).Nodup
  moves : List.Forall₂ (Moves p) bodies sigs

namespace Session

variable {p : Plan} {s s' : Session} {i : Ident} {n : Name} {t : String}

theorem delivered_moved : (s.delivered n t).pass.moved = s.pass.moved := by
  rw [delivered]
  split
  · rfl
  · dsimp only
    split <;> simp [Pass.moved, Pass.emit, Fragment.moved?]

theorem addPostset_moved : (s.addPostset p i).pass.moved = s.pass.moved := by
  obtain h | ⟨d, -, h⟩ := addPostset_fragments p s i
  · rw [Pass.moved, h, Pass.moved]
  · simp [Pass.moved, h, Fragment.moved?]

/-- What is placed goes to the compiled section with its signature, or leaves it as it is. -/
theorem Places.keeps_or_moves (h : Places p s i s' t)
    (hn : ¬s.link.isImplemented i.finalName) :
    (s'.pass.moved = s.pass.moved ∧ s'.link.implemented = s.link.implemented) ∨
      ∃ text sig, Moves p (i.finalName, text) (i.finalName, sig) ∧
        s'.pass.moved = s.pass.moved ++ [(i.finalName, text)] ∧
        s'.link.implemented = s.link.implemented ++ [(i.finalName, sig)] := by
  cases h with
  | nothing _ => exact .inl ⟨rfl, rfl⟩
  | declared _ _ _ => exact .inl ⟨rfl, rfl⟩
  | @moved own text sig x ho hx hsig =>
    refine .inr ⟨text, sig, .function ho hx hsig, ?_, ?_⟩
    · simp [Pass.moved, Pass.emit, Fragment.moved?]
    · exact LinkState.implement_implemented (l := { s.link with proxies := x }) hn sig

theorem maintains_moves (before : List (Name × String)) :
    Maintains p fun under s => UnderWay p under s ∧
      List.Forall₂ (Moves p) (before ++ s.pass.moved) s.link.implemented := by
  refine UnderWay.maintains (fun r h => ?_) (fun n t h => ?_) (fun i h => ?_) (fun i h => ?_)
    (fun i h => ?_) (fun i h => ?_) fun u hu h hp => ?_
  · rwa [noted_pass, noted_implemented]
  · rwa [delivered_moved, delivered_link]
  · rwa [Pass.moved, turnBack_fragments, turnBack_implemented]
  · rwa [Pass.moved, start_fragments, start_link]
  · rwa [announce_implemented]
  · rwa [addPostset_moved, addPostset_link]
  · -- No pass has moved what is under way, so its signature is new.
    have hfree := hu.free _ List.mem_cons_self
    rw [isClosed_iff, not_or] at hfree
    rw [Pass.moved, conclude_fragments, conclude_implemented]
    obtain ⟨hm, hi⟩ | ⟨text, sig, hmoves, hm, hi⟩ := hp.keeps_or_moves hfree.2
    · rwa [← Pass.moved, hm, hi]
    · rw [← Pass.moved, hm, hi, ← List.append_assoc]
      exact List.rel_append h (.cons hmoves .nil)

end Session

namespace Progress

variable {p : Plan} {x : Progress}

def moved (x : Progress) : List (Name × String) :=
  x.past.flatMap Pass.moved ++ x.session.pass.moved

theorem Reaches.fills {compiled exports : List Name}
    (h : Reaches p { session := { link := .ofLists compiled exports } } x) :
    Fills p x.moved x.session.link.implemented := by
  have hmoves : List.Forall₂ (Moves p) x.moved x.session.link.implemented := by
    refine h.preserved (K := fun past s =>
      List.Forall₂ (Moves p) (past.flatMap Pass.moved ++ s.pass.moved) s.link.implemented)
      (fun past => Session.maintains_moves _) (fun past s hs => ?_) .nil
    rw [List.flatMap_append, List.flatMap_singleton]
    exact (List.append_nil _).symm ▸ hs
  have hnames : x.moved.map Prod.fst = x.session.link.implemented.map Prod.fst := by
    refine List.forall₂_eq_eq_eq ▸ List.forall₂_map_left_iff.2 (List.forall₂_map_right_iff.2 ?_)
    exact hmoves.imp fun _ _ hm => by cases hm; rfl
  have hsound := h.sound (.ofLists compiled exports)
  exact ⟨hnames, hnames ▸ hsound.implemented_nodup, hmoves⟩

end Progress

theorem reaches_of_passes {p : Plan} {l : LinkState} {rs rs' : List Request}
    {main globals : Session}
    (hm : Session.requestAll p { link := l } rs = (main, .ok ()))
    (hg : Session.requestAll p { link := main.link } rs' = (globals, .ok ())) :
    Progress.Reaches p { session := { link := l } }
      { past := [main.pass], session := globals } := by
  have hfirst := Progress.Reaches.requestAll (p := p) [] { link := l } rs
  have hsecond := Progress.Reaches.requestAll (p := p) [main.pass] { link := main.link } rs'
  rw [hm] at hfirst
  rw [hg] at hsecond
  exact hfirst.trans (.head (.nextPass _) hsecond)

/-- Over all the passes of a link, each function of the compiled section has one body and one
signature, in the same order; so the compiled section of an output has the bodies of the listed
signatures and no others, those of the second pass before those of the first. -/
theorem compiled_section_filled (catalog : Catalog) (config : Config) :
    (∀ compiled exports x,
      Progress.Reaches ⟨catalog, config⟩ { session := { link := .ofLists compiled exports } } x →
      Fills ⟨catalog, config⟩ x.moved x.session.link.implemented) ∧
    ∀ program shell out, link catalog config program shell = .ok out →
      ∃ main globals : Session,
        Session.requestAll ⟨catalog, config⟩
          { link := .ofLists program.compiled config.exportedNames }
          (program.requests ++ Link.defaultRequests ⟨catalog, config⟩) = (main, .ok ()) ∧
        Session.requestAll ⟨catalog, config⟩ { link := main.link } program.globals =
          (globals, .ok ()) ∧
        Fills ⟨catalog, config⟩ (main.pass.moved ++ globals.pass.moved) out.compiledSigs ∧
        ∃ declarations statements memory, out.text = Link.lines [shell.preamble, declarations,
          statements, memory,
          Link.lines (Link.compiledSection ((globals.pass.moved ++ main.pass.moved).map Prod.snd)),
          shell.postamble] := by
  refine ⟨fun compiled exports x h => h.fills, fun program shell out h => ?_⟩
  obtain ⟨main, globals, hm, hg, ht, -, hc⟩ := link_passes h
  obtain ⟨ps, -, htext⟩ := Link.assemble_ok ht
  have hfills : Fills ⟨catalog, config⟩ (main.pass.moved ++ globals.pass.moved)
      out.compiledSigs := by
    have hreach := reaches_of_passes hm hg
    simpa [Progress.moved, hc] using hreach.fills
  rw [Link.sections_eq, Pass.bodies_eq, Pass.bodies_eq, ← List.map_append] at htext
  exact ⟨main, globals, hm, hg, hfills, _, _, _, htext⟩

def shared : Catalog where
  items := [
    (⟨"add"⟩, {
      entry := some (.body "function(x) \x7b return x; \x7d")
      sig := some "ii"
      inCompiledSection := true }),
    (⟨"sub"⟩, {
      entry := some (.body "function() \x7b\x7d")
      sig := some "v"
      inCompiledSection := true }),
    (⟨"use"⟩, { entry := some (.body "function() \x7b\x7d"), deps := [⟨"add"⟩, ⟨"sub"⟩] })]
  order := [⟨"add"⟩, ⟨"sub"⟩, ⟨"use"⟩]

def sharing : Program where
  requests := [⟨⟨"add"⟩, none, none⟩]
  globals := [⟨⟨"use"⟩, none, none⟩, ⟨⟨"add"⟩, none, none⟩]

/-- The second pass asks for a function that the first has moved already. -/
theorem sharing_section_filled :
    ∃ (out : Output) (main globals : Session), link shared {} sharing {} = .ok out ∧
      Fills ⟨shared, {}⟩ (main.pass.moved ++ globals.pass.moved) out.compiledSigs ∧
      out.compiledSigs = [(⟨"_add"⟩, "ii"), (⟨"_sub"⟩, "v")] ∧
      Link.compiledSection ((globals.pass.moved ++ main.pass.moved).map Prod.snd) =
        ["// ASM_LIBRARY FUNCTIONS", "function _sub() \x7b\x7d",
          "function _add(x) \x7b return x; \x7d", "// EMSCRIPTEN_END_FUNCS"] := by
  obtain ⟨out, h, hsigs⟩ : ∃ out, link shared {} sharing {} = .ok out ∧
      out.compiledSigs = [(⟨"_add"⟩, "ii"), (⟨"_sub"⟩, "v")] := exists_ok (by decide +kernel)
  obtain ⟨main, globals, hm, hg, hfills, -⟩ := (compiled_section_filled shared {}).2 _ _ _ h
  refine ⟨out, main, globals, h, hfills, hsigs, ?_⟩
  obtain rfl := congrArg Prod.fst hm
  obtain rfl := congrArg Prod.fst hg
  decide +kernel

end CatalogLinker
