import CatalogLinker.Proofs.Link.Assembly
import CatalogLinker.Proofs.Postset.Cycles
import CatalogLinker.Proofs.Resolution.Failure
import CatalogLinker.Proofs.Resolution.Progress

namespace CatalogLinker

open Relation (TransGen)

namespace Session

variable {p : Plan} {s s' : Session}

theorem maintains_collected :
    Maintains p fun _ s => ∀ d ∈ s.pass.statements, ∃ i, p.postset? i = some d where
  noted _ h := h
  delivered n t h := by rwa [delivered_statements]
  turnBack i h := by rwa [Pass.statements, turnBack_fragments]
  start _ h := by rwa [Pass.statements, start_fragments]
  announce _ h := by rwa [Pass.statements, announce_fragments, start_fragments]
  addPostset i h := by
    intro d hd
    rw [addPostset_statements, List.mem_append] at hd
    obtain hd | hd := hd
    · exact h d hd
    · split at hd
      · simp at hd
      · exact ⟨i, by simpa using hd⟩
  finish u h hp := by
    rw [Pass.statements, conclude_fragments, ← Pass.statements, hp.statements_eq]
    exact h
  abandon h := h

theorem collected_of_requestAll {l : LinkState} {rs : List Request}
    (h : Session.requestAll p { link := l } rs = (s, .ok ())) :
    ∀ d ∈ s.pass.statements, ∃ i, p.postset? i = some d := by
  have hs := (maintains_collected (p := p)).requestAll (s := { link := l })
    (by simp [Pass.statements]) rs
  rwa [h] at hs

end Session

namespace Link

def collected (program : Program) (main globals : Session) : List Postset :=
  program.postsets ++ (globals.pass.statements ++ main.pass.statements)

def DeclaresPostset (catalog : Catalog) (program : Program) (d : Postset) : Prop :=
  d ∈ program.postsets ∨ ∃ i, (catalog.item i).postset = some d

/-- A statement is a declared one, but for its text. -/
def DerivesPostset (catalog : Catalog) (program : Program) (d : Postset) : Prop :=
  ∃ d₀, DeclaresPostset catalog program d₀ ∧ d.ident = d₀.ident ∧ d.deps = d₀.deps

theorem acyclic_derivesPostset {catalog : Catalog} {program : Program}
    (h : Postset.Acyclic (DeclaresPostset catalog program)) :
    Postset.Acyclic (DerivesPostset catalog program) := by
  refine h.mono fun x y ⟨d, ⟨d₀, hd₀, hident, hdeps⟩, hx, deps, hd, hy⟩ => ?_
  exact ⟨d₀, hd₀, hident.symm.trans hx, deps, hdeps.symm.trans hd, hy⟩

end Link

theorem Catalog.mem_items_of_postset {c : Catalog} {i : Ident} {d : Postset}
    (h : (c.item i).postset = some d) : ∃ x, (i, x) ∈ c.items ∧ x.postset = some d := by
  rw [Catalog.item] at h
  cases hi : c.get? i with
  | none => simp [hi] at h
  | some x => exact ⟨x, mem_items_of_get? hi, by simpa [hi] using h⟩

section Assembled

variable {catalog : Catalog} {config : Config} {program : Program} {shell : Shell}
  {main globals : Session} {cycles : List (List Ident)}

theorem Plan.ItemFault.ne_cyclicPostsets {e : LinkError} (h : ItemFault e) :
    e ≠ .cyclicPostsets cycles := by
  cases h <;> simp

theorem LinkState.runPass_ne_cyclic {p : Plan} {l : LinkState} {rs : List Request} :
    l.runPass p rs ≠ .error (.cyclicPostsets cycles) := by
  intro h
  obtain hf | ⟨s, -, -, he⟩ := runPass_error h
  · exact hf.itemFault.ne_cyclicPostsets rfl
  · simp at he

theorem deliver_cyclic_iff :
    Link.deliver config program shell main globals = .error (.cyclicPostsets cycles) ↔
      Postset.order (Link.collected program main globals) = .error cycles := by
  rw [Link.deliver, Link.assemble, Link.sections_eq, Link.collected]
  dsimp only
  split <;> simp_all [Except.map]

theorem passes_of_link_cyclic
    (h : link catalog config program shell = .error (.cyclicPostsets cycles)) :
    ∃ main globals, Link.Passes catalog config program main globals := by
  rw [link] at h
  cases hc : Link.conflict? config with
  | some e =>
    obtain rfl : e = .cyclicPostsets cycles := by
      simpa [hc, throw, throwThe, MonadExceptOf.throw, bind, Except.bind] using h
    rw [Link.conflict?] at hc
    split at hc <;> simp at hc
  | none =>
    simp only [hc] at h
    cases hm : (LinkState.ofLists program.compiled config.exportedNames).runPass ⟨catalog, config⟩
        (program.requests ++ Link.defaultRequests ⟨catalog, config⟩) with
    | error e =>
      obtain rfl : e = .cyclicPostsets cycles := by simpa [hm, bind, Except.bind] using h
      exact absurd hm LinkState.runPass_ne_cyclic
    | ok x =>
      obtain ⟨l, q⟩ := x
      obtain ⟨main, hmain, rfl, rfl, hmu⟩ := LinkState.runPass_ok hm
      cases hg : main.link.runPass ⟨catalog, config⟩ program.globals with
      | error e =>
        obtain rfl : e = .cyclicPostsets cycles := by simpa [hm, hg, bind, Except.bind] using h
        exact absurd hg LinkState.runPass_ne_cyclic
      | ok y =>
        obtain ⟨l', q'⟩ := y
        obtain ⟨globals, hglobals, -, rfl, hgu⟩ := LinkState.runPass_ok hg
        exact ⟨main, globals, hc, hmain, hglobals, hmu, hgu⟩

theorem link_cyclic_iff :
    link catalog config program shell = .error (.cyclicPostsets cycles) ↔
      ∃ main globals, Link.Passes catalog config program main globals ∧
        Postset.order (Link.collected program main globals) = .error cycles := by
  constructor
  · intro h
    obtain ⟨main, globals, hp⟩ := passes_of_link_cyclic h
    exact ⟨main, globals, hp, deliver_cyclic_iff.1 (link_of_passes shell hp ▸ h)⟩
  · rintro ⟨main, globals, hp, ho⟩
    exact (link_of_passes shell hp).trans (deliver_cyclic_iff.2 ho)

theorem derives_of_collected {d : Postset} (hp : Link.Passes catalog config program main globals)
    (h : d ∈ Link.collected program main globals) : Link.DerivesPostset catalog program d := by
  have hpass : ∀ i, Plan.postset? ⟨catalog, config⟩ i = some d →
      Link.DerivesPostset catalog program d := by
    intro i hi
    rw [Plan.postset?] at hi
    split_ifs at hi
    obtain ⟨d₀, hd₀, rfl⟩ := Option.map_eq_some_iff.1 hi
    exact ⟨d₀, .inr ⟨i, hd₀⟩, rfl, rfl⟩
  rw [Link.collected, List.mem_append, List.mem_append] at h
  obtain h | h | h := h
  · exact ⟨d, .inl h, rfl, rfl⟩
  · obtain ⟨i, hi⟩ := Session.collected_of_requestAll hp.served_globals d h
    exact hpass i hi
  · obtain ⟨i, hi⟩ := Session.collected_of_requestAll hp.served d h
    exact hpass i hi

/-- If the identifiers of the declared postsets do not depend on each other in a circle, a link
fails over cyclic postsets exactly if two of the statements that it collects share an identifier and
depend on it. -/
theorem link_cyclic_iff_shared
    (hacyclic : Postset.Acyclic (Link.DeclaresPostset catalog program)) :
    (∃ cycles, link catalog config program shell = .error (.cyclicPostsets cycles)) ↔
      ∃ main globals, Link.Passes catalog config program main globals ∧
        ∃ x, 1 < (Link.collected program main globals).countP (Postset.restsOn x) := by
  have horder : ∀ main globals, Link.Passes catalog config program main globals →
      ((∃ cycles, Postset.order (Link.collected program main globals) = .error cycles) ↔
        ∃ x, 1 < (Link.collected program main globals).countP (Postset.restsOn x)) :=
    fun main globals hp => Postset.order_error_iff_shared (Link.acyclic_derivesPostset hacyclic)
      fun d hd => derives_of_collected hp hd
  constructor
  · rintro ⟨cycles, h⟩
    obtain ⟨main, globals, hp, ho⟩ := link_cyclic_iff.1 h
    exact ⟨main, globals, hp, (horder main globals hp).1 ⟨cycles, ho⟩⟩
  · rintro ⟨main, globals, hp, hx⟩
    obtain ⟨cycles, ho⟩ := (horder main globals hp).2 hx
    exact ⟨cycles, link_cyclic_iff.2 ⟨main, globals, hp, ho⟩⟩

end Assembled

def starting : Catalog where
  items := [
    (⟨"A"⟩, {
      entry := some (.raw "1")
      postset := some ⟨some ⟨"A"⟩, some [⟨"A"⟩], "initA()"⟩ }),
    (⟨"B"⟩, {
      entry := some (.raw "2")
      postset := some ⟨some ⟨"B"⟩, some [⟨"A"⟩, ⟨"B"⟩], "initB()"⟩ })]
  order := [⟨"A"⟩, ⟨"B"⟩]

theorem starting_acyclic {program : Program} (h : program.postsets = []) :
    Postset.Acyclic (Link.DeclaresPostset starting program) := by
  have hedge : ∀ x y, x ≠ y ∧ Postset.Follows (Link.DeclaresPostset starting program) x y →
      x = ⟨"B"⟩ ∧ y = ⟨"A"⟩ := by
    rintro x y ⟨hxy, d, hd | ⟨i, hi⟩, hx, deps, hdeps, hy⟩
    · simp [h] at hd
    · obtain ⟨item, hitem, hd⟩ := Catalog.mem_items_of_postset hi
      simp only [starting, List.mem_cons, List.not_mem_nil, or_false, Prod.mk.injEq] at hitem
      obtain ⟨rfl, rfl⟩ | ⟨rfl, rfl⟩ := hitem <;> obtain rfl := Option.some.inj hd
      · obtain ⟨rfl, rfl⟩ := And.intro (Option.some.inj hx) (Option.some.inj hdeps)
        exact absurd (List.mem_singleton.1 hy).symm hxy
      · obtain ⟨rfl, rfl⟩ := And.intro (Option.some.inj hx) (Option.some.inj hdeps)
        exact ⟨rfl, by simpa [Ne.symm hxy] using hy⟩
  intro x hx
  obtain ⟨y, hxy, -⟩ := TransGen.head'_iff.1 hx
  obtain ⟨z, -, hzx⟩ := TransGen.tail'_iff.1 hx
  have hB : x = ⟨"B"⟩ := (hedge x y hxy).1
  have hA : x = ⟨"A"⟩ := (hedge z x hzx).2
  simp [hA] at hB

def startingApart : Program where
  requests := [⟨⟨"A"⟩, none, none⟩]
  globals := [⟨⟨"B"⟩, none, none⟩]

/-- Each pass collects a statement of its own. -/
theorem startingApart_links :
    Postset.Acyclic (Link.DeclaresPostset starting startingApart) ∧
      ¬∃ cycles, link starting {} startingApart {} = .error (.cyclicPostsets cycles) := by
  refine ⟨starting_acyclic rfl, fun h => ?_⟩
  obtain ⟨main, globals, hp, x, hx⟩ := (link_cyclic_iff_shared (starting_acyclic rfl)).1 h
  have hcollected : Link.collected startingApart main globals =
      [⟨some ⟨"B"⟩, some [⟨"A"⟩, ⟨"B"⟩], "initB();"⟩, ⟨some ⟨"A"⟩, some [⟨"A"⟩], "initA();"⟩] := by
    obtain rfl := congrArg Prod.fst hp.served
    obtain rfl := congrArg Prod.fst hp.served_globals
    decide +kernel
  rw [hcollected] at hx
  by_cases hA : x = ⟨"A"⟩
  · exact absurd hx (by rw [hA]; decide)
  · have hrest : List.countP (Postset.restsOn x) [⟨some ⟨"A"⟩, some [⟨"A"⟩], "initA();"⟩] = 0 := by
      simp [Postset.restsOn, Ne.symm hA]
    rw [List.countP_cons, hrest] at hx
    split at hx <;> omega

def startingTwice : Program where
  requests := [⟨⟨"A"⟩, none, none⟩]
  globals := [⟨⟨"A"⟩, none, none⟩]

/-- The statement that both passes collect makes a circle of its own. -/
theorem starting_unlinked :
    ∃ program : Program, Postset.Acyclic (Link.DeclaresPostset starting program) ∧
      link starting {} program {} = .error (.cyclicPostsets [[⟨"A"⟩, ⟨"A"⟩]]) := by
  let main := (Session.requestAll ⟨starting, {}⟩ { link := .ofLists [] [] }
    (startingTwice.requests ++ Link.defaultRequests ⟨starting, {}⟩)).1
  let globals := (Session.requestAll ⟨starting, {}⟩ { link := main.link } startingTwice.globals).1
  have hp : Link.Passes starting {} startingTwice main globals :=
    ⟨rfl, Prod.ext rfl (by decide +kernel), Prod.ext rfl (by decide +kernel), by decide +kernel,
      by decide +kernel⟩
  have hcollected : Link.collected startingTwice main globals =
      [⟨some ⟨"A"⟩, some [⟨"A"⟩], "initA();"⟩, ⟨some ⟨"A"⟩, some [⟨"A"⟩], "initA();"⟩] := by
    decide +kernel
  have hcomponents : (Postset.graph
      ((Link.collected startingTwice main globals).filter Postset.isOrderable)).components =
        [[1, 0]] := by
    rw [hcollected]
    decide +kernel
  refine ⟨startingTwice, starting_acyclic rfl, link_cyclic_iff.2 ⟨main, globals, hp, ?_⟩⟩
  refine Postset.order_eq_error_iff.2 ⟨?_, List.cons_ne_nil _ _⟩
  rw [Postset.cycles, hcomponents, List.filter_cons_of_pos (by decide), List.filter_nil,
    List.map_cons, Postset.mergeSort_swapped 0, hcollected]
  rfl

end CatalogLinker
