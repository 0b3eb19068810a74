import CatalogLinker.Proofs.Resolution.Dependency
import CatalogLinker.Proofs.Resolution.Requests

namespace CatalogLinker

open CatalogLinker.Graph Graph.Visit Graph.Network

namespace Plan

variable (p : Plan)

/-- What an identifier can contribute itself: nothing if it is expanded inline or goes to the
compiled section, otherwise its declaration, which its registration may follow. -/
inductive OwnContent (i : Ident) : String → Prop
  | inlined : p.ownText i = .ok none → OwnContent i ""
  | moved {own sig : String} : p.ownText i = .ok (some own) → p.compiledSig? i = some sig →
      OwnContent i ""
  | declared {own text : String} {t t' : ProxyTable} : p.ownText i = .ok (some own) →
      p.compiledSig? i = none → Session.proxied p i own t = (t', .ok text) → OwnContent i text
  | registered {own text : String} {t t' : ProxyTable} : p.ownText i = .ok (some own) →
      p.compiledSig? i = none → Session.proxied p i own t = (t', .ok text) → p.isRegistrable i →
      OwnContent i (text ++ "\n" ++ registration i.finalName)

/-- Own contents of identifiers: no final name occurs twice, and dependencies come before what
depends on them, unless they depend on it in turn. -/
structure Ordered (cs : List (Ident × String)) : Prop where
  own : ∀ c ∈ cs, p.OwnContent c.1 c.2
  once : (cs.map fun c => c.1.finalName).Nodup
  sorted : ∀ a ∈ cs.map Prod.fst, ∀ b ∈ cs.map Prod.fst, p.Needs a b →
    [b, a].Sublist (cs.map Prod.fst) ∨ Relation.ReflTransGen p.Needs b a

theorem leads_network (closed : Name → Bool) : (p.network closed).Leads = p.Needs := by
  funext a b
  exact propext p.mem_deps_iff

end Plan

def Placement.content (x : Placement) : Ident × String :=
  (x.ident, x.text)

theorem Placement.map_fst_content (ps : List Placement) :
    (ps.map content).map Prod.fst = ps.map ident := by
  rw [List.map_map]
  rfl

theorem Placement.map_snd_content (ps : List Placement) :
    (ps.map content).map Prod.snd = ps.map text := by
  rw [List.map_map]
  rfl

namespace Session

variable {p : Plan} {closed : Name → Bool} {seen : List Name} {s s' : Session} {i : Ident}
  {is : List Ident} {vs : List (Visit Ident)} {rs : List Request} {t : String} {ts : List String}
  {ps : List Placement}

theorem Places.ownContent (h : Places p s i s' t) : p.OwnContent i t := by
  cases h with
  | nothing ho => exact .inlined ho
  | declared ho hp hsig =>
    rw [registered]
    split
    · rename_i hreg
      exact .registered ho hsig hp (Bool.and_eq_true_iff.1 hreg).1
    · exact .declared ho hsig hp
  | moved ho hp hsig => exact .moved ho hsig

theorem names_perm
    (hi : ps.map Placement.ident = finishedNodesAll ((p.network closed).visitAll seen is)) :
    ((ps.map Placement.content).map fun c => c.1.finalName).Perm
      ((p.network closed).expandedKeysAll ((p.network closed).visitAll seen is)) := by
  have hnames : ((ps.map Placement.content).map fun c => c.1.finalName) =
      (ps.map Placement.ident).map Ident.finalName := by
    rw [List.map_map, List.map_map]
    rfl
  rw [hnames, hi]
  exact (finishedNodesAll_perm _).map Ident.finalName

theorem ordered_of_walk
    (hi : ps.map Placement.ident = finishedNodesAll ((p.network closed).visitAll seen is))
    (hp : ∀ x ∈ ps, ∃ s₁, Places p x.session x.ident s₁ x.text) :
    p.Ordered (ps.map Placement.content) where
  own := by
    intro c hc
    obtain ⟨x, hx, rfl⟩ := List.mem_map.1 hc
    obtain ⟨s₁, hs₁⟩ := hp x hx
    exact hs₁.ownContent
  once := by
    rw [(names_perm hi).nodup_iff]
    exact ((p.network closed).nodup_expandedKeysAll seen is).1
  sorted := by
    rw [Placement.map_fst_content, hi]
    intro a ha b hb hab
    rw [← p.leads_network closed] at hab ⊢
    exact sublist_finished_or_reaches (mem_finishedNodesAll.1 ha) (mem_finishedNodesAll.1 hb) hab

theorem Executes.resolved_of_mem {n : Name} (h : Executes p s vs s' ts ps)
    (hn : n ∈ s.pass.resolved ∨ n ∈ (expandedNodesAll vs).map Ident.finalName) :
    n ∈ s'.pass.resolved := by
  induction h with
  | nil => simpa using hn
  | turnedBack _ ih =>
    rw [mem_turnBack_resolved] at ih
    rw [expandedNodesAll_cons, expandedNodes_turnedBack, List.nil_append] at hn
    exact ih (hn.imp_left .inl)
  | expanded _ hp _ ihu ihv =>
    rw [conclude_resolved, hp.resolved_eq, addPostset_resolved] at ihv
    rw [announce_resolved, mem_start_resolved] at ihu
    simp only [expandedNodesAll_cons, expandedNodes_expanded, List.cons_append, List.map_cons,
      List.map_append, List.mem_cons, List.mem_append] at hn
    obtain hn | hn | hn | hn := hn
    · exact ihv (.inl (ihu (.inl (.inl hn))))
    · exact ihv (.inl (ihu (.inl (.inr hn))))
    · exact ihv (.inl (ihu (.inr hn)))
    · exact ihv (.inr hn)

theorem Executes.mem_of_resolved {n : Name} (h : Executes p s vs s' ts ps)
    (hn : n ∈ s'.pass.resolved) :
    n ∈ s.pass.resolved ∨ n ∈ (expandedNodesAll vs).map Ident.finalName ∨
      n ∉ s.link.compiled := by
  induction h with
  | nil => exact .inl hn
  | turnedBack _ ih =>
    have hmem := ih hn
    rw [mem_turnBack_resolved, turnBack_compiled, LinkState.isCompiled, List.contains_iff_mem] at hmem
    rw [expandedNodesAll_cons, expandedNodes_turnedBack, List.nil_append]
    obtain (h | ⟨-, hc, rfl⟩) | h | h := hmem
    · exact .inl h
    · exact .inr (.inr hc)
    · exact .inr (.inl h)
    · exact .inr (.inr h)
  | expanded hu hp _ ihu ihv =>
    have hmem := ihv hn
    rw [conclude_resolved, hp.resolved_eq, addPostset_resolved, conclude_compiled, hp.compiled_eq,
      addPostset_link, hu.compiled_eq, announce_compiled, start_link] at hmem
    rw [announce_resolved, mem_start_resolved, announce_compiled, start_link] at ihu
    simp only [expandedNodesAll_cons, expandedNodes_expanded, List.cons_append, List.map_cons,
      List.map_append, List.mem_cons, List.mem_append]
    obtain h | h | h := hmem
    · obtain (h | h) | h | h := ihu h
      · exact .inl h
      · exact .inr (.inl (.inl h))
      · exact .inr (.inl (.inr (.inl h)))
      · exact .inr (.inr h)
    · exact .inr (.inl (.inr (.inr h)))
    · exact .inr (.inr h)

/-- A resolution returns the own contents of the names that it is the first to resolve, except those
that the compiled section held before. -/
theorem contents_of_resolve (h : s.resolve p i = (s', .ok t)) :
    ∃ cs, p.Ordered cs ∧ t = joinTexts (cs.map Prod.snd) ∧
      ∀ n, n ∈ cs.map (fun c => c.1.finalName) ↔
        n ∈ s'.pass.resolved ∧ n ∉ s.pass.resolved ∧ ¬s.link.isImplemented n := by
  obtain ⟨ps, hps⟩ := executes_of_resolve (Aligned.refl s) h
  refine ⟨ps.map Placement.content, ordered_of_walk hps.idents hps.places, ?_, fun n => ?_⟩
  · rw [Placement.map_snd_content, ← hps.joinTexts_eq, joinTexts_singleton]
  · rw [(names_perm hps.idents).mem_iff]
    constructor
    · intro hn
      obtain ⟨a, ha, rfl⟩ := List.mem_map.1 hn
      have hfresh := ((p.network s.isClosed).nodup_expandedKeysAll s.pass.resolved [i]).2 _ hn
      have hopen := (isOpen_network_iff p).1 ⟨isOpen_of_mem_expanded ha, hfresh⟩
      refine ⟨hps.resolved_of_mem (.inr hn), hfresh, fun himp => hopen.2 (.inl ?_)⟩
      exact Bool.or_eq_true_iff.2 (.inr himp)
    · rintro ⟨hn, hr, himp⟩
      have hal := (hps.aligned (Aligned.refl s) n).2 (.inr hn)
      rw [isClosed_iff, List.mem_append] at hal
      obtain (hc | hc) | hk | hk := hal
      · obtain h | h | h := hps.mem_of_resolved hn
        · exact absurd h hr
        · exact h
        · exact absurd hc h
      · exact absurd hc himp
      · exact hk
      · exact absurd hk hr

theorem Serves.intercalate_declarations {l : LinkState} (h : Serves p { link := l } rs vs s ps) :
    String.intercalate "\n" s.pass.declarations =
      joinTexts ((ps.map Placement.content).map Prod.snd) := by
  have hne := h.declarations_ne_empty (by simp [Pass.declarations])
  rw [← joinTexts_of_ne_empty hne, h.joinTexts_declarations, Placement.map_snd_content]
  rfl

theorem Serves.mem_contents_iff {l : LinkState} (h : Serves p { link := l } rs vs s ps) :
    i ∈ (ps.map Placement.content).map Prod.fst ↔ .began i i.finalName ∈ s.pass.trace := by
  rw [Placement.map_fst_content, h.idents, h.began_iff, mem_finishedNodesAll]
  simp

/-- Every resolution returns own contents in order, and a pass declares the own contents of what it
begins to expand in order. -/
theorem declared_in_dependency_order {l : LinkState}
    (h : Session.requestAll p { link := l } rs = (s, .ok ())) :
    (∀ s₀ i s₁ t, Session.resolve p s₀ i = (s₁, .ok t) →
      ∃ cs, p.Ordered cs ∧ t = joinTexts (cs.map Prod.snd) ∧
        ∀ n, n ∈ cs.map (fun c => c.1.finalName) ↔
          n ∈ s₁.pass.resolved ∧ n ∉ s₀.pass.resolved ∧ ¬s₀.link.isImplemented n) ∧
    ∃ cs, p.Ordered cs ∧
      String.intercalate "\n" s.pass.declarations = joinTexts (cs.map Prod.snd) ∧
      ∀ i, i ∈ cs.map Prod.fst ↔ .began i i.finalName ∈ s.pass.trace := by
  refine ⟨fun s₀ i s₁ t => contents_of_resolve, ?_⟩
  obtain ⟨ps, hps⟩ := serves_of_pass h
  exact ⟨ps.map Placement.content, ordered_of_walk hps.idents hps.places,
    hps.intercalate_declarations, fun i => hps.mem_contents_iff⟩

def entwined : Plan where
  catalog := {
    items := [(⟨"f"⟩, { entry := some (.body "function() { return v; }"), deps := [⟨"v"⟩] }),
      (⟨"v"⟩, { entry := some (.raw "1"), deps := [⟨"f"⟩] }),
      (⟨"w"⟩, { entry := some (.aliasOf ⟨"v"⟩) })]
    order := [⟨"f"⟩, ⟨"v"⟩, ⟨"w"⟩] }
  config := {}

theorem entwined_declared :
    ∃ s cs, Session.requestAll entwined { link := {} } [⟨⟨"w"⟩, none, none⟩] = (s, .ok ()) ∧
      s.pass.declarations = ["function _f() { return v; }\nvar _v=1;\nvar _w=_v;"] ∧
      entwined.Ordered cs ∧
      String.intercalate "\n" s.pass.declarations = joinTexts (cs.map Prod.snd) ∧
      ∀ i, i ∈ cs.map Prod.fst ↔ .began i i.finalName ∈ s.pass.trace := by
  have h : Session.requestAll entwined { link := {} } [⟨⟨"w"⟩, none, none⟩] = (_, .ok ()) :=
    requestAll_eq_ok (by decide +kernel)
  obtain ⟨cs, ho, ht, hi⟩ := (declared_in_dependency_order h).2
  exact ⟨_, cs, h, by decide +kernel, ho, ht, hi⟩

end Session

end CatalogLinker
