import CatalogLinker.Proofs.Link.Gathering
import CatalogLinker.Proofs.Link.Registration

namespace CatalogLinker

open CatalogLinker.Graph Graph.Visit Graph.Network

def Entry.valueDeclaration? (n : Name) : Entry → Option String
  | .raw code => some (Plan.rawText n code)
  | .structured v => some ("var " ++ n.text ++ "=" ++ v.text ++ ";")
  | .body _ => none
  | .aliasOf _ => none

theorem Plan.rawText_ne_empty (n : Name) (code : String) : rawText n code ≠ "" := by
  rw [rawText]
  dsimp only
  split <;> simp

theorem Entry.valueDeclaration?_ne_empty {n : Name} {e : Entry} {text : String}
    (h : e.valueDeclaration? n = some text) : text ≠ "" := by
  cases e with
  | raw code => exact Option.some.inj h ▸ Plan.rawText_ne_empty n code
  | structured v =>
    rw [← Option.some.inj h]
    simp
  | body code => simp [valueDeclaration?] at h
  | aliasOf t => simp [valueDeclaration?] at h

def Link.HasLines (text inner : String) : Prop :=
  ∃ before after, text = lines (before ++ inner :: after)

/-- Nothing is dead, and there is no other module. -/
structure Config.Plain (c : Config) : Prop where
  linkage : c.linkage = .standalone
  deadNames : c.deadNames = []

namespace Plan

variable (p : Plan)

structure HasValue (i : Ident) (text : String) : Prop where
  not_isMetadataKey : ¬i.isMetadataKey
  not_isNumberedCatch : ¬isNumberedCatch i
  entry : ∃ e, (p.item i).entry = some e ∧ e.valueDeclaration? i.finalName = some text

variable {p} {i : Ident} {text t : String}

namespace HasValue

variable (hp : p.config.Plain) (h : p.HasValue i text)
include hp h

theorem entry?_eq : p.entry? i = (p.item i).entry := by
  obtain ⟨e, he, -⟩ := h.entry
  have hpursues : p.Pursues i := by
    refine ⟨fun hd => ?_, by rw [hp.linkage]; decide⟩
    rw [hp.deadNames] at hd
    exact List.not_mem_nil hd.1
  have ho : p.outcome i = .catalogEntry :=
    outcome_eq_catalogEntry_iff.2 ⟨hpursues, h.not_isNumberedCatch, by rw [he, Option.isSome_some]⟩
  unfold entry?
  rw [ho]

theorem ownText_eq : p.ownText i = .ok (some text) := by
  obtain ⟨e, he, htext⟩ := h.entry
  rw [ownText, h.entry?_eq hp, he]
  cases e with
  | raw code => rw [← htext, Entry.valueDeclaration?]
  | structured v => rw [← htext, Entry.valueDeclaration?]
  | body code => simp [Entry.valueDeclaration?] at htext
  | aliasOf t => simp [Entry.valueDeclaration?] at htext

theorem isFunction_eq : p.isFunction i = false := by
  obtain ⟨e, he, htext⟩ := h.entry
  rw [isFunction, h.entry?_eq hp, he]
  cases e with
  | body code => simp [Entry.valueDeclaration?] at htext
  | raw code => rfl
  | structured v => rfl
  | aliasOf t => rfl

theorem content_eq (hc : p.OwnContent i t) :
    t = text ∨ t = text ++ "\n" ++ registration i.finalName := by
  have hf := h.isFunction_eq hp
  have hproxied : ∀ {own u x x'}, p.ownText i = .ok (some own) →
      Session.proxied p i own x = (x', .ok u) → u = text := by
    intro own u x x' ho hu
    obtain rfl : own = text := Option.some.inj (Except.ok.inj (ho.symm.trans (h.ownText_eq hp)))
    rw [Session.proxied, proxyMode?, hf] at hu
    exact (Except.ok.inj (Prod.mk.inj hu).2).symm
  cases hc with
  | inlined ho => simp [h.ownText_eq hp] at ho
  | moved _ hsig => simp [compiledSig?, hf] at hsig
  | declared ho _ hu => exact .inl (hproxied ho hu)
  | registered ho _ hu _ => exact .inr (by rw [hproxied ho hu])

end HasValue

theorem HasValue.ne_empty (h : p.HasValue i text) : text ≠ "" := by
  obtain ⟨e, -, htext⟩ := h.entry
  exact Entry.valueDeclaration?_ne_empty htext

end Plan

namespace Link

variable {ts : List String} {text inner last : String}

theorem hasLines_of_mem (h : inner ∈ ts ∨ inner ++ "\n" ++ last ∈ ts) (hi : inner ≠ "")
    (hl : last ≠ "") : HasLines (lines ts) inner := by
  obtain h | h := h
  · obtain ⟨before, after, rfl⟩ := List.append_of_mem h
    exact ⟨before, after, rfl⟩
  · obtain ⟨before, after, rfl⟩ := List.append_of_mem h
    have htwo : String.intercalate "\n" [inner ++ "\n" ++ last] =
        String.intercalate "\n" [inner, last] := by
      simp
    have hlines : lines (before ++ [inner ++ "\n" ++ last] ++ after) =
        lines (before ++ [inner, last] ++ after) :=
      intercalate_middle_congr (by simp [hi]) (by simp [hi, hl]) htwo
    exact ⟨before, last :: after, by simpa using hlines⟩

end Link

namespace Session

variable {p : Plan} {l : LinkState} {rs : List Request} {s : Session} {i : Ident} {text : String}

theorem compiled_of_requestAll (h : Session.requestAll p { link := l } rs = (s, .ok ())) :
    s.link.compiled = l.compiled := by
  have hfresh : UnderWay p [] { link := l } ∧ Relation.ReflTransGen LinkState.Gathers l l :=
    ⟨.nil _, .refl⟩
  have hgathers := ((maintains_gathers l).requestAll (s := { link := l }) hfresh rs).2
  rw [h] at hgathers
  exact (LinkState.grows_of_gathers hgathers).compiled

theorem requested_began (h : Session.requestAll p { link := l } rs = (s, .ok ()))
    (hi : i ∈ rs.map Request.ident) (hm : ¬i.isMetadataKey)
    (hopen : ¬l.isCompiled i.finalName ∧ ¬l.isImplemented i.finalName)
    (halone : ∀ j ∈ s.pass.begun, j.finalName = i.finalName → j = i) :
    .began i i.finalName ∈ s.pass.trace := by
  obtain ⟨ps, hps⟩ := serves_of_pass h
  have hroot : (p.network ({ link := l } : Session).isClosed).isOpen i := by
    simp [Plan.network, isClosed, hm, hopen]
  -- Some identifier is expanded for the name, and there is no other.
  have hkey : _ ∈ [] ∨ _ := key_mem_of_mem_roots hi hroot
  obtain hkey | hkey := hkey
  · exact absurd hkey List.not_mem_nil
  · obtain ⟨j, hj, hji⟩ := List.mem_map.1 hkey
    have hbegan : .began j i.finalName ∈ s.pass.trace := hps.began_iff.2 (.inr ⟨hj, hji.symm⟩)
    exact halone j (List.mem_filterMap.2 ⟨_, hbegan, rfl⟩) hji ▸ hbegan

theorem requested_value_hasLines (hp : p.config.Plain)
    (h : Session.requestAll p { link := l } rs = (s, .ok ())) (hi : i ∈ rs.map Request.ident)
    (hv : p.HasValue i text) (hopen : ¬l.isCompiled i.finalName ∧ ¬l.isImplemented i.finalName)
    (halone : ∀ j ∈ s.pass.begun, j.finalName = i.finalName → j = i) (before after : List String) :
    Link.HasLines (Link.lines (before ++ s.pass.declarations ++ after)) text := by
  obtain ⟨ps, hps⟩ := serves_of_pass h
  have hbegan := requested_began h hi hv.not_isMetadataKey hopen halone
  obtain ⟨t, ht⟩ : ∃ t, (i, t) ∈ ps.map Placement.content := by
    obtain ⟨⟨j, t⟩, ht, rfl⟩ := List.mem_map.1 (hps.mem_contents_iff.2 hbegan)
    exact ⟨t, ht⟩
  have hcontent := hv.content_eq hp ((ordered_of_walk hps.idents hps.places).own _ ht)
  have hne : t ≠ "" := by
    obtain rfl | rfl := hcontent
    · exact hv.ne_empty
    · simp [hv.ne_empty]
  have hmem : t ∈ before ++ ((ps.map Placement.content).map Prod.snd).filter (· ≠ "") ++ after := by
    refine List.mem_append_left _ (List.mem_append_right _ (List.mem_filter.2 ⟨?_, ?_⟩))
    · exact List.mem_map_of_mem ht
    · simpa using hne
  have hlines : Link.lines (before ++ s.pass.declarations ++ after) =
      Link.lines (before ++ ((ps.map Placement.content).map Prod.snd).filter (· ≠ "") ++ after) :=
    intercalate_middle_congr (hps.declarations_ne_empty (by simp [Pass.declarations]))
      (fun t ht => by simpa using (List.mem_filter.1 ht).2) hps.intercalate_declarations
  rw [hlines]
  have hregistration : Plan.registration i.finalName ≠ "" := by simp [Plan.registration]
  refine Link.hasLines_of_mem ?_ hv.ne_empty hregistration
  obtain rfl | rfl := hcontent
  · exact .inl hmem
  · exact .inr hmem

end Session

/-- Every value that is requested in a pass of a plain program without compiled code is declared
among the declarations of the output, unless another identifier has been begun under its final name
in that pass; what the main pass has moved to the compiled section keeps its name. -/
theorem requested_values_declared {catalog : Catalog} {config : Config} {program : Program}
    {shell : Shell} {out : Output} (h : link catalog config program shell = .ok out)
    (hp : config.Plain) (hc : program.compiled = []) :
    ∃ main globals : Session, Link.Passes catalog config program main globals ∧
      ∃ declarations rest, declarations = (Link.sections config program globals.link.proxies
          globals.pass.fragments main.pass.fragments).declarations ∧
        out.text = Link.lines (shell.preamble :: Link.lines declarations :: rest) ∧
        (∀ r ∈ program.requests ++ Link.defaultRequests ⟨catalog, config⟩, ∀ text,
          Plan.HasValue ⟨catalog, config⟩ r.ident text →
          (∀ j ∈ main.pass.begun, j.finalName = r.ident.finalName → j = r.ident) →
            Link.HasLines (Link.lines declarations) text) ∧
        ∀ r ∈ program.globals, ∀ text, Plan.HasValue ⟨catalog, config⟩ r.ident text →
          (∀ j ∈ globals.pass.begun, j.finalName = r.ident.finalName → j = r.ident) →
          ¬main.link.isImplemented r.ident.finalName →
            Link.HasLines (Link.lines declarations) text := by
  obtain ⟨main, globals, hpasses, hd⟩ := link_eq_ok_iff.1 h
  obtain ⟨_, -, htext⟩ := Link.assemble_ok (Link.deliver_ok hd).1
  refine ⟨main, globals, hpasses, _, _, rfl, htext, ?_, ?_⟩
  · intro r hr text hv halone
    have hopen : ∀ n, ¬(LinkState.ofLists program.compiled config.exportedNames).isCompiled n ∧
        ¬(LinkState.ofLists program.compiled config.exportedNames).isImplemented n := by
      rw [hc]
      exact fun n => ⟨Bool.false_ne_true, Bool.false_ne_true⟩
    rw [Link.sections_eq, ← List.append_assoc]
    exact Session.requested_value_hasLines hp hpasses.served (List.mem_map_of_mem hr) hv (hopen _)
      halone _ _
  · intro r hr text hv halone himp
    have hcompiled : ¬main.link.isCompiled r.ident.finalName := by
      rw [LinkState.isCompiled, Session.compiled_of_requestAll hpasses.served, hc]
      exact Bool.false_ne_true
    rw [Link.sections_eq, List.append_assoc, List.append_assoc, ← List.append_assoc]
    exact Session.requested_value_hasLines hp hpasses.served_globals (List.mem_map_of_mem hr) hv
      ⟨hcompiled, himp⟩ halone _ _

/-- Two identifiers of one final name, and a value for a numbered catch helper. -/
def namesakes : Catalog where
  items := [(⟨"x"⟩, { entry := some (.raw "1") }), (⟨"$_x"⟩, { entry := some (.raw "2") }),
    (⟨"__cxa_find_matching_catch_2"⟩, { entry := some (.raw "3") })]
  order := [⟨"x"⟩, ⟨"$_x"⟩, ⟨"__cxa_find_matching_catch_2"⟩]

theorem namesakes_declared :
    ∃ out declarations rest, link namesakes { exportedNames := [⟨"_x"⟩] }
        { requests := [⟨⟨"x"⟩, none, none⟩], globals := [⟨⟨"$_x"⟩, none, none⟩] } {} = .ok out ∧
      out.text = Link.lines ("" :: Link.lines declarations :: rest) ∧
      Link.HasLines (Link.lines declarations) "var _x=1;" ∧
      Link.HasLines (Link.lines declarations) "var _x=2;" := by
  obtain ⟨out, h, -⟩ : ∃ out, link namesakes { exportedNames := [⟨"_x"⟩] }
      { requests := [⟨⟨"x"⟩, none, none⟩], globals := [⟨⟨"$_x"⟩, none, none⟩] } {} = .ok out ∧
      True := exists_ok (by decide +kernel)
  obtain ⟨main, globals, hpasses, declarations, rest, -, htext, hmain, hglobals⟩ :=
    requested_values_declared h ⟨rfl, rfl⟩ rfl
  obtain rfl := congrArg Prod.fst hpasses.served
  obtain rfl := congrArg Prod.fst hpasses.served_globals
  refine ⟨out, declarations, rest, h, htext, ?_, ?_⟩
  · have hvalue : Plan.HasValue ⟨namesakes, { exportedNames := [⟨"_x"⟩] }⟩ ⟨"x"⟩ "var _x=1;" :=
      ⟨by decide +kernel, by decide +kernel, .raw "1", rfl, by decide +kernel⟩
    exact hmain _ List.mem_cons_self _ hvalue (by decide +kernel)
  · have hvalue : Plan.HasValue ⟨namesakes, { exportedNames := [⟨"_x"⟩] }⟩ ⟨"$_x"⟩ "var _x=2;" :=
      ⟨by decide +kernel, by decide +kernel, .raw "2", rfl, by decide +kernel⟩
    exact hglobals _ List.mem_cons_self _ hvalue (by decide +kernel) (by decide +kernel)

/-- Of two identifiers with one final name only the first is declared, and the value of the catch
helper is declared nowhere. -/
theorem namesakes_lost :
    let i : Ident := ⟨"$_x"⟩
    let catch2 : Ident := ⟨"__cxa_find_matching_catch_2"⟩
    (namesakes.item i).entry.bind (Entry.valueDeclaration? i.finalName) = some "var _x=2;" ∧
      (namesakes.item catch2).entry.bind (Entry.valueDeclaration? catch2.finalName) =
        some "var ___cxa_find_matching_catch_2=3;" ∧
      ¬i.isMetadataKey ∧ ¬catch2.isMetadataKey ∧
      ∃ out, link namesakes {} { requests := [⟨⟨"x"⟩, none, none⟩, ⟨i, none, none⟩,
            ⟨catch2, none, none⟩] } {} = .ok out ∧
        ¬"var _x=2;".toList <:+: out.text.toList ∧
        ¬"var ___cxa_find_matching_catch_2=3;".toList <:+: out.text.toList := by
  refine ⟨by decide +kernel, by decide +kernel, by decide +kernel, by decide +kernel, ?_⟩
  exact exists_ok (by decide +kernel)

end CatalogLinker
