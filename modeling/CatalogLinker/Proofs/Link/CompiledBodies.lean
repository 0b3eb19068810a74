import CatalogLinker.Proofs.FunctionBody.Agreement
import CatalogLinker.Proofs.Link.CompiledSection

namespace CatalogLinker

open Text FunctionHeader FunctionBody

namespace Link

def content (s : List Char) : List Char :=
  s.filter fun c => !isBlank c

def Closes (inner s : List Char) : Prop :=
  ∃ gap gap', s = inner ++ gap ++ '}' :: gap' ∧ ∀ c ∈ gap ++ gap', isBlank c

/-- A text that is emitted for a function starts at its head, and differs from the function in white
space around the closing brace only. -/
structure Keeps (head rest emitted : List Char) : Prop where
  begins : head <+: emitted
  content_eq : content emitted = content (head ++ rest)
  closing : ∃ inner, Closes inner (head ++ rest) ∧ Closes inner emitted

/-- If there are several lines, the last one has nothing but a brace. -/
def ClosesAlone (s : List Char) : Prop :=
  ∀ before last, s = before ++ '\n' :: last → '\n' ∉ last → Closes [] last

variable {s t b m a rest name inner before last : List Char} {text : String}

@[simp] theorem content_append (s t : List Char) : content (s ++ t) = content s ++ content t :=
  List.filter_append s t

theorem content_of_blank (h : ∀ c ∈ s, isBlank c) : content s = [] :=
  List.filter_eq_nil_iff.2 fun c hc => by simp [h c hc]

theorem Closes.content_eq (h : Closes inner s) : content s = content inner ++ ['}'] := by
  obtain ⟨gap, gap', rfl, hgap⟩ := h
  obtain ⟨hg, hg'⟩ := List.forall_mem_append.1 hgap
  have hcons : '}' :: gap' = ['}'] ++ gap' := rfl
  rw [hcons, content_append, content_append, content_append, content_of_blank hg,
    content_of_blank hg', List.append_nil, List.append_nil]
  rfl

theorem closes_nil_of_content_eq (h : content s = ['}']) : Closes [] s := by
  obtain ⟨gap, gap', rfl, hgap, -, hgap'⟩ := List.filter_eq_cons_iff.1 h
  refine ⟨gap, gap', rfl, List.forall_mem_append.2 ⟨fun c hc => ?_, fun c hc => ?_⟩⟩
  · simpa using hgap c hc
  · simpa using List.filter_eq_nil_iff.1 hgap' c hc

theorem Closes.of_last (h : Closes [] last) : Closes inner (inner ++ '\n' :: last) := by
  obtain ⟨gap, gap', rfl, hgap⟩ := h
  exact ⟨'\n' :: gap, gap', by simp, List.forall_mem_cons.2 ⟨rfl, hgap⟩⟩

theorem Closes.exists_of_append (h : Closes inner (t ++ s)) (hs : ∃ c ∈ s, ¬isBlank c) :
    ∃ inner', Closes inner' s := by
  obtain ⟨gap, gap', heq, hgap⟩ := h
  obtain ⟨hg, hg'⟩ := List.forall_mem_append.1 hgap
  obtain ⟨d, -, hd⟩ | ⟨d, -, hd⟩ := List.append_eq_append_iff.1 heq
  · exact ⟨d, [], gap', by rw [List.append_nil, hd], hg'⟩
  · cases d with
    | nil => exact ⟨[], [], gap', hd.symm, hg'⟩
    | cons c d =>
      obtain ⟨c', hc', hblank⟩ := hs
      have hmem : c' ∈ gap' := by
        rw [(List.cons.inj hd).2]
        exact List.mem_append_right d hc'
      exact absurd (hg' c' hmem) hblank

theorem closeAtMargin_of_not_mem (h : '\n' ∉ s) : closeAtMargin s = s := by
  have hnil : s.reverse.dropWhile (· ≠ '\n') = [] := by
    rw [List.dropWhile_eq_nil_iff]
    intro c hc
    have hn : c ≠ '\n' := fun hn => h (hn ▸ List.mem_reverse.1 hc)
    simpa using hn
  rw [closeAtMargin, hnil]

theorem closeAtMargin_append (h : '\n' ∉ last) :
    closeAtMargin (before ++ '\n' :: last) = before ++ ['\n', '}'] := by
  have hdrop : (before ++ '\n' :: last).reverse.dropWhile (· ≠ '\n') = '\n' :: before.reverse := by
    rw [List.reverse_append, List.reverse_cons, List.append_assoc, List.singleton_append]
    exact dropWhile_ne_append (by simpa using h)
  rw [closeAtMargin, hdrop]
  simp

theorem exists_last_line (h : '\n' ∈ s) :
    ∃ before last, s = before ++ '\n' :: last ∧ '\n' ∉ last := by
  obtain ⟨last, before, hs, hlast⟩ := List.eq_append_cons_of_mem (List.mem_reverse.2 h)
  refine ⟨before.reverse, last.reverse, ?_, by simpa using hlast⟩
  simpa using congrArg List.reverse hs

theorem closesAlone_iff (h : '\n' ∉ last) :
    ClosesAlone (before ++ '\n' :: last) ↔ Closes [] last := by
  refine ⟨fun hs => hs before last rfl h, fun hs before' last' heq h' => ?_⟩
  have hrev : last.reverse ++ '\n' :: before.reverse =
      last'.reverse ++ '\n' :: before'.reverse := by
    simpa using congrArg List.reverse heq
  have hlast := (cut_inj hrev (by simpa using h) (by simpa using h')).1
  rwa [List.reverse_injective hlast] at hs

theorem prefix_of_closeAtMargin (h : t <+: closeAtMargin s) (ht : '\n' ∉ t) : t <+: s := by
  by_cases hs : '\n' ∈ s
  · obtain ⟨before, last, rfl, hlast⟩ := exists_last_line hs
    rw [closeAtMargin_append hlast] at h
    have hbefore : t <+: before := by
      obtain ⟨r, hr⟩ := h
      obtain ⟨d, rfl, -⟩ | ⟨d, rfl, hd⟩ := List.append_eq_append_iff.1 hr
      · exact List.prefix_append t d
      · cases d with
        | nil => simp
        | cons c d =>
          obtain rfl : '\n' = c := (List.cons.inj hd).1
          exact absurd (List.mem_append_right before List.mem_cons_self) ht
    exact hbefore.trans (List.prefix_append _ _)
  · rwa [closeAtMargin_of_not_mem hs] at h

theorem toList_compiledBody (h : text.toList = b ++ 'f' :: s) (hb : 'f' ∉ b) :
    (compiledBody text).toList = closeAtMargin ('f' :: s) := by
  have hcontains : text.toList.contains 'f' := by simp [h]
  have hdrop : text.toList.dropWhile (· ≠ 'f') = 'f' :: s := by
    rw [h]
    exact dropWhile_ne_append hb
  simp only [compiledBody, String.toList_ofList, hcontains, ↓reduceIte, hdrop]

theorem newline_not_mem_header (hname : ∀ c ∈ name, isNameChar c) : '\n' ∉ header name := by
  have hkeyword : '\n' ∉ keyword := by decide
  have hn : '\n' ∉ name := mt (hname '\n') (by decide)
  simp [header, hkeyword, hn]

/-- A function that is emitted from its header on has no letter `f` in front of it: from an earlier
one on, the text would go on with a keyword, and that one would have been named. -/
theorem not_mem_of_prefix (hf : FirstHeader s b m a) (hname : ∀ c ∈ name, isNameChar c)
    (htext : text.toList = named b name rest)
    (hbegins : header name <+: (compiledBody text).toList) : 'f' ∉ b := by
  intro hmem
  obtain ⟨b₁, b₂, rfl, hb₁⟩ := List.eq_append_cons_of_mem hmem
  have hcut : text.toList = b₁ ++ 'f' :: (b₂ ++ header name ++ rest) := by
    rw [htext, named, List.append_assoc b₁, List.append_assoc b₁]
    rfl
  rw [toList_compiledBody hcut hb₁] at hbegins
  obtain ⟨r, hr⟩ := prefix_of_closeAtMargin hbegins (newline_not_mem_header hname)
  have heq : [] ++ keyword ++ (' ' :: name ++ '(' :: r) =
      'f' :: b₂ ++ keyword ++ (' ' :: name ++ '(' :: rest) := by
    simpa [header] using hr
  obtain ⟨z, hz, hzrest⟩ := exists_apart heq (by simp)
  cases z with
  | nil => exact absurd (List.cons.inj hzrest).1 (by decide)
  | cons c z =>
    obtain rfl : ' ' = c := (List.cons.inj hzrest).1
    have hearlier : named (b₁ ++ 'f' :: b₂) name a =
        b₁ ++ keyword ++ (' ' :: z ++ header name ++ a) := by
      rw [hz, named]
      simp
    have hlength := hf.length_le hearlier rfl
    simp only [List.length_append, List.length_cons] at hlength
    omega

theorem compiledBody_of_not_mem (htext : text.toList = named b name rest) (hb : 'f' ∉ b) :
    (compiledBody text).toList = closeAtMargin (header name ++ rest) := by
  obtain ⟨tail, htail⟩ : ∃ tail, header name = 'f' :: tail := ⟨_, rfl⟩
  rw [htail, List.cons_append]
  refine toList_compiledBody ?_ hb
  rw [htext, named, htail, List.append_assoc, List.cons_append]

/-- A function is kept exactly if it is emitted from its header on and nothing but its closing brace
is on its last line. -/
theorem keeps_iff (hf : FirstHeader s b m a) (hname : ∀ c ∈ name, isNameChar c)
    (htext : text.toList = named b name rest) (hend : ∃ inner, Closes inner text.toList) :
    Keeps (header name) rest (compiledBody text).toList ↔ 'f' ∉ b ∧ ClosesAlone rest := by
  constructor
  · intro h
    have hb := not_mem_of_prefix hf hname htext h.begins
    refine ⟨hb, fun before last hrest hlast => closes_nil_of_content_eq ?_⟩
    have hcontent := h.content_eq
    rw [compiledBody_of_not_mem htext hb, hrest, ← List.append_assoc, closeAtMargin_append hlast,
      content_append, content_append (header name ++ before),
      List.append_cancel_left_eq] at hcontent
    exact hcontent.symm
  · rintro ⟨hb, halone⟩
    rw [compiledBody_of_not_mem htext hb]
    by_cases hrest : '\n' ∈ rest
    · obtain ⟨before, last, rfl, hlast⟩ := exists_last_line hrest
      rw [← List.append_assoc, closeAtMargin_append hlast]
      have hclosed : Closes (header name ++ before) (header name ++ before ++ '\n' :: last) :=
        (halone before last rfl hlast).of_last
      have hmargin : Closes (header name ++ before) (header name ++ before ++ ['\n', '}']) :=
        Closes.of_last ⟨[], [], rfl, by simp⟩
      rw [List.append_assoc] at hclosed
      refine ⟨?_, hmargin.content_eq.trans hclosed.content_eq.symm, _, hclosed, hmargin⟩
      rw [List.append_assoc]
      exact List.prefix_append _ _
    · have hline : '\n' ∉ header name ++ rest := by
        simpa [newline_not_mem_header hname] using hrest
      rw [closeAtMargin_of_not_mem hline]
      rw [htext, named, List.append_assoc] at hend
      obtain ⟨inner, hinner⟩ := hend
      obtain ⟨inner', hclosed⟩ := hinner.exists_of_append ⟨'f', List.mem_cons_self, by decide⟩
      exact ⟨List.prefix_append _ _, rfl, inner', hclosed, hclosed⟩

theorem exists_named_of_dispatches {index : Nat} {mode : ProxyMode} {h : FunctionHeader}
    (hd : ProxyTable.Dispatches index mode h text) :
    ∃ rest, text.toList = named h.before h.name rest := by
  obtain ⟨x, y, hxy⟩ : ∃ x y, text.toList =
    h.before ++ "function ".toList ++ h.name ++ '(' :: h.params ++ x ++ y ++ h.after := ⟨_, _, hd⟩
  have hkeyword : "function ".toList = keyword ++ [' '] := rfl
  refine ⟨h.params ++ x ++ y ++ h.after, ?_⟩
  rw [hxy, hkeyword, named_eq]
  simp only [List.append_assoc, List.cons_append, List.nil_append]

/-- A dispatch leaves the header that a body was named at, and what stands in front of it. -/
theorem exists_named_of_proxy {t t' : ProxyTable} {mode : ProxyMode} {n : Name} {own : String}
    (hf : FirstHeader s b m a) (hname : ∀ c ∈ n.text.toList, isNameChar c)
    (hown : own.toList = named b n.text.toList a) (hp : t.proxy n own mode = .ok (text, t')) :
    ∃ rest, text.toList = named b n.text.toList rest := by
  obtain ⟨h, hcuts, rfl⟩ := ProxyTable.exists_cuts_of_proxy hp
  obtain ⟨rest, hrest⟩ := exists_named_of_dispatches (ProxyTable.dispatches_inject _ _ _)
  rw [hown] at hcuts
  cases hf.meets hname hcuts with
  | same _ hb hn _ _ _ => exact ⟨rest, by rw [hrest, hb, hn]⟩
  | @behind z _ hz =>
    refine ⟨z ++ header h.name ++ rest, ?_⟩
    rw [hrest, named, hz, named_eq]
    simp only [List.append_assoc, List.cons_append]

end Link

theorem Plan.exists_prepared {p : Plan} {i : Ident} {own sig : String}
    (hs : p.compiledSig? i = some sig) (ho : p.ownText i = .ok (some own)) :
    ∃ code, p.entry? i = some (.body code) ∧ FunctionBody.prepare i i.finalName code = .ok own := by
  rw [compiledSig?] at hs
  split at hs
  · rename_i hcond
    simp only [isFunction, Bool.and_eq_true] at hcond
    obtain ⟨⟨hfunction, -⟩, hcompiled⟩ := hcond
    split at hfunction
    · rename_i code hentry
      refine ⟨code, hentry, ?_⟩
      rw [ownText, hentry] at ho
      obtain ⟨text, htext, heq⟩ := map_ok ho
      obtain rfl := Option.some.inj heq
      simpa [functionText, hcompiled] using htext
    · simp at hfunction
  · simp at hs

theorem Fills.exists_moves {p : Plan} {bodies sigs : List (Name × String)} (h : Fills p bodies sigs)
    {x : Name × String} (hx : x ∈ bodies) : ∃ y, Moves p x y := by
  have hmoves := h.moves
  clear h
  induction hmoves with
  | nil => simp at hx
  | cons hm _ ih =>
    obtain rfl | hx := List.mem_cons.1 hx
    · exact ⟨_, hm⟩
    · exact ih hx

theorem Moves.exists_named {p : Plan} {n : Name} {text : String} {y : Name × String}
    (h : Moves p (n, text) y) (hname : ∀ c ∈ n.text.toList, isNameChar c) :
    ∃ i code own t t' before between after rest, i.finalName = n ∧
      p.entry? i = some (.body code) ∧ prepare i n code = .ok own ∧
      Session.proxied p i own t = (t', .ok text) ∧
      FirstHeader (unixLines code.toList) before between after ∧
      text.toList = named before n.text.toList rest := by
  cases h with
  | @function i own _ sig t t' ho hp hs =>
    obtain ⟨code, hentry, hprepare⟩ := Plan.exists_prepared hs ho
    obtain ⟨-, b, m, a, hf, hown⟩ := prepare_eq_ok_iff.1 hprepare
    obtain ⟨rest, hrest⟩ : ∃ rest, text.toList = named b i.finalName.text.toList rest := by
      obtain ⟨-, rfl, -⟩ | ⟨c, hc, hproxy⟩ := Session.call_of_proxied ho hp
      · exact ⟨a, hown⟩
      · obtain ⟨hn, hbody, -⟩ := hc
        obtain rfl : own = c.body := by simpa [ho] using hbody
        rw [hn] at hproxy
        have hok := ProxyTable.proxy_eq_ok_iff_rewrite.2 hproxy
        exact Link.exists_named_of_proxy hf hname hown hok
    exact ⟨i, code, own, t, t', b, m, a, rest, rfl, hentry, hprepare, hp, hf, hrest⟩

/-- A function of the compiled section that ends in a brace is emitted with its content, from the
header on that it was named at, exactly if no letter `f` stands in front of the header and nothing
but the brace is on the last of several lines. -/
theorem compiled_bodies_kept_iff {catalog : Catalog} {config : Config} {program : Program}
    {shell : Shell} {out : Output} (h : link catalog config program shell = .ok out) :
    ∃ main globals : Session,
      Session.requestAll ⟨catalog, config⟩
        { link := .ofLists program.compiled config.exportedNames }
        (program.requests ++ Link.defaultRequests ⟨catalog, config⟩) = (main, .ok ()) ∧
      Session.requestAll ⟨catalog, config⟩ { link := main.link } program.globals =
        (globals, .ok ()) ∧
      (∃ declarations statements memory, out.text = Link.lines [shell.preamble, declarations,
        statements, memory,
        Link.lines (Link.compiledSection ((globals.pass.moved ++ main.pass.moved).map Prod.snd)),
        shell.postamble]) ∧
      ∀ n text, (n, text) ∈ globals.pass.moved ++ main.pass.moved →
        (∀ c ∈ n.text.toList, isNameChar c) → (∃ inner, Link.Closes inner text.toList) →
        ∃ i code own t t' before between after rest, i.finalName = n ∧
          Plan.entry? ⟨catalog, config⟩ i = some (.body code) ∧ prepare i n code = .ok own ∧
          Session.proxied ⟨catalog, config⟩ i own t = (t', .ok text) ∧
          FirstHeader (unixLines code.toList) before between after ∧
          text.toList = named before n.text.toList rest ∧
          (Link.Keeps (header n.text.toList) rest (Link.compiledBody text).toList ↔
            'f' ∉ before ∧ Link.ClosesAlone rest) := by
  obtain ⟨main, globals, hm, hg, ht, -, -⟩ := link_passes h
  obtain ⟨ps, -, htext⟩ := Link.assemble_ok ht
  rw [Link.sections_eq, Pass.bodies_eq, Pass.bodies_eq, ← List.map_append] at htext
  refine ⟨main, globals, hm, hg, ⟨_, _, _, htext⟩, fun n text hmoved hname hend => ?_⟩
  have hfills := (reaches_of_passes hm hg).fills
  have hmem : (n, text) ∈ Progress.moved ⟨[main.pass], globals⟩ := by
    simpa [Progress.moved, or_comm] using hmoved
  obtain ⟨y, hy⟩ := hfills.exists_moves hmem
  obtain ⟨i, code, own, t, t', b, m, a, rest, hi, hentry, hprepare, hp, hf, hrest⟩ :=
    hy.exists_named hname
  exact ⟨i, code, own, t, t', b, m, a, rest, hi, hentry, hprepare, hp, hf, hrest,
    Link.keeps_iff hf hname hrest hend⟩

theorem split_of_named {s b name rest : List Char} (h : s = named b name rest) (k : ℕ)
    (hk : ∀ j ≤ s.length, header name <+: s.drop j → j = k) :
    b = s.take k ∧ rest = s.drop (k + (header name).length) := by
  have hb : b.length = k := by
    refine hk b.length (by simp [h, named]) ?_
    rw [h, named, List.append_assoc, List.drop_left]
    exact List.prefix_append _ _
  rw [h, named, ← hb, ← List.length_append, List.drop_left, List.append_assoc, List.take_left]
  exact ⟨rfl, rfl⟩

def indented : Catalog where
  items := [(⟨"K"⟩, {
    entry := some (.body "  function() \x7b\n  g();\n  \x7d")
    sig := some "v"
    inCompiledSection := true })]
  order := [⟨"K"⟩]

def asking : Program where
  requests := [⟨⟨"K"⟩, none, none⟩]

theorem indented_kept :
    ∃ (out : Output) (main globals : Session) (text : String),
      link indented {} asking {} = .ok out ∧
      globals.pass.moved ++ main.pass.moved = [(⟨"_K"⟩, text)] ∧
      Link.compiledBody text = "function _K() \x7b\n  g();\n\x7d" ∧
      ∃ rest, text.toList = named "  ".toList "_K".toList rest ∧
        Link.Keeps (header "_K".toList) rest (Link.compiledBody text).toList := by
  obtain ⟨out, h, -⟩ : ∃ out, link indented {} asking {} = .ok out ∧
      out.compiledSigs = [(⟨"_K"⟩, "v")] := exists_ok (by decide +kernel)
  obtain ⟨main, globals, hm, hg, -, hkept⟩ := compiled_bodies_kept_iff h
  have hmoved : globals.pass.moved ++ main.pass.moved =
      [(⟨"_K"⟩, "  function _K() \x7b\n  g();\n  \x7d")] := by
    obtain rfl := congrArg Prod.fst hm
    obtain rfl := congrArg Prod.fst hg
    decide +kernel
  refine ⟨out, main, globals, _, h, hmoved, by decide +kernel, ?_⟩
  have hends : Link.Closes "  function _K() \x7b\n  g();".toList
      "  function _K() \x7b\n  g();\n  \x7d".toList :=
    ⟨"\n  ".toList, [], by decide +kernel, List.all_eq_true.1 (by decide +kernel)⟩
  obtain ⟨_, _, _, _, _, b, m, a, rest, -, -, -, -, -, htext, hkeeps⟩ :=
    hkept _ _ (hmoved ▸ List.mem_singleton_self _) (List.all_eq_true.1 (by decide +kernel))
      ⟨_, hends⟩
  obtain ⟨rfl, rfl⟩ := split_of_named htext 2 (by decide +kernel)
  have halone : Link.ClosesAlone (") \x7b\n  g();".toList ++ '\n' :: "  \x7d".toList) :=
    (Link.closesAlone_iff (by decide)).2 ⟨"  ".toList, [], by decide, List.all_eq_true.1 (by decide)⟩
  exact ⟨_, htext, hkeeps.2 ⟨by decide +kernel, halone⟩⟩

def cramped : Catalog where
  items := [(⟨"K"⟩, {
    entry := some (.body "function() \x7b\n  g(); \x7d")
    sig := some "v"
    inCompiledSection := true })]
  order := [⟨"K"⟩]

/-- The call on the last line is lost. -/
theorem cramped_lost :
    ∃ (out : Output) (main globals : Session) (text : String),
      link cramped {} asking {} = .ok out ∧
      globals.pass.moved ++ main.pass.moved = [(⟨"_K"⟩, text)] ∧
      (∃ inner, Link.Closes inner text.toList) ∧
      Link.compiledSection ((globals.pass.moved ++ main.pass.moved).map Prod.snd) =
        ["// ASM_LIBRARY FUNCTIONS", "function _K() \x7b\n\x7d", "// EMSCRIPTEN_END_FUNCS"] ∧
      ∀ before rest, text.toList = named before "_K".toList rest →
        ¬Link.Keeps (header "_K".toList) rest (Link.compiledBody text).toList := by
  obtain ⟨out, h, -⟩ : ∃ out, link cramped {} asking {} = .ok out ∧
      out.compiledSigs = [(⟨"_K"⟩, "v")] := exists_ok (by decide +kernel)
  obtain ⟨main, globals, hm, hg, -, -⟩ := link_passes h
  have hmoved : globals.pass.moved ++ main.pass.moved =
      [(⟨"_K"⟩, "function _K() \x7b\n  g(); \x7d")] := by
    obtain rfl := congrArg Prod.fst hm
    obtain rfl := congrArg Prod.fst hg
    decide +kernel
  have hends : Link.Closes "function _K() \x7b\n  g();".toList
      "function _K() \x7b\n  g(); \x7d".toList :=
    ⟨[' '], [], by decide +kernel, List.all_eq_true.1 (by decide)⟩
  refine ⟨out, main, globals, _, h, hmoved, ⟨_, hends⟩, by rw [hmoved]; decide +kernel, ?_⟩
  intro before rest htext hkeeps
  obtain ⟨rfl, rfl⟩ := split_of_named htext 0 (by decide +kernel)
  exact absurd hkeeps.content_eq (by decide +kernel)

end CatalogLinker
