import CatalogLinker.Proofs.FunctionBody.Renaming
import CatalogLinker.Proofs.Proxy.Offsets
import CatalogLinker.Proofs.Proxy.Table

namespace CatalogLinker

namespace FunctionHeader

open Text FunctionBody

/-- The shortest prefix that is not empty and closes as many parentheses as it opens. -/
structure ShortestBalanced (s group : List Char) : Prop where
  ne_nil : group ≠ []
  isPrefix : group <+: s
  counts : group.count ')' = group.count '('
  shortest : ∀ t, t <+: s → t ≠ [] → t.count ')' = t.count '(' → group.length ≤ t.length

/-- The header of a text. Behind the first keyword that stands on its own follow white space, a name
that can be empty, white space again, a group of parentheses around the parameters, and a brace. -/
def Heads (h : FunctionHeader) (s : List Char) : Prop :=
  ∃ rest gap gap' group gap'', FirstKeyword s h.before rest ∧
    rest = gap ++ h.name ++ gap' ++ (group ++ (gap'' ++ '{' :: h.after)) ∧
    gap ≠ [] ∧ (∀ c ∈ gap, isBlank c) ∧ (∀ c ∈ gap', isBlank c) ∧ (∀ c ∈ gap'', isBlank c) ∧
    (∀ c ∈ h.name, isNameChar c) ∧ group.head? = some '(' ∧
    ShortestBalanced (group ++ (gap'' ++ '{' :: h.after)) group ∧
    h.params = trimWhere isBlank group.tail.dropLast

variable {s t u group params rest : List Char} {h k : FunctionHeader} {d index : Nat}
  {mode : ProxyMode}

theorem ShortestBalanced.unique {group' : List Char} (h : ShortestBalanced s group)
    (h' : ShortestBalanced s group') : group = group' := by
  have hle := h.shortest group' h'.isPrefix h'.ne_nil h'.counts
  have hge := h'.shortest group h.isPrefix h.ne_nil h.counts
  have hprefix := List.prefix_of_prefix_length_le h.isPrefix h'.isPrefix hle
  exact hprefix.eq_of_length (le_antisymm hle hge)

theorem isSome_closing? (ht : t <+: s) (hcount : t.count '(' + d < t.count ')') :
    (closing? (d + 1) s).isSome := by
  induction s generalizing t d with
  | nil =>
    rw [List.prefix_nil.1 ht] at hcount
    simp at hcount
  | cons c s ih =>
    obtain rfl | ⟨t, rfl, ht'⟩ := List.prefix_cons_iff.1 ht
    · simp at hcount
    · by_cases hclose : c = ')'
      · subst hclose
        cases d with
        | zero => simp [closing?]
        | succ d =>
          have hrest := ih (d := d) ht' (by simp at hcount; omega)
          simpa [closing?] using hrest
      · by_cases hopen : c = '('
        · subst hopen
          have hrest := ih (d := d + 1) ht' (by simp at hcount; omega)
          simpa [closing?] using hrest
        · have hrest := ih (d := d) ht' (by simpa [hclose, hopen] using hcount)
          simpa [closing?, hclose, hopen] using hrest

theorem shortestBalanced_of_balanced (h : Balanced params) :
    ShortestBalanced ('(' :: (params ++ ')' :: rest)) ('(' :: (params ++ [')'])) where
  ne_nil := List.cons_ne_nil _ _
  isPrefix := ⟨rest, by simp⟩
  counts := by simp [h.counts]
  shortest := by
    intro t ht hne hcount
    by_contra hlt
    have hwhole : '(' :: (params ++ ')' :: rest) = '(' :: params ++ ')' :: rest := rfl
    rw [hwhole] at ht
    have hle : t.length ≤ ('(' :: params).length := by
      simp at hlt ⊢
      omega
    obtain rfl | ⟨t, rfl, ht'⟩ := List.prefix_cons_iff.1
      (List.prefix_of_prefix_length_le ht (List.prefix_append _ _) hle)
    · exact hne rfl
    · have hinitial := h.initial t ht'
      simp at hcount
      omega

theorem shortestBalanced_iff : ShortestBalanced ('(' :: s) group ↔
    ∃ params rest, group = '(' :: (params ++ [')']) ∧ s = params ++ ')' :: rest ∧
      Balanced params := by
  constructor
  · intro h
    obtain hnil | ⟨g, rfl, hg⟩ := List.prefix_cons_iff.1 h.isPrefix
    · exact absurd hnil h.ne_nil
    · have hcount := h.counts
      have hsome := isSome_closing? (d := 0) hg (by simp at hcount; omega)
      obtain ⟨⟨params, rest⟩, hfound⟩ := Option.isSome_iff_exists.1 hsome
      obtain ⟨rfl, hbalanced⟩ := closes_zero_iff.1 (closing?_eq_some_iff.1 hfound)
      exact ⟨params, rest, h.unique (shortestBalanced_of_balanced hbalanced), rfl, hbalanced⟩
  · rintro ⟨params, rest, rfl, rfl, hbalanced⟩
    exact shortestBalanced_of_balanced hbalanced

/-- The white space in front of a name can be told from the one behind it even if there is no
name. -/
theorem heads_iff : h.Heads s ↔ h.Cuts s := by
  constructor
  · rintro ⟨rest, gap, gap', group, gap'', hkeyword, hrest, -, hgap, hgap', hgap'', hname, hopen,
      hgroup, hparams⟩
    obtain ⟨tail, rfl⟩ : ∃ tail, group = '(' :: tail :=
      ⟨group.tail, List.eq_cons_of_mem_head? hopen⟩
    obtain ⟨params, rest', heq, -, hbalanced⟩ := shortestBalanced_iff.1 hgroup
    obtain rfl := (List.cons.inj heq).2
    refine ⟨rest, gap, gap', params, gap'', hkeyword, ?_, hgap, hgap', hgap'', hname, hbalanced, ?_⟩
    · rw [hrest]
      simp
    · rw [hparams]
      simp
  · rintro ⟨rest, gap, gap', params, gap'', hkeyword, hrest, hgap, hgap', hgap'', hname, hbalanced,
      hparams⟩
    have hgroup : ShortestBalanced ('(' :: (params ++ [')']) ++ (gap'' ++ '{' :: h.after))
        ('(' :: (params ++ [')'])) :=
      shortestBalanced_iff.2 ⟨params, gap'' ++ '{' :: h.after, rfl, by simp, hbalanced⟩
    have hinner : h.params = trimWhere isBlank ('(' :: (params ++ [')'])).tail.dropLast := by
      rw [hparams]
      simp
    cases gap with
    | cons c gap =>
      exact ⟨rest, c :: gap, gap', _, gap'', hkeyword, by simp [hrest], List.cons_ne_nil _ _, hgap,
        hgap', hgap'', hname, rfl, hgroup, hinner⟩
    | nil =>
      have hblank := hkeyword.stands.2
      rw [hrest] at hblank
      cases hn : h.name with
      | cons a name =>
        have ha : isBlank a := by simpa [hn] using hblank
        exact absurd (hname a (hn ▸ List.mem_cons_self)) (not_isNameChar_of_isBlank ha)
      | nil =>
        cases gap' with
        | nil => exact absurd (show isBlank '(' = true by simpa [hn] using hblank) (by decide)
        | cons c gap' =>
          refine ⟨rest, c :: gap', [], _, gap'', hkeyword, ?_, List.cons_ne_nil _ _, hgap', hgap,
            hgap'', hname, rfl, hgroup, hinner⟩
          simp [hrest, hn]

theorem Heads.unique (h₁ : h.Heads s) (h₂ : k.Heads s) : h = k := by
  rw [heads_iff, ← find?_eq_some_iff] at h₁ h₂
  exact Option.some.inj (h₁.symm.trans h₂)

theorem count_eq_zero_of_isBlank {c : Char} (hc : ¬isBlank c) (hs : ∀ a ∈ s, isBlank a) :
    s.count c = 0 :=
  List.count_eq_zero.2 fun hmem => hc (hs c hmem)

theorem Balanced.trim (h : Balanced params) : Balanced (trimWhere isBlank params) := by
  obtain ⟨u, v, hu, hv, hs⟩ := exists_trimWhere isBlank params
  have hnone : ∀ t : List Char, (∀ c ∈ t, isBlank c) → t.count ')' = 0 ∧ t.count '(' = 0 :=
    fun t ht => ⟨count_eq_zero_of_isBlank (by decide) ht, count_eq_zero_of_isBlank (by decide) ht⟩
  constructor
  · have hcounts := h.counts
    rw [hs] at hcounts
    simpa [hnone u hu, hnone v hv] using hcounts
  · intro t ht
    have hle := h.initial (u ++ t) (by
      rw [hs, List.append_assoc]
      exact (List.prefix_append_right_inj u).2 (ht.trans (List.prefix_append _ _)))
    simpa [hnone u hu] using hle

/-- No keyword stands on its own in front of the first one, whatever follows that one. -/
theorem FirstKeyword.replace {b rest' : List Char} (h : FirstKeyword s b rest)
    (hrest' : rest'.head?.any isBlank) : FirstKeyword (b ++ keyword ++ rest') b rest' where
  eq := rfl
  stands := ⟨h.stands.1, hrest'⟩
  first := by
    intro x y hxy hstands
    by_contra hlt
    obtain ⟨z, rfl, rfl⟩ := exists_apart hxy.symm (by omega)
    have hs : s = x ++ keyword ++ (z ++ keyword ++ rest) := by
      rw [h.eq, ← List.append_assoc, ← List.append_assoc]
      rfl
    have hstands' : StandsBetween x (z ++ keyword ++ rest) := by
      refine ⟨hstands.1, ?_⟩
      cases z with
      | nil =>
        have hhead : ([] ++ keyword ++ rest').head? = some 'f' := rfl
        have hblank := hstands.2
        rw [hhead] at hblank
        exact absurd hblank (by decide)
      | cons c z => simpa using hstands.2
    exact hlt (h.first x _ hs hstands')

def proxied (index : Nat) (mode : ProxyMode) (h : FunctionHeader) : FunctionHeader :=
  { h with after := '\n' :: ProxyTable.dispatch index mode h.params ++ h.after }

theorem Cuts.proxied (hc : h.Cuts s) :
    (h.proxied index mode).Cuts (ProxyTable.inject index mode h) := by
  obtain ⟨rest, gap, gap', params, gap'', hkeyword, -, -, -, -, hname, hbalanced, hparams⟩ := hc
  have hspace : ∀ c ∈ [' '], isBlank c := List.all_eq_true.1 (by decide)
  refine ⟨[' '] ++ h.name ++ [] ++ '(' :: (h.params ++ ')' :: ([' '] ++ '{' ::
    (h.proxied index mode).after)), [' '], [], h.params, [' '], ?_, rfl, hspace, by simp, hspace,
    hname, hparams ▸ hbalanced.trim, ?_⟩
  · have htext : ProxyTable.inject index mode h = h.before ++ keyword ++ ([' '] ++ h.name ++ [] ++
        '(' :: (h.params ++ ')' :: ([' '] ++ '{' :: (h.proxied index mode).after))) := by
      have hword : "function ".toList = keyword ++ [' '] := by decide
      have hbrace : ") \x7b\n".toList = [')', ' ', '{', '\n'] := by decide
      simp only [ProxyTable.inject, FunctionHeader.proxied, hword, hbrace, List.append_assoc,
        List.cons_append, List.nil_append]
    rw [htext]
    exact hkeyword.replace (by simp [isBlank])
  · exact (hparams ▸ trimWhere_eq_self (isTrimmed_trimWhere isBlank params)).symm

end FunctionHeader

namespace ProxyTable

open FunctionHeader

variable {t t' : ProxyTable} {n : Name} {body text : String} {mode : ProxyMode} {h : FunctionHeader}
  {index : Nat}

theorem dispatches_iff :
    Dispatches index mode h text ↔ text = String.ofList (inject index mode h) := by
  constructor
  · intro hd
    exact String.toList_inj.1 (hd.trans (dispatches_inject index mode h).symm)
  · rintro rfl
    exact dispatches_inject index mode h

theorem proxy_eq_ok_iff : t.proxy n body mode = .ok (text, t') ↔
    ∃ h : FunctionHeader, h.Heads body.toList ∧ Dispatches t.nextIndex mode h text ∧
      t' = t.push n := by
  simp only [heads_iff, ← find?_eq_some_iff, dispatches_iff]
  rw [proxy_eq_ok_iff_rewrite, rewrite]
  cases find? body.toList with
  | none => simp
  | some h => simp [eq_comm, and_comm]

/-- A function becomes proxied if and only if its body has a header behind its first keyword. The
text is then cut at this header only, and has the same header. No slice of the search is out of
range. -/
theorem proxy_at_header (t : ProxyTable) (n : Name) (body : String) (mode : ProxyMode) :
    (∀ text t', t.proxy n body mode = .ok (text, t') ↔
      ∃ h : FunctionHeader, h.Heads body.toList ∧ Dispatches t.nextIndex mode h text ∧
        t' = t.push n) ∧
    ((∀ h : FunctionHeader, ¬h.Heads body.toList) →
      t.proxy n body mode = .error (.malformedBody n.text .proxyEntry)) ∧
    (∀ (h : FunctionHeader) text, h.Heads body.toList → Dispatches t.nextIndex mode h text →
      ∃ after, ∀ k : FunctionHeader,
        k.Heads text.toList ↔ k = ⟨h.before, h.name, h.params, after⟩) ∧
    ∃ found, findBySlices? body.toList = some found ∧
      ∀ h, found = some h ↔ h.Heads body.toList := by
  refine ⟨fun _ _ => proxy_eq_ok_iff, fun hno => ?_, fun h text hh hd => ?_, _, findBySlices?_eq _,
    fun h => ?_⟩
  · exact proxy_of_not_cuts (c := ⟨n, body, mode⟩) fun h hc => hno h (heads_iff.2 hc)
  · have hagain : (h.proxied t.nextIndex mode).Heads text.toList := by
      rw [dispatches_iff.1 hd, String.toList_ofList]
      exact heads_iff.2 (heads_iff.1 hh).proxied
    refine ⟨(h.proxied t.nextIndex mode).after, fun k => ⟨fun hk => hk.unique hagain, ?_⟩⟩
    rintro rfl
    exact hagain
  · rw [find?_eq_some_iff, heads_iff]

/-- A body with a keyword inside of a word, a default value and a function inside. -/
def nestedBody : String :=
  "/* functionality */ function _f(é = g(1) ) \x7b return function (x) \x7b\x7d; \x7d"

def unclosedBody : String :=
  "function _f(a \x7b return function (x) \x7b\x7d; \x7d"

theorem nested_proxied :
    (∃ text t', proxy {} ⟨"_f"⟩ nestedBody .sync = .ok (text, t') ∧ t'.names = [⟨"_f"⟩] ∧
      ∃ after, FunctionHeader.Heads ⟨"/* functionality */ ".toList, "_f".toList, "é = g(1)".toList,
        after⟩ text.toList) ∧
    proxy {} ⟨"_f"⟩ unclosedBody .sync = .error (.malformedBody "_f" .proxyEntry) := by
  constructor
  · obtain ⟨hok, -, hagain, -⟩ := proxy_at_header {} ⟨"_f"⟩ nestedBody .sync
    have hh : FunctionHeader.Heads ⟨"/* functionality */ ".toList, "_f".toList, "é = g(1)".toList,
        " return function (x) \x7b\x7d; \x7d".toList⟩ nestedBody.toList :=
      heads_iff.2 (find?_eq_some_iff.1 (by decide +kernel))
    obtain ⟨after, hk⟩ := hagain _ _ hh (dispatches_inject _ _ _)
    exact ⟨_, _, (hok _ _).2 ⟨_, hh, dispatches_inject _ _ _, rfl⟩, rfl, after, (hk _).2 rfl⟩
  · obtain ⟨-, hfails, -⟩ := proxy_at_header {} ⟨"_f"⟩ unclosedBody .sync
    refine hfails fun h hh => ?_
    have hfind : find? unclosedBody.toList = none := by decide +kernel
    rw [heads_iff, ← find?_eq_some_iff, hfind] at hh
    simp at hh

end ProxyTable

end CatalogLinker
