import CatalogLinker.Proofs.FunctionBody.Renaming
import CatalogLinker.Proofs.Outcome
import CatalogLinker.Proofs.Proxy.Table

namespace CatalogLinker.FunctionBody

open Text FunctionHeader

variable {s b m a name x y : List Char} {c : Char}

theorem exists_headerAt (hs : s = x ++ keyword ++ y) (hy : y.head?.any isBlank) (hp : '(' ∈ y) :
    ∃ m a, HeaderAt s x m a := by
  obtain ⟨m, a, rfl, hm⟩ := List.eq_append_cons_of_mem hp
  refine ⟨m, a, by rw [hs, List.append_assoc _ m], hm, ?_⟩
  cases m with
  | nil => rfl
  | cons c m => simpa using hy

theorem FirstHeader.length_le (hf : FirstHeader s b m a) (h : named b name a = x ++ keyword ++ y)
    (hy : y.head?.any isBlank) : b.length ≤ x.length := by
  by_contra hlt
  rw [named_eq, eq_comm] at h
  obtain ⟨z, rfl, rfl⟩ := exists_apart h (by omega)
  cases z with
  | nil => exact absurd (show isBlank 'f' = true from hy) (by decide)
  | cons c z =>
    have hs : s = x ++ keyword ++ (c :: z ++ keyword ++ (m ++ '(' :: a)) := by
      simp only [hf.eq', List.append_assoc]
    obtain ⟨m', a', h'⟩ := exists_headerAt hs (by simpa using hy) (by simp)
    exact hlt (hf.first x m' a' h')

theorem not_mem_name (hname : ∀ c ∈ name, isNameChar c) : '(' ∉ ' ' :: name := by
  rw [List.mem_cons, not_or]
  exact ⟨by decide, mt (hname '(') (by decide)⟩

inductive Meets (b name a : List Char) (h : FunctionHeader) : Prop
  | same {params gap : List Char} : ¬b.getLast?.any isNameChar → h.before = b → h.name = name →
      a = params ++ ')' :: (gap ++ '{' :: h.after) → h.params = trimWhere isBlank params →
      (∀ c ∈ gap, isBlank c) → Meets b name a h
  | behind {z : List Char} : b.getLast?.any isNameChar →
      h.before = b ++ keyword ++ (' ' :: name ++ '(' :: z) → Meets b name a h

theorem filter_isNameChar (hx : ∀ c ∈ x, isBlank c) (hname : ∀ c ∈ name, isNameChar c)
    (hy : ∀ c ∈ y, isBlank c) : (x ++ name ++ y).filter isNameChar = name := by
  have hnone : ∀ t : List Char, (∀ c ∈ t, isBlank c) → t.filter isNameChar = [] := fun t ht =>
    List.filter_eq_nil_iff.2 fun c hc => not_isNameChar_of_isBlank (ht c hc)
  rw [List.filter_append, List.filter_append, hnone x hx, hnone y hy, List.filter_eq_self.2 hname,
    List.nil_append, List.append_nil]

/-- No keyword that white space follows stands within a name and the parenthesis behind it. -/
theorem mem_of_keyword_behind (hname : ∀ c ∈ name, isNameChar c)
    (h : ' ' :: name ++ '(' :: a = x ++ keyword ++ y) (hy : y.head?.any isBlank) (hp : '(' ∈ y) :
    '(' ∈ x := by
  by_contra hx
  obtain ⟨r, r', rfl, hr⟩ := List.eq_append_cons_of_mem hp
  have hclosed : '(' ∉ x ++ keyword ++ r := by
    simp only [List.mem_append, not_or]
    exact ⟨⟨hx, by decide⟩, hr⟩
  rw [← List.append_assoc] at h
  have hcut := (cut_inj h (not_mem_name hname) hclosed).1
  cases r with
  | nil => exact absurd (show isBlank '(' = true from hy) (by decide)
  | cons c r =>
    cases x with
    | nil => exact absurd (List.cons.inj hcut).1 (by decide)
    | cons c' x =>
      have hc : c ∈ name := by
        rw [(List.cons.inj hcut).2]
        exact List.mem_append_right _ List.mem_cons_self
      exact not_isNameChar_of_isBlank (show isBlank c = true from hy) (hname c hc)

theorem FirstHeader.meets (hf : FirstHeader s b m a) (hname : ∀ c ∈ name, isNameChar c)
    {h : FunctionHeader} (hc : h.Cuts (named b name a)) : Meets b name a h := by
  obtain ⟨rest, gap, gap', params, gap'', hkeyword, hrest, hgap, hgap', hgap'', hword, -, hparams⟩ :=
    hc
  have heq : b ++ keyword ++ (' ' :: name ++ '(' :: a) = h.before ++ keyword ++ rest :=
    (named_eq b name a).symm.trans hkeyword.eq
  have hle := hf.length_le hkeyword.eq hkeyword.stands.2
  have hopen := not_mem_name hname
  have hsame (hlen : b.length = h.before.length) :
      h.before = b ∧ rest = ' ' :: name ++ '(' :: a := by
    rw [List.append_assoc, List.append_assoc h.before] at heq
    obtain ⟨hb, hr⟩ := List.append_inj heq hlen
    exact ⟨hb.symm, (List.append_cancel_left hr).symm⟩
  by_cases hend : b.getLast?.any isNameChar
  · have hlt : b.length < h.before.length := by
      refine lt_of_le_of_ne hle fun hlen => hkeyword.stands.1 ?_
      rwa [(hsame hlen).1]
    obtain ⟨z, hz, hzrest⟩ := exists_apart heq hlt
    have hmem : '(' ∈ z :=
      mem_of_keyword_behind hname hzrest hkeyword.stands.2 (by rw [hrest]; simp)
    obtain ⟨z₁, z₂, rfl, hz₁⟩ := List.eq_append_cons_of_mem hmem
    simp only [List.append_assoc] at hzrest
    obtain ⟨rfl, -⟩ := cut_inj (t := ' ' :: name) hzrest hopen hz₁
    exact .behind hend hz
  · have hge := hkeyword.first b (' ' :: name ++ '(' :: a) (named_eq b name a) ⟨hend, rfl⟩
    obtain ⟨hb, hr⟩ := hsame (le_antisymm hle hge)
    have hclosed : '(' ∉ gap ++ h.name ++ gap' := by
      simp only [List.mem_append, not_or]
      exact ⟨⟨mt (hgap _) (by decide), mt (hword _) (by decide)⟩, mt (hgap' _) (by decide)⟩
    obtain ⟨hcut, ha⟩ := cut_inj (hr.symm.trans hrest) hopen hclosed
    have hn : h.name = name := by
      have hspace : ∀ c ∈ [' '], isBlank c := List.all_eq_true.1 (by decide)
      rw [← filter_isNameChar hgap hword hgap', ← hcut]
      simpa using filter_isNameChar hspace hname (y := []) (by simp)
    exact .same hend hb hn ha hparams hgap''

theorem braced?_eq_some_iff {head inner : List Char} :
    braced? s = some (head, inner) ↔
      '{' ∉ head ∧ ∃ gap, s = head ++ '{' :: (inner ++ '}' :: gap) ∧ ∀ c ∈ gap, isBlank c := by
  simp only [braced?, Option.bind_eq_some_iff, Option.map_eq_some_iff, before?_eq_some_iff,
    Prod.exists, Prod.mk.injEq, cutAt?_eq_some_iff]
  constructor
  · rintro ⟨_, rest, ⟨rfl, hhead⟩, _, hinner, rfl, rfl⟩
    obtain ⟨gap, hgap, hrest⟩ := exists_trimEndWhere isBlank rest
    refine ⟨hhead, gap, ?_, hgap⟩
    rw [hrest, hinner]
    simp
  · rintro ⟨hhead, gap, rfl, hgap⟩
    refine ⟨head, inner ++ '}' :: gap, ⟨rfl, hhead⟩, inner, ?_, rfl, rfl⟩
    have htrim := trimEndWhere_append (t := inner ++ ['}']) hgap (by simp [isBlank])
    simpa using htrim

/-- A text whose calls are traced: `head` is left as it is, and the wrapper opens where the brace
behind it was. -/
def Wraps (n : Name) (text : String) (head : List Char) (wrapped : String) : Prop :=
  ∃ inner, braced? text.toList = some (head, inner) ∧
    wrapped = String.ofList head ++ traceStart n ++ String.ofList inner ++ traceEnd

variable {i : Ident} {n : Name} {code text out wrapped : String}

theorem traced_eq_ok_iff : traced i n text = .ok wrapped ↔ ∃ head, Wraps n text head wrapped := by
  simp only [Wraps, traced]
  cases hb : braced? text.toList with
  | none => simp
  | some cut =>
    obtain ⟨head, inner⟩ := cut
    constructor
    · intro h
      exact ⟨head, inner, rfl, (Except.ok.inj h).symm⟩
    · rintro ⟨_, _, heq, rfl⟩
      obtain ⟨rfl, rfl⟩ := Prod.mk.inj (Option.some.inj heq)
      rfl

theorem mem_trimWhere_iff (hc : ¬isBlank c) : c ∈ trimWhere isBlank s ↔ c ∈ s := by
  obtain ⟨u, hu, hs⟩ := exists_dropWhile isBlank s
  obtain ⟨v, hv, hd⟩ := exists_trimEndWhere isBlank (s.dropWhile isBlank)
  conv => rhs; rw [hs, hd]
  simp [trimWhere, mt (hu c) hc, mt (hv c) hc]

theorem Wraps.opens_iff {pre after head : List Char} (hw : Wraps n text head wrapped)
    (ht : text.toList = pre ++ '{' :: after) :
    text.toList = head ++ '{' :: after ↔ '{' ∉ pre := by
  obtain ⟨inner, hinner, -⟩ := hw
  obtain ⟨hhead, gap, htext, -⟩ := braced?_eq_some_iff.1 hinner
  constructor
  · intro h
    rwa [List.append_cancel_right (ht.symm.trans h)]
  · intro hpre
    rw [ht, (cut_inj (ht.symm.trans htext) hpre hhead).1]

/-- The dispatch is put into the header that a body was named at, and the wrapper opens at its brace,
exactly if its keyword does not follow a name and, where a wrapper can be put at all, no brace stands
in front of the header or among the parameters. -/
theorem rewriters_agree_iff {t t' : ProxyTable} {mode : ProxyMode}
    (ht : prepare i n code = .ok text) (hn : ∀ c ∈ n.text.toList, isNameChar c)
    (hp : t.proxy n text mode = .ok (out, t')) :
    ∃ before between after, FirstHeader (unixLines code.toList) before between after ∧
      text.toList = named before n.text.toList after ∧
      ∃ h : FunctionHeader, h.Cuts text.toList ∧ ProxyTable.Dispatches t.nextIndex mode h out ∧
        ((h.before = before ∧ h.name = n.text.toList ∧
            ∀ wrapped, traced i n text = .ok wrapped →
              ∃ head, Wraps n text head wrapped ∧ text.toList = head ++ '{' :: h.after) ↔
          ¬before.getLast?.any isNameChar ∧
            ((∃ wrapped, traced i n text = .ok wrapped) → '{' ∉ before ∧ '{' ∉ h.params)) := by
  obtain ⟨-, b, m, a, hf, htext⟩ := prepare_eq_ok_iff.1 ht
  obtain ⟨h, hcuts, rfl⟩ := ProxyTable.exists_cuts_of_proxy hp
  refine ⟨b, m, a, hf, htext, h, hcuts, ProxyTable.dispatches_inject _ _ _, ?_⟩
  rw [htext] at hcuts
  cases hf.meets hn hcuts with
  | behind hend hz =>
    refine iff_of_false (fun hagree => ?_) fun hfree => hfree.1 hend
    have hlength := congrArg List.length (hz.symm.trans hagree.1)
    simp at hlength
  | @same params gap hend hb hname ha hparams hgap =>
    have hopen : text.toList =
        b ++ keyword ++ (' ' :: n.text.toList ++ '(' :: (params ++ ')' :: gap)) ++
          '{' :: h.after := by
      rw [htext, named_eq, ha]
      simp only [List.append_assoc, List.cons_append]
    have hfree : '{' ∉ b ++ keyword ++ (' ' :: n.text.toList ++ '(' :: (params ++ ')' :: gap)) ↔
        '{' ∉ b ∧ '{' ∉ h.params := by
      have hkeyword : '{' ∉ keyword := by decide
      have hname' : '{' ∉ n.text.toList := mt (hn '{') (by decide)
      have hgap' : '{' ∉ gap := mt (hgap '{') (by decide)
      rw [hparams, mem_trimWhere_iff (by decide)]
      simp [hkeyword, hname', hgap']
    refine ⟨fun ⟨_, _, hwraps⟩ => ⟨hend, ?_⟩, fun ⟨_, hbraces⟩ => ⟨hb, hname, fun wrapped hw => ?_⟩⟩
    · rintro ⟨wrapped, hw⟩
      obtain ⟨head, hhead, heq⟩ := hwraps wrapped hw
      exact hfree.1 ((hhead.opens_iff hopen).1 heq)
    · obtain ⟨head, hhead⟩ := traced_eq_ok_iff.1 hw
      exact ⟨head, hhead, (hhead.opens_iff hopen).2 (hfree.2 (hbraces ⟨wrapped, hw⟩))⟩

def plain : String :=
  "function add(a, b) \x7b return a + b; \x7d"

theorem plain_agrees :
    ∃ (text out wrapped : String) (t' : ProxyTable) (h : FunctionHeader),
      prepare ⟨"K"⟩ ⟨"_K"⟩ plain = .ok text ∧
      ProxyTable.proxy {} ⟨"_K"⟩ text .sync = .ok (out, t') ∧
      traced ⟨"K"⟩ ⟨"_K"⟩ text = .ok wrapped ∧ h.Cuts text.toList ∧
      h.before = [] ∧ h.name = "_K".toList ∧
      ∃ head, Wraps ⟨"_K"⟩ text head wrapped ∧ text.toList = head ++ '{' :: h.after := by
  have ht : prepare ⟨"K"⟩ ⟨"_K"⟩ plain = .ok "function _K(a, b) \x7b return a + b; \x7d" := by
    decide +kernel
  obtain ⟨⟨out, t'⟩, hp, -⟩ : ∃ x,
      ProxyTable.proxy {} ⟨"_K"⟩ "function _K(a, b) \x7b return a + b; \x7d" .sync = .ok x ∧
        x.2.names = [⟨"_K"⟩] := exists_ok (by decide +kernel)
  obtain ⟨wrapped, hw, -⟩ : ∃ w,
      traced ⟨"K"⟩ ⟨"_K"⟩ "function _K(a, b) \x7b return a + b; \x7d" = .ok w ∧ w ≠ "" :=
    exists_ok (by decide +kernel)
  have hname : ∀ c ∈ "_K".toList, isNameChar c := List.all_eq_true.1 (by decide +kernel)
  obtain ⟨b, m, a, hf, -, h, hcuts, -, hagree⟩ := rewriters_agree_iff ht hname hp
  have hat : HeaderAt (unixLines plain.toList) [] " add".toList
      "a, b) \x7b return a + b; \x7d".toList := by decide +kernel
  obtain rfl : b = [] := List.eq_nil_of_length_eq_zero (Nat.le_zero.1 (hf.first _ _ _ hat))
  have hfind : find? "function _K(a, b) \x7b return a + b; \x7d".toList =
      some ⟨[], "_K".toList, "a, b".toList, " return a + b; \x7d".toList⟩ := by decide +kernel
  obtain rfl := Option.some.inj (hfind.symm.trans (find?_eq_some_iff.2 hcuts))
  obtain ⟨hb, hn, hwraps⟩ := hagree.2 ⟨by decide, fun _ => ⟨by decide, by decide +kernel⟩⟩
  exact ⟨_, out, wrapped, t', _, ht, hp, hw, hcuts, hb, hn, hwraps wrapped hw⟩

def defaulted : String :=
  "function(a = \x7b\x7d) \x7b return a; \x7d"

/-- The wrapper opens among the parameters. -/
theorem defaulted_disagrees :
    ∃ (text out wrapped : String) (t' : ProxyTable),
      prepare ⟨"K"⟩ ⟨"_K"⟩ defaulted = .ok text ∧
      ProxyTable.proxy {} ⟨"_K"⟩ text .sync = .ok (out, t') ∧
      traced ⟨"K"⟩ ⟨"_K"⟩ text = .ok wrapped ∧
      ∀ (h : FunctionHeader) head, h.Cuts text.toList → Wraps ⟨"_K"⟩ text head wrapped →
        head = "function _K(a = ".toList ∧ text.toList ≠ head ++ '{' :: h.after := by
  have ht : prepare ⟨"K"⟩ ⟨"_K"⟩ defaulted =
      .ok "function _K(a = \x7b\x7d) \x7b return a; \x7d" := by decide +kernel
  obtain ⟨⟨out, t'⟩, hp, -⟩ : ∃ x,
      ProxyTable.proxy {} ⟨"_K"⟩ "function _K(a = \x7b\x7d) \x7b return a; \x7d" .sync = .ok x ∧
        x.2.names = [⟨"_K"⟩] := exists_ok (by decide +kernel)
  obtain ⟨wrapped, hw, -⟩ : ∃ w,
      traced ⟨"K"⟩ ⟨"_K"⟩ "function _K(a = \x7b\x7d) \x7b return a; \x7d" = .ok w ∧ w ≠ "" :=
    exists_ok (by decide +kernel)
  refine ⟨_, out, wrapped, t', ht, hp, hw, fun h head hcuts hwraps => ?_⟩
  obtain ⟨inner, hinner, -⟩ := hwraps
  have hbraced : braced? "function _K(a = \x7b\x7d) \x7b return a; \x7d".toList =
      some ("function _K(a = ".toList, "\x7d) \x7b return a; ".toList) := by decide +kernel
  have hfind : find? "function _K(a = \x7b\x7d) \x7b return a; \x7d".toList =
      some ⟨[], "_K".toList, "a = \x7b\x7d".toList, " return a; \x7d".toList⟩ := by decide +kernel
  obtain ⟨rfl, -⟩ := Prod.mk.inj (Option.some.inj (hbraced.symm.trans hinner))
  obtain rfl := Option.some.inj (hfind.symm.trans (find?_eq_some_iff.2 hcuts))
  exact ⟨rfl, by decide +kernel⟩

end CatalogLinker.FunctionBody
