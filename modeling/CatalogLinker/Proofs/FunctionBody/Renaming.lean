import CatalogLinker.FunctionBody
import CatalogLinker.Proofs.Text.Search
import CatalogLinker.ProxyTable

namespace CatalogLinker.FunctionBody

open Text

/-- The keyword stands on its own towards its end, and a parenthesis stands behind it; `between` is
what stands between the two. -/
structure HeaderAt (s before between after : List Char) : Prop where
  eq : s = before ++ keyword ++ between ++ '(' :: after
  closed : '(' ∉ between
  apart : between.head?.all isBlank

structure FirstHeader (s before between after : List Char) : Prop
    extends HeaderAt s before between after where
  first : ∀ before' between' after', HeaderAt s before' between' after' →
    before.length ≤ before'.length

/-- The keyword does not end a name, and only white space and at most one name stand between it and
the parenthesis. -/
structure Proper (before between : List Char) : Prop where
  separate : ¬before.getLast?.any FunctionHeader.isNameChar
  named : ∃ gap name gap', between = gap ++ name ++ gap' ∧ (∀ c ∈ gap, isBlank c) ∧
    (∀ c ∈ name, FunctionHeader.isNameChar c) ∧ ∀ c ∈ gap', isBlank c

def header (name : List Char) : List Char :=
  keyword ++ ' ' :: name ++ ['(']

def named (before name after : List Char) : List Char :=
  before ++ header name ++ after

variable {s b m a b' m' a' x x' y y' name t : List Char} {c : Char}

theorem named_eq (b name a : List Char) :
    named b name a = b ++ keyword ++ (' ' :: name ++ '(' :: a) := by
  simp [named, header]

theorem named_nil (name a : List Char) : named [] name a = keyword ++ ' ' :: name ++ '(' :: a := by
  rw [named_eq, List.nil_append, List.append_assoc]

theorem exists_apart (h : x ++ keyword ++ y = x' ++ keyword ++ y') (hl : x.length < x'.length) :
    ∃ z, x' = x ++ keyword ++ z ∧ y = z ++ keyword ++ y' := by
  rw [List.append_assoc, List.append_assoc, List.append_eq_append_iff] at h
  obtain ⟨d, rfl, hd⟩ | ⟨d, rfl, -⟩ := h
  · rw [List.append_eq_append_iff] at hd
    obtain ⟨z, rfl, hy⟩ | ⟨e, hk, hy⟩ := hd
    · exact ⟨z, by rw [List.append_assoc], by rw [hy, List.append_assoc]⟩
    · cases e with
      | nil =>
        rw [List.append_nil] at hk
        exact ⟨[], by rw [hk, List.append_nil], hy.symm⟩
      | cons c e =>
        -- The second keyword would start inside of the first, at its letter `f`.
        have hc : 'f' = c := (List.cons.inj hy).1
        cases d with
        | nil => simp at hl
        | cons c' d =>
          have htail : keyword.tail = d ++ c :: e := by rw [hk, List.cons_append, List.tail_cons]
          have hf : 'f' ∈ keyword.tail := by
            rw [htail, hc]
            exact List.mem_append_right d List.mem_cons_self
          exact absurd hf (by decide)
  · simp at hl

theorem HeaderAt.eq' (h : HeaderAt s b m a) : s = b ++ keyword ++ (m ++ '(' :: a) := by
  rw [← List.append_assoc, h.eq]

theorem HeaderAt.unique (h : HeaderAt s b m a) (h' : HeaderAt s b m' a') : m = m' ∧ a = a' := by
  have heq := h.eq.symm.trans h'.eq
  rw [List.append_assoc, List.append_assoc _ m', List.append_cancel_left_eq] at heq
  exact cut_inj heq h.closed h'.closed

theorem headerAt_cons : HeaderAt (c :: s) (c :: b) m a ↔ HeaderAt s b m a :=
  ⟨fun h => ⟨(List.cons.inj h.eq).2, h.closed, h.apart⟩,
    fun h => ⟨congrArg (c :: ·) h.eq, h.closed, h.apart⟩⟩

theorem head?_of_apart (hm : m.head?.all isBlank) :
    (m ++ '(' :: a).head?.any fun c => c = '(' || isBlank c := by
  cases m with
  | nil => rfl
  | cons c m => simp_all

theorem headerEnd?_eq_some_iff : headerEnd? s = some a ↔ ∃ m, HeaderAt s [] m a := by
  simp only [headerEnd?, Option.bind_eq_some_iff, after?_eq_some_iff]
  constructor
  · rintro ⟨rest, rfl, h⟩
    split at h
    · rename_i hhead
      obtain ⟨⟨m, a'⟩, hcut, rfl⟩ := Option.map_eq_some_iff.1 h
      obtain ⟨rfl, hm⟩ := cutAt?_eq_some_iff.1 hcut
      refine ⟨m, by simp, hm, ?_⟩
      cases m with
      | nil => rfl
      | cons c m =>
        have hc : c ≠ '(' := fun hc => hm (hc ▸ List.mem_cons_self)
        simpa [hc] using hhead
    · simp at h
  · rintro ⟨m, heq, hm, hapart⟩
    refine ⟨m ++ '(' :: a, by simpa using heq, ?_⟩
    rw [if_pos (head?_of_apart hapart), cutAt?_eq_some_iff.2 ⟨rfl, hm⟩]
    rfl

theorem firstHeader_cons (h : ∀ m a, ¬HeaderAt (c :: s) [] m a) :
    FirstHeader (c :: s) b m a ↔ ∃ b', b = c :: b' ∧ FirstHeader s b' m a := by
  constructor
  · rintro ⟨hb, hfirst⟩
    cases b with
    | nil => exact absurd hb (h m a)
    | cons c' b =>
      obtain rfl : c = c' := (List.cons.inj hb.eq).1
      refine ⟨b, rfl, headerAt_cons.1 hb, fun b' m' a' hb' => ?_⟩
      exact Nat.le_of_succ_le_succ (hfirst (c :: b') m' a' (headerAt_cons.2 hb'))
  · rintro ⟨b, rfl, hb, hfirst⟩
    refine ⟨headerAt_cons.2 hb, fun b' m' a' hb' => ?_⟩
    cases b' with
    | nil => exact absurd hb' (h m' a')
    | cons c' b' =>
      obtain rfl : c = c' := (List.cons.inj hb'.eq).1
      exact Nat.succ_le_succ (hfirst b' m' a' (headerAt_cons.1 hb'))

/-- The first header is named, whatever stands between its keyword and its parenthesis. -/
theorem rename_eq_some_iff :
    rename name s = some t ↔ ∃ b m a, FirstHeader s b m a ∧ t = named b name a := by
  induction s generalizing t with
  | nil =>
    refine iff_of_false (by simp [rename]) ?_
    rintro ⟨b, m, a, h, -⟩
    exact absurd h.eq (by simp)
  | cons c s ih =>
    rw [rename]
    cases hend : headerEnd? (c :: s) with
    | some rest =>
      obtain ⟨m, hm⟩ := headerEnd?_eq_some_iff.1 hend
      constructor
      · intro h
        have hfirst : FirstHeader (c :: s) [] m rest := ⟨hm, fun _ _ _ _ => Nat.zero_le _⟩
        exact ⟨[], m, rest, hfirst, by rw [← Option.some.inj h, named_nil]⟩
      · rintro ⟨b, m', a, h, rfl⟩
        obtain rfl : b = [] := List.eq_nil_of_length_eq_zero (Nat.le_zero.1 (h.first [] m rest hm))
        obtain ⟨-, rfl⟩ := hm.unique h.toHeaderAt
        rw [named_nil]
    | none =>
      have hnone : ∀ m a, ¬HeaderAt (c :: s) [] m a := fun m a h => by
        simpa [hend] using headerEnd?_eq_some_iff.2 ⟨m, h⟩
      simp only [firstHeader_cons hnone, Option.map_eq_some_iff, ih]
      constructor
      · rintro ⟨t, ⟨b, m, a, h, rfl⟩, rfl⟩
        exact ⟨c :: b, m, a, ⟨b, rfl, h⟩, rfl⟩
      · rintro ⟨_, m, a, ⟨b, rfl, h⟩, rfl⟩
        exact ⟨named b name a, ⟨b, m, a, h, rfl⟩, rfl⟩

theorem HeaderAt.headerEnd?_drop (h : HeaderAt s b m a) : headerEnd? (s.drop b.length) = some a := by
  refine headerEnd?_eq_some_iff.2 ⟨m, ⟨?_, h.closed, h.apart⟩⟩
  rw [h.eq', List.append_assoc b, List.drop_left, List.nil_append, List.append_assoc]

theorem firstHeader_iff :
    FirstHeader s b m a ↔ HeaderAt s b m a ∧ ∀ k < b.length, headerEnd? (s.drop k) = none := by
  constructor
  · rintro ⟨hb, hfirst⟩
    refine ⟨hb, fun k hk => Option.eq_none_iff_forall_ne_some.2 fun a' ha' => ?_⟩
    obtain ⟨m', hm'⟩ := headerEnd?_eq_some_iff.1 ha'
    have hat : HeaderAt s (s.take k) m' a' := by
      refine ⟨?_, hm'.closed, hm'.apart⟩
      rw [List.append_assoc, List.append_assoc, ← List.append_assoc keyword,
        ← List.nil_append keyword, ← hm'.eq, List.take_append_drop]
    have hle := hfirst _ _ _ hat
    rw [List.length_take] at hle
    omega
  · rintro ⟨hb, hnone⟩
    refine ⟨hb, fun b' m' a' hb' => ?_⟩
    by_contra hlt
    simpa [hb'.headerEnd?_drop] using hnone b'.length (by omega)

instance : Decidable (HeaderAt s b m a) :=
  decidable_of_iff (s = b ++ keyword ++ m ++ '(' :: a ∧ '(' ∉ m ∧ m.head?.all isBlank)
    ⟨fun h => ⟨h.1, h.2.1, h.2.2⟩, fun h => ⟨h.eq, h.closed, h.apart⟩⟩

instance : Decidable (FirstHeader s b m a) :=
  decidable_of_iff _ firstHeader_iff.symm

/-- What a text and the text with Unix line ends have in common: the lines, between which CRLF stands
in the one and LF in the other. -/
def UnixOf (s t : List Char) : Prop :=
  ∃ lines : List (List Char), (∀ l ∈ lines, ¬['\r', '\n'] <:+: l) ∧
    s = ['\r', '\n'].intercalate lines ∧ t = ['\n'].intercalate lines

theorem intercalate_cons_head (sep : List Char) (c : Char) (l : List Char) (ls : List (List Char)) :
    sep.intercalate ((c :: l) :: ls) = c :: sep.intercalate (l :: ls) := by
  cases ls <;> simp [List.intercalate_cons_cons]

theorem unixOf_unixLines (s : List Char) : UnixOf s (unixLines s) := by
  suffices h : ∃ (l : List Char) (ls : List (List Char)), (∀ k ∈ l :: ls, ¬['\r', '\n'] <:+: k) ∧
      s = ['\r', '\n'].intercalate (l :: ls) ∧ unixLines s = ['\n'].intercalate (l :: ls) by
    obtain ⟨l, ls, h⟩ := h
    exact ⟨l :: ls, h⟩
  fun_induction unixLines s with
  | case1 s ih =>
    obtain ⟨l, ls, hls, hs, ht⟩ := ih
    refine ⟨[], l :: ls, List.forall_mem_cons.2 ⟨by simp, hls⟩, ?_, ?_⟩
    · rw [hs]
      rfl
    · rw [ht]
      rfl
  | case2 c s hcrlf ih =>
    obtain ⟨l, ls, hls, hs, ht⟩ := ih
    obtain ⟨hl, hls'⟩ := List.forall_mem_cons.1 hls
    refine ⟨c :: l, ls, List.forall_mem_cons.2 ⟨?_, hls'⟩, ?_, ?_⟩
    · rw [List.infix_cons_iff, not_or]
      refine ⟨?_, hl⟩
      rintro ⟨rest, hrest⟩
      obtain ⟨rfl, rfl⟩ := List.cons.inj hrest
      exact hcrlf _ rfl (hs.trans (intercalate_cons_head _ _ _ _))
    · rw [intercalate_cons_head, ← hs]
    · rw [intercalate_cons_head, ← ht]
  | case3 => exact ⟨[], [], by simp, rfl, rfl⟩

variable {i : Ident} {n : Name} {code text : String}

theorem prepare_eq_ok_iff :
    prepare i n code = .ok text ↔
      ¬occurs missingMark.toList (unixLines code.toList) ∧
        ∃ b m a, FirstHeader (unixLines code.toList) b m a ∧
          text.toList = named b n.text.toList a := by
  have hrename : (∃ b m a, FirstHeader (unixLines code.toList) b m a ∧
      text.toList = named b n.text.toList a) ↔
        rename n.text.toList (unixLines code.toList) = some text.toList := rename_eq_some_iff.symm
  rw [hrename, prepare]
  split_ifs with hmark
  · simp [hmark]
  · cases rename n.text.toList (unixLines code.toList) with
    | none => simp
    | some t => simp [hmark, ← String.toList_inj]

theorem prepare_eq_malformed (hmark : ¬occurs missingMark.toList (unixLines code.toList))
    (h : ∀ b m a, ¬FirstHeader (unixLines code.toList) b m a) :
    prepare i n code = .error (.malformedBody i.text .functionName) := by
  have hnone : rename n.text.toList (unixLines code.toList) = none := by
    rw [Option.eq_none_iff_forall_ne_some]
    intro t ht
    obtain ⟨b, m, a, hb, -⟩ := rename_eq_some_iff.1 ht
    exact h b m a hb
  rw [prepare, if_neg hmark, hnone]

/-- Naming another header than the first gives another text, unless the name was there before. -/
theorem before_eq_of_named (hname : '(' ∉ name) (hm : m ≠ ' ' :: name) (hf : FirstHeader s b m a)
    (h : HeaderAt s b' m' a') (heq : named b name a = named b' name a') : b = b' := by
  have hs := hf.eq'.symm.trans h.eq'
  rw [named_eq, named_eq] at heq
  obtain hlt | hlen := lt_or_eq_of_le (hf.first b' m' a' h)
  · exfalso
    obtain ⟨z, rfl, hz⟩ := exists_apart hs hlt
    have hz' : ' ' :: name ++ '(' :: a = z ++ keyword ++ (' ' :: name ++ '(' :: a') := by
      rwa [List.append_assoc (b ++ keyword), List.append_assoc (b ++ keyword),
        List.append_cancel_left_eq] at heq
    have hblank : '(' ∉ ' ' :: name := by simpa using hname
    by_cases hopen : '(' ∈ z
    · -- The texts agree up to the parenthesis of the first header.
      obtain ⟨z₁, z₂, rfl, hz₁⟩ := List.eq_append_cons_of_mem hopen
      simp only [List.append_assoc, List.cons_append] at hz hz'
      have hm₁ := (cut_inj hz hf.closed hz₁).1
      have hname₁ := (cut_inj (c := '(') (t := ' ' :: name) hz' hblank hz₁).1
      exact hm (hm₁.trans hname₁.symm)
    · -- Only the length of a keyword is left for what stands between.
      have hclosed : '(' ∉ z ++ keyword ++ m' := by
        simp only [List.mem_append, not_or]
        exact ⟨⟨hopen, by decide⟩, h.closed⟩
      rw [← List.append_assoc] at hz
      obtain ⟨-, rfl⟩ := cut_inj hz hf.closed hclosed
      have hlength := congrArg List.length hz'
      have hkeyword : keyword.length = 8 := rfl
      simp only [List.length_append, List.length_cons, hkeyword] at hlength
      omega
  · rw [List.append_assoc, List.append_assoc b'] at hs
    exact List.append_inj_left hs hlen

/-- A body keeps everything but an old name, under whatever name, and a body without a header is
refused, exactly if the first keyword with a parenthesis behind it is that of a header. -/
theorem prepare_renames_iff (code : String) :
    UnixOf code.toList (unixLines code.toList) ∧
    ((∀ i n,
        (∀ text, prepare i n code = .ok text → ∃ before between after,
          HeaderAt (unixLines code.toList) before between after ∧ Proper before between ∧
            text.toList = named before n.text.toList after) ∧
        (¬occurs missingMark.toList (unixLines code.toList) →
          (∀ before between after, HeaderAt (unixLines code.toList) before between after →
            ¬Proper before between) →
          prepare i n code = .error (.malformedBody i.text .functionName))) ↔
      occurs missingMark.toList (unixLines code.toList) ∨
        ∀ before between after, FirstHeader (unixLines code.toList) before between after →
          Proper before between) := by
  refine ⟨unixOf_unixLines _, fun h => ?_, fun h i n => ⟨fun text ht => ?_, fun hmark hno => ?_⟩⟩
  · by_cases hmark : occurs missingMark.toList (unixLines code.toList)
    · exact .inl hmark
    · refine .inr fun b m a hf => ?_
      -- A name that was not there before shows which header is named.
      obtain ⟨name, hname, hm⟩ : ∃ name : String, '(' ∉ name.toList ∧ m ≠ ' ' :: name.toList := by
        by_cases hm : m = [' ']
        · exact ⟨"f", by decide, by rw [hm]; decide⟩
        · exact ⟨"", by decide, hm⟩
      have ht : prepare default ⟨name⟩ code = .ok (String.ofList (named b name.toList a)) :=
        prepare_eq_ok_iff.2 ⟨hmark, b, m, a, hf, String.toList_ofList⟩
      obtain ⟨b', m', a', hh, hproper, heq⟩ := (h default ⟨name⟩).1 _ ht
      rw [String.toList_ofList] at heq
      obtain rfl := before_eq_of_named hname hm hf hh heq
      obtain ⟨rfl, -⟩ := hf.unique hh
      exact hproper
  · obtain ⟨hmark, b, m, a, hf, htext⟩ := prepare_eq_ok_iff.1 ht
    exact ⟨b, m, a, hf.toHeaderAt, (h.resolve_left hmark) b m a hf, htext⟩
  · refine prepare_eq_malformed hmark fun b m a hf => ?_
    exact hno b m a hf.toHeaderAt ((h.resolve_left hmark) b m a hf)

theorem Proper.mem (h : Proper b m) (hc : c ∈ m) : isBlank c ∨ FunctionHeader.isNameChar c := by
  obtain ⟨gap, word, gap', rfl, hgap, hword, hgap'⟩ := h.named
  simp only [List.mem_append] at hc
  obtain (hc | hc) | hc := hc
  · exact .inl (hgap c hc)
  · exact .inr (hword c hc)
  · exact .inl (hgap' c hc)

/-- A body with a comment that speaks of functions. -/
def commented : String :=
  "/* this function is fast */ function(a) \x7b return a; \x7d"

/-- The end of the comment is lost, and the function stays without a name. -/
theorem commented_swallowed :
    ∃ text, prepare ⟨"K"⟩ ⟨"_K"⟩ commented = .ok text ∧
      text = "/* this function _K(a) \x7b return a; \x7d" ∧
      ¬∃ before between after, HeaderAt (unixLines commented.toList) before between after ∧
        Proper before between ∧ text.toList = named before "_K".toList after := by
  have hf : FirstHeader (unixLines commented.toList) "/* this ".toList " is fast */ function".toList
      "a) \x7b return a; \x7d".toList := by decide +kernel
  refine ⟨_, prepare_eq_ok_iff.2 ⟨by decide +kernel, _, _, _, hf, by decide +kernel⟩, rfl, ?_⟩
  rintro ⟨b, m, a, h, hproper, heq⟩
  have hnamed : named "/* this ".toList "_K".toList "a) \x7b return a; \x7d".toList =
      named b "_K".toList a := by
    rw [← heq]
    decide +kernel
  obtain rfl := before_eq_of_named (by decide) (by decide) hf h hnamed
  obtain ⟨rfl, -⟩ := hf.unique h
  have hstar := hproper.mem (c := '*') (by decide)
  revert hstar
  decide +kernel

end CatalogLinker.FunctionBody
