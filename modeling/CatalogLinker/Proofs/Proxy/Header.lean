import CatalogLinker.Proofs.Text.Blank
import CatalogLinker.Proofs.Text.Search
import CatalogLinker.ProxyTable

namespace CatalogLinker

namespace Text

variable {p : Char → Bool} {s t u : List Char} {c : Char}

theorem isAlphanumeric_of_isBlank (h : isBlank c) : isAlphanumeric c = false := by
  have hranges : ∀ n ∈ [0x85, 0xA0, 0x1680, 0x2000, 0x2001, 0x2002, 0x2003, 0x2004, 0x2005, 0x2006,
      0x2007, 0x2008, 0x2009, 0x200A, 0x2028, 0x2029, 0x202F, 0x205F, 0x3000],
      inRanges alphanumericRanges (Char.ofNat n) = false := by decide +kernel
  rw [isAlphanumeric]
  split
  · rename_i hascii
    rw [← Bool.not_eq_true]
    intro hletter
    have hbounds := toNat_of_isAlphanum hletter
    simp [isBlank] at h
    omega
  · rename_i hbeyond
    rw [← Char.ofNat_toNat c]
    refine hranges c.toNat ?_
    simp [isBlank] at h ⊢
    omega

end Text

namespace FunctionHeader

open Text

def StandsBetween (before rest : List Char) : Prop :=
  ¬before.getLast?.any isNameChar ∧ rest.head?.any isBlank

structure FirstKeyword (s before rest : List Char) : Prop where
  eq : s = before ++ "function".toList ++ rest
  stands : StandsBetween before rest
  first : ∀ before' rest', s = before' ++ "function".toList ++ rest' →
    StandsBetween before' rest' → before.length ≤ before'.length

/-- Every parenthesis has its counterpart. -/
structure Balanced (s : List Char) : Prop where
  counts : s.count ')' = s.count '('
  initial : ∀ t, t <+: s → t.count ')' ≤ t.count '('

/-- The first closing parenthesis without a counterpart stands between texts, if `d` parentheses
are open before. -/
@[mk_iff]
structure Closes (d : Nat) (s inner rest : List Char) : Prop where
  eq : s = inner ++ ')' :: rest
  counts : inner.count ')' = inner.count '(' + d
  initial : ∀ t, t <+: inner → t.count ')' ≤ t.count '(' + d

def Cuts (h : FunctionHeader) (s : List Char) : Prop :=
  ∃ rest gap gap' params gap'', FirstKeyword s h.before rest ∧
    rest = gap ++ h.name ++ gap' ++ '(' :: (params ++ ')' :: (gap'' ++ '{' :: h.after)) ∧
    (∀ c ∈ gap, isBlank c) ∧ (∀ c ∈ gap', isBlank c) ∧ (∀ c ∈ gap'', isBlank c) ∧
    (∀ c ∈ h.name, isNameChar c) ∧ Balanced params ∧ h.params = trimWhere isBlank params

variable {s b r inner rest : List Char} {d : Nat}

theorem keyword?_eq_some_iff {passed : List Char} :
    keyword? passed s = some (b, rest) ↔
      ∃ mid, b = passed.reverse ++ mid ∧ s = mid ++ "function".toList ++ rest ∧
        StandsBetween b rest ∧
        ∀ mid' rest', s = mid' ++ "function".toList ++ rest' →
          StandsBetween (passed.reverse ++ mid') rest' → mid.length ≤ mid'.length := by
  induction s generalizing passed with
  | nil => simp [keyword?]
  | cons c s ih =>
    rw [keyword?]
    split
    · rename_i found hfound
      obtain ⟨hafter, hstands⟩ : after? "function".toList (c :: s) = some found ∧
          StandsBetween passed.reverse found := by
        simpa [StandsBetween, Option.filter_eq_some_iff] using hfound
      rw [after?_eq_some_iff] at hafter
      constructor
      · intro h
        obtain ⟨rfl, rfl⟩ := Prod.mk.inj (Option.some.inj h)
        exact ⟨[], by simp, hafter, hstands, by simp⟩
      · rintro ⟨mid, rfl, hs, -, hfirst⟩
        obtain rfl : mid = [] := by
          have hle := hfirst [] found hafter (by rwa [List.append_nil])
          exact List.eq_nil_of_length_eq_zero (Nat.le_zero.1 hle)
        have hrest : found = rest := List.append_cancel_left (hafter.symm.trans hs)
        rw [List.append_nil, hrest]
    · rename_i hnone
      have hnone' : ∀ rest', c :: s = "function".toList ++ rest' →
          ¬StandsBetween passed.reverse rest' := by
        intro rest' hs
        rw [after?_eq_some_iff.2 hs] at hnone
        simpa [StandsBetween, Option.filter] using hnone
      rw [ih]
      constructor
      · rintro ⟨mid, rfl, rfl, hstands, hfirst⟩
        refine ⟨c :: mid, by simp, by simp, hstands, fun mid' rest' hs hstands' => ?_⟩
        cases mid' with
        | nil => exact absurd (by simpa using hstands') (hnone' rest' hs)
        | cons a mid' =>
          obtain ⟨rfl, hs'⟩ := List.cons.inj hs
          have hle := hfirst mid' rest' hs' (by simpa using hstands')
          simpa using hle
      · rintro ⟨mid, rfl, hs, hstands, hfirst⟩
        cases mid with
        | nil => exact absurd (by simpa using hstands) (hnone' rest hs)
        | cons a mid =>
          obtain ⟨rfl, rfl⟩ := List.cons.inj hs
          refine ⟨mid, by simp, rfl, hstands, fun mid' rest' hs' hstands' => ?_⟩
          have hle := hfirst (c :: mid') rest' (congrArg (c :: ·) hs') (by simpa using hstands')
          simpa using hle

theorem closes_cons {c : Char} {e : Nat} (hopen : ∀ t : List Char,
      (c :: t).count ')' + (t.count '(' + e) = (c :: t).count '(' + d + t.count ')') :
    Closes d (c :: s) inner rest ↔ ∃ inner', inner = c :: inner' ∧ Closes e s inner' rest := by
  constructor
  · rintro ⟨hs, hcounts, hinitial⟩
    cases inner with
    | nil =>
      obtain ⟨rfl, -⟩ := List.cons.inj hs
      have hopen' := hopen []
      simp at hcounts hopen'
      omega
    | cons a inner =>
      obtain ⟨rfl, hs'⟩ := List.cons.inj hs
      refine ⟨inner, rfl, hs', ?_, fun t ht => ?_⟩
      · have hopen' := hopen inner
        omega
      · have hopen' := hopen t
        have hle := hinitial (c :: t) (List.cons_prefix_cons.2 ⟨rfl, ht⟩)
        omega
  · rintro ⟨inner, rfl, hs, hcounts, hinitial⟩
    refine ⟨by rw [hs, List.cons_append], ?_, fun t ht => ?_⟩
    · have hopen' := hopen inner
      omega
    · obtain rfl | ⟨t', rfl, ht'⟩ := List.prefix_cons_iff.1 ht
      · simp
      · have hopen' := hopen t'
        have hle := hinitial t' ht'
        omega

theorem closes_zero_iff : Closes 0 s inner rest ↔ s = inner ++ ')' :: rest ∧ Balanced inner :=
  ⟨fun h => ⟨h.eq, h.counts, h.initial⟩, fun h => ⟨h.1, h.2.counts, h.2.initial⟩⟩

theorem map_closing?_eq_some_iff {c : Char} :
    ((closing? d s).map fun (inner, rest) => (c :: inner, rest)) = some (inner, rest) ↔
      ∃ inner', inner = c :: inner' ∧ closing? d s = some (inner', rest) := by
  simp only [Option.map_eq_some_iff, Prod.exists, Prod.mk.injEq]
  constructor
  · rintro ⟨inner', rest', h, rfl, rfl⟩
    exact ⟨inner', rfl, h⟩
  · rintro ⟨inner', rfl, h⟩
    exact ⟨inner', rest, h, rfl, rfl⟩

theorem closing?_eq_some_iff : closing? (d + 1) s = some (inner, rest) ↔ Closes d s inner rest := by
  induction s generalizing inner d with
  | nil => simp [closing?, closes_iff]
  | cons c s ih =>
    by_cases hclose : c = ')'
    · subst hclose
      cases d with
      | zero =>
        have hnow : closing? 1 (')' :: s) = some ([], s) := by simp [closing?]
        rw [hnow]
        cases inner with
        | nil => simp [closes_iff]
        | cons a inner =>
          refine iff_of_false (by simp) ?_
          rintro ⟨hs, -, hinitial⟩
          obtain ⟨rfl, -⟩ := List.cons.inj hs
          have hfirst := hinitial [')'] (by simp)
          simp at hfirst
      | succ d =>
        have hopen : ∀ t : List Char, (')' :: t).count ')' + (t.count '(' + d) =
            (')' :: t).count '(' + (d + 1) + t.count ')' := by
          intro t
          simp
          omega
        rw [closes_cons hopen]
        simp only [closing?, ↓reduceIte, map_closing?_eq_some_iff, ih]
    · by_cases hdeeper : c = '('
      · subst hdeeper
        have hopen : ∀ t : List Char, ('(' :: t).count ')' + (t.count '(' + (d + 1)) =
            ('(' :: t).count '(' + d + t.count ')' := by
          intro t
          simp
          omega
        rw [closes_cons hopen]
        simp only [closing?, hclose, ↓reduceIte, map_closing?_eq_some_iff, ih]
      · have hopen : ∀ t : List Char, (c :: t).count ')' + (t.count '(' + d) =
            (c :: t).count '(' + d + t.count ')' := by
          intro t
          simp [hclose, hdeeper]
          omega
        rw [closes_cons hopen]
        simp only [closing?, hclose, hdeeper, ↓reduceIte, map_closing?_eq_some_iff, ih]

theorem not_isNameChar_of_isBlank {c : Char} (h : isBlank c) : ¬isNameChar c := by
  have hletter := isAlphanumeric_of_isBlank h
  have hunderscore : c ≠ '_' := by
    rintro rfl
    simp [isBlank] at h
  have hdollar : c ≠ '$' := by
    rintro rfl
    simp [isBlank] at h
  simp [isNameChar, hletter, hunderscore, hdollar]

theorem name_iff {name tail : List Char} :
    (∃ raw, cutAt? '(' (s.dropWhile isBlank) = some (raw, tail) ∧
        name = trimEndWhere isBlank raw ∧ ∀ c ∈ name, isNameChar c) ↔
      ∃ gap gap', s = gap ++ name ++ gap' ++ '(' :: tail ∧ (∀ c ∈ gap, isBlank c) ∧
        (∀ c ∈ gap', isBlank c) ∧ ∀ c ∈ name, isNameChar c := by
  simp only [cutAt?_eq_some_iff]
  constructor
  · rintro ⟨raw, ⟨hraw, -⟩, rfl, hname⟩
    obtain ⟨gap, hgap, hs⟩ := exists_dropWhile isBlank s
    obtain ⟨gap', hgap', hraw'⟩ := exists_trimEndWhere isBlank raw
    refine ⟨gap, gap', ?_, hgap, hgap', hname⟩
    rw [List.append_assoc gap, ← hraw', List.append_assoc, ← hraw, ← hs]
  · rintro ⟨gap, gap', rfl, hgap, hgap', hname⟩
    have hopen : ∀ t : List Char, (∀ c ∈ t, isNameChar c) ∨ (∀ c ∈ t, isBlank c) → '(' ∉ t := by
      rintro t (ht | ht) hc
      · exact absurd (ht _ hc) (by decide)
      · exact absurd (ht _ hc) (by decide)
    cases name with
    | nil =>
      -- With no name all the white space in front of the parenthesis is dropped at once.
      refine ⟨[], ⟨?_, List.not_mem_nil⟩, rfl, hname⟩
      rw [List.append_nil]
      refine dropWhile_append_eq (fun c hc => ?_) (by simp [isBlank])
      exact (List.mem_append.1 hc).elim (hgap c) (hgap' c)
    | cons a name =>
      refine ⟨a :: name ++ gap', ⟨?_, ?_⟩, (trimEndWhere_append hgap' ?_).symm, hname⟩
      · rw [List.append_assoc gap, List.append_assoc gap]
        refine dropWhile_append_eq hgap fun hblank => ?_
        exact not_isNameChar_of_isBlank hblank (hname a List.mem_cons_self)
      · rw [List.mem_append, not_or]
        exact ⟨hopen _ (.inl hname), hopen _ (.inr hgap')⟩
      · rw [Option.any_eq_true]
        rintro ⟨c, hc, hblank⟩
        exact not_isNameChar_of_isBlank hblank (hname c (List.mem_of_getLast? hc))

theorem brace_iff {after : List Char} :
    after? ['{'] (s.dropWhile isBlank) = some after ↔
      ∃ gap, s = gap ++ '{' :: after ∧ ∀ c ∈ gap, isBlank c := by
  rw [after?_eq_some_iff]
  constructor
  · intro h
    obtain ⟨gap, hgap, hs⟩ := exists_dropWhile isBlank s
    exact ⟨gap, by rw [hs, h]; rfl, hgap⟩
  · rintro ⟨gap, rfl, hgap⟩
    exact dropWhile_append_eq hgap (by simp [isBlank])

theorem keyword?_iff : keyword? [] s = some (b, rest) ↔ FirstKeyword s b rest := by
  rw [keyword?_eq_some_iff]
  constructor
  · rintro ⟨mid, rfl, hs, hstands, hfirst⟩
    exact ⟨hs, hstands, hfirst⟩
  · rintro ⟨hs, hstands, hfirst⟩
    exact ⟨b, rfl, hs, hstands, hfirst⟩

theorem find?_eq_some_iff {h : FunctionHeader} : find? s = some h ↔ h.Cuts s := by
  constructor
  · intro hs
    rw [find?] at hs
    simp only [Option.bind_eq_bind, Option.bind_eq_some_iff] at hs
    obtain ⟨⟨before, rest⟩, hkeyword, ⟨raw, tail⟩, hraw, hs⟩ := hs
    dsimp only at hs
    split_ifs at hs with hname
    simp only [Option.bind_eq_some_iff, Option.some.injEq] at hs
    obtain ⟨⟨params, tail'⟩, hparams, after, hafter, rfl⟩ := hs
    obtain ⟨gap, gap', hrest, hgap, hgap', hname'⟩ :=
      name_iff.1 ⟨raw, hraw, rfl, List.all_eq_true.1 hname⟩
    obtain ⟨htail, hbalanced⟩ := closes_zero_iff.1 (closing?_eq_some_iff.1 hparams)
    obtain ⟨gap'', htail', hgap''⟩ := brace_iff.1 hafter
    dsimp only at hrest htail'
    refine ⟨rest, gap, gap', params, gap'', keyword?_iff.1 hkeyword, ?_, hgap, hgap', hgap'', hname',
      hbalanced, rfl⟩
    rw [hrest, htail, htail']
  · rintro ⟨rest, gap, gap', params, gap'', hkeyword, hrest, hgap, hgap', hgap'', hname, hbalanced,
      hparams⟩
    obtain ⟨raw, hraw, hraw', -⟩ := name_iff.2 ⟨gap, gap', hrest, hgap, hgap', hname⟩
    have hclosing : closing? 1 (params ++ ')' :: (gap'' ++ '{' :: h.after)) =
        some (params, gap'' ++ '{' :: h.after) :=
      closing?_eq_some_iff.2 (closes_zero_iff.2 ⟨rfl, hbalanced⟩)
    have hbrace : after? ['{'] ((gap'' ++ '{' :: h.after).dropWhile isBlank) = some h.after :=
      brace_iff.2 ⟨gap'', rfl, hgap''⟩
    have hall : h.name.all isNameChar = true := List.all_eq_true.2 hname
    simp only [find?, keyword?_iff.2 hkeyword, hraw, hclosing, hbrace, ← hraw', hall, ← hparams,
      Option.bind_eq_bind, Option.bind_some, ↓reduceIte]

end FunctionHeader

end CatalogLinker
