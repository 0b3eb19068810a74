import CatalogLinker.Proofs.Proxy.Header

namespace CatalogLinker

namespace Text

variable {s t u : List Char} {c : Char} {n position : Nat}

theorem byteLength_append (s t : List Char) :
    byteLength (s ++ t) = byteLength s + byteLength t := by
  induction s with
  | nil => simp [byteLength]
  | cons c s ih => rw [List.cons_append, byteLength, byteLength, ih, Nat.add_assoc]

theorem splitAtByte?_eq_some_iff :
    splitAtByte? n s = some (t, u) ↔ s = t ++ u ∧ byteLength t = n := by
  fun_induction splitAtByte? n s generalizing t u with
  | case1 s =>
    constructor
    · intro h
      obtain ⟨rfl, rfl⟩ := Prod.mk.inj (Option.some.inj h)
      exact ⟨rfl, rfl⟩
    · rintro ⟨rfl, ht⟩
      cases t with
      | nil => rfl
      | cons c t =>
        have hpos := c.utf8Size_pos
        rw [byteLength] at ht
        omega
  | case2 n =>
    refine iff_of_false (by simp) ?_
    rintro ⟨hs, ht⟩
    obtain ⟨rfl, -⟩ := List.append_eq_nil_iff.1 hs.symm
    simp [byteLength] at ht
  | case3 n c s hle ih =>
    simp only [Option.map_eq_some_iff, Prod.exists, Prod.mk.injEq, ih]
    constructor
    · rintro ⟨t, u', ⟨rfl, ht⟩, rfl, rfl⟩
      refine ⟨rfl, ?_⟩
      rw [byteLength, ht]
      omega
    · rintro ⟨hs, ht⟩
      cases t with
      | nil => simp [byteLength] at ht
      | cons a t =>
        obtain ⟨rfl, rfl⟩ := List.cons.inj hs
        rw [byteLength] at ht
        exact ⟨t, u, ⟨rfl, by omega⟩, rfl, rfl⟩
  | case4 n c s hgt =>
    refine iff_of_false (by simp) ?_
    rintro ⟨hs, ht⟩
    cases t with
    | nil => simp [byteLength] at ht
    | cons a t =>
      obtain ⟨rfl, -⟩ := List.cons.inj hs
      rw [byteLength] at ht
      omega

theorem splitAtByte?_append (t u : List Char) :
    splitAtByte? (byteLength t) (t ++ u) = some (t, u) :=
  splitAtByte?_eq_some_iff.2 ⟨rfl, rfl⟩

theorem sliceTo?_append (t u : List Char) : sliceTo? (byteLength t) (t ++ u) = some t := by
  rw [sliceTo?, splitAtByte?_append, Option.map_some]

theorem sliceFrom?_append (t u : List Char) : sliceFrom? (byteLength t) (t ++ u) = some u := by
  rw [sliceFrom?, splitAtByte?_append, Option.map_some]

theorem slice?_append (t u rest : List Char) :
    slice? (byteLength t) (byteLength t + byteLength u) (t ++ u ++ rest) = some u := by
  rw [slice?, ← byteLength_append, sliceTo?_append, Option.bind_some, sliceFrom?_append]

theorem offsetOf?_eq (c : Char) (position : Nat) (s : List Char) :
    offsetOf? c position s = (cutAt? c s).map fun cut => position + byteLength cut.1 := by
  have hfound : ∀ (t u : List Char) position, c ∉ t →
      offsetOf? c position (t ++ c :: u) = some (position + byteLength t) := by
    intro t u
    induction t with
    | nil => intro position _; simp [offsetOf?, byteLength]
    | cons a t ih =>
      intro position hc
      obtain ⟨ha, ht⟩ := not_or.1 (mt List.mem_cons.2 hc)
      rw [List.cons_append, offsetOf?, if_neg (Ne.symm ha), ih _ ht, byteLength, Nat.add_assoc]
  have hmissing : c ∉ s → offsetOf? c position s = none := by
    induction s generalizing position with
    | nil => exact fun _ => rfl
    | cons a s ih =>
      intro hc
      obtain ⟨ha, hs⟩ := not_or.1 (mt List.mem_cons.2 hc)
      rw [offsetOf?, if_neg (Ne.symm ha), ih _ hs]
  cases h : cutAt? c s with
  | some cut =>
    obtain ⟨t, u⟩ := cut
    obtain ⟨rfl, hc⟩ := cutAt?_eq_some_iff.1 h
    rw [hfound t u position hc, Option.map_some]
  | none =>
    refine hmissing fun hc => ?_
    obtain ⟨t, u, rfl, ht⟩ := List.eq_append_cons_of_mem hc
    rw [cutAt?_eq_some_iff.2 ⟨rfl, ht⟩] at h
    simp at h

end Text

namespace FunctionHeader

open Text FunctionBody

variable {s b rest : List Char} {d position : Nat}

theorem standsAt?_append (b rest : List Char) :
    standsAt? (b ++ keyword ++ rest) (byteLength b) =
      some (!b.getLast?.any isNameChar && rest.head?.any isBlank) := by
  have hfrom := sliceFrom?_append (b ++ keyword) rest
  rw [byteLength_append] at hfrom
  rw [standsAt?, hfrom, List.append_assoc, sliceTo?_append]
  rfl

theorem keywordOffset?_eq (passed s : List Char) :
    keywordOffset? (passed.reverse ++ s) (byteLength passed.reverse) s =
      some ((keyword? passed s).map fun cut => byteLength cut.1) := by
  induction s generalizing passed with
  | nil => rfl
  | cons c s ih =>
    have hnext := ih (c :: passed)
    rw [List.reverse_cons, List.append_assoc, List.singleton_append, byteLength_append] at hnext
    have hsize : byteLength [c] = c.utf8Size := by simp [byteLength]
    rw [hsize] at hnext
    rw [keywordOffset?, keyword?]
    cases ha : after? "function".toList (c :: s) with
    | none =>
      have ha' : after? keyword (c :: s) = none := ha
      simp [ha', hnext]
    | some rest =>
      have ha' : after? keyword (c :: s) = some rest := ha
      have hs : c :: s = keyword ++ rest := after?_eq_some_iff.1 ha'
      have hstands := standsAt?_append passed.reverse rest
      rw [List.append_assoc, ← hs, List.getLast?_reverse] at hstands
      rw [ha', Option.isSome_some, if_pos rfl, hstands, Option.filter]
      by_cases hown : (!passed.head?.any isNameChar && rest.head?.any isBlank) = true
      · simp [hown]
      · simp [hown, hnext]

theorem closingOffset?_eq (s : List Char) :
    closingOffset? d position s = (closing? d s).map fun cut => position + byteLength cut.1 := by
  induction s generalizing d position with
  | nil => rfl
  | cons c s ih =>
    have hshift : (fun cut : List Char × List Char => position + c.utf8Size + byteLength cut.1) =
        (fun cut => position + byteLength cut.1) ∘ fun cut => (c :: cut.1, cut.2) := by
      funext cut
      simp only [Function.comp_apply, byteLength, Nat.add_assoc]
    by_cases hc : c = ')'
    · subst hc
      match d with
      | 0 => simp [closingOffset?, closing?]
      | 1 => simp [closingOffset?, closing?, byteLength]
      | d + 2 => simp only [closingOffset?, closing?, ↓reduceIte, ih, Option.map_map, hshift]
    · simp only [closingOffset?, closing?, hc, ↓reduceIte, ih, Option.map_map, hshift]

theorem keywordOffset?_zero (s : List Char) :
    keywordOffset? s 0 s = some ((keyword? [] s).map fun cut => byteLength cut.1) :=
  keywordOffset?_eq [] s

theorem trimWhere_of_eq_dropWhile {raw tail : List Char}
    (h : s.dropWhile isBlank = raw ++ tail) : trimWhere isBlank raw = trimEndWhere isBlank raw := by
  rw [trimWhere]
  congr 1
  cases raw with
  | nil => rfl
  | cons c raw =>
    have hhead := List.head?_dropWhile_not isBlank s
    rw [h] at hhead
    exact List.dropWhile_cons_of_neg (by simpa using hhead)

def behind? (b rest : List Char) : Option FunctionHeader := do
  let (name, rest) ← cutAt? '(' (rest.dropWhile isBlank)
  let name := trimEndWhere isBlank name
  if name.all isNameChar then
    let (params, rest) ← closing? 1 rest
    let after ← after? ['{'] (rest.dropWhile isBlank)
    some ⟨b, name, trimWhere isBlank params, after⟩
  else none

theorem find?_eq_bind (s : List Char) :
    find? s = (keyword? [] s).bind fun cut => behind? cut.1 cut.2 := rfl

theorem cutAtPlace?_of_eq {t after name params : List Char} (hs : s = b ++ t ++ after) :
    cutAtPlace? s ⟨byteLength b, byteLength s - byteLength after, name, params⟩ =
      some ⟨b, trimWhere isBlank name, trimWhere isBlank params, after⟩ := by
  have hstop : byteLength s - byteLength after = byteLength (b ++ t) := by
    rw [hs, byteLength_append (b ++ t)]
    omega
  have hto : sliceTo? (byteLength b) s = some b := by
    rw [hs, List.append_assoc, sliceTo?_append]
  have hfrom : sliceFrom? (byteLength (b ++ t)) s = some after := by
    rw [hs, sliceFrom?_append]
  rw [cutAtPlace?, hstop, hto, hfrom]
  rfl

theorem closingOffset?_group (tail : List Char) :
    closingOffset? 0 0 ('(' :: tail) = (closing? 1 tail).map fun cut => 1 + byteLength cut.1 := by
  have hgroup : closing? 0 ('(' :: tail) =
      (closing? 1 tail).map fun (inner, rest) => ('(' :: inner, rest) := by
    simp [closing?]
  rw [closingOffset?_eq, hgroup, Option.map_map]
  congr 1
  funext cut
  have hopen : '('.utf8Size = 1 := rfl
  simp [byteLength, hopen]

theorem slices_group (raw params rest : List Char) :
    slice? (byteLength raw + 1) (byteLength raw + (1 + byteLength params))
        (raw ++ '(' :: (params ++ ')' :: rest)) = some params ∧
      sliceFrom? (byteLength raw + (1 + byteLength params) + 1)
        (raw ++ '(' :: (params ++ ')' :: rest)) = some rest := by
  have hslice := slice?_append (raw ++ ['(']) params (')' :: rest)
  have hfrom := sliceFrom?_append (raw ++ ['('] ++ params ++ [')']) rest
  have hopen : byteLength ['('] = 1 := rfl
  have hclose : byteLength [')'] = 1 := rfl
  simp only [byteLength_append, hopen, hclose, List.append_assoc, List.singleton_append,
    Nat.add_assoc] at hslice hfrom ⊢
  exact ⟨hslice, hfrom⟩

theorem cutBehind?_eq (hs : s = b ++ keyword ++ rest) :
    cutBehind? s (byteLength b) = some (behind? b rest) := by
  have hbehind : sliceFrom? (byteLength b + byteLength keyword) s = some rest := by
    rw [hs, ← byteLength_append, sliceFrom?_append]
  obtain ⟨gap, -, hgap⟩ := exists_dropWhile isBlank rest
  rw [cutBehind?, locateBehind?, hbehind, behind?]
  simp only [Option.bind_eq_bind, Option.bind_some, offsetOf?_eq]
  cases hraw : cutAt? '(' (rest.dropWhile isBlank) with
  | none => rfl
  | some cut =>
    obtain ⟨raw, tail⟩ := cut
    obtain ⟨htrimmed, -⟩ := cutAt?_eq_some_iff.1 hraw
    simp only [Option.map_some, Option.bind_some, Nat.zero_add, htrimmed, sliceTo?_append,
      sliceFrom?_append, closingOffset?_group]
    split_ifs with hname
    · cases hparams : closing? 1 tail with
      | none => rfl
      | some cut =>
        obtain ⟨params, rest'⟩ := cut
        obtain rfl : tail = params ++ ')' :: rest' := (closing?_eq_some_iff.1 hparams).eq
        obtain ⟨hslice, hfrom⟩ := slices_group raw params rest'
        obtain ⟨gap', -, hgap'⟩ := exists_dropWhile isBlank rest'
        simp only [Option.map_some, Option.bind_some, hslice, hfrom]
        cases hafter : after? ['{'] (rest'.dropWhile isBlank) with
        | none => rfl
        | some after =>
          have hsplit : s = b ++ (keyword ++ gap ++ raw ++ '(' :: params ++ ')' :: gap' ++ ['{']) ++
              after := by
            rw [after?_eq_some_iff] at hafter
            rw [hs, hgap, htrimmed, hgap', hafter]
            simp
          simp only [Option.pure_def, Option.bind_some, cutAtPlace?_of_eq hsplit, Option.map_some,
            trimWhere_of_eq_dropWhile htrimmed]
    · rfl

/-- No slice of the search is out of range, and the search finds the header of a text. -/
theorem findBySlices?_eq (s : List Char) : findBySlices? s = some (find? s) := by
  rw [findBySlices?, keywordOffset?_zero, find?_eq_bind]
  cases hk : keyword? [] s with
  | none => rfl
  | some cut =>
    obtain ⟨b, rest⟩ := cut
    have hs : s = b ++ keyword ++ rest := (keyword?_iff.1 hk).eq
    exact cutBehind?_eq hs

/-- Letters of several bytes stand in front of the header, in its name and among its parameters. -/
example : findBySlices? "/* é */ function _日( ﬀ = g(1) ) \x7b\x7d".toList =
    some (some ⟨"/* é */ ".toList, "_日".toList, "ﬀ = g(1)".toList, ['\x7d']⟩) := by
  decide +kernel

end FunctionHeader

end CatalogLinker
