import CatalogLinker.Markup.Entity
import CatalogLinker.Proofs.Text.Blank

namespace CatalogLinker.Markup

namespace Entity

variable {s t u v : List Char} {c d : Char} {name : String}
  {total position start stop : Nat}

theorem encodeChar_cases (c : Char) :
    (∃ name, (name, c) ∈ named ∧ encodeChar c = '&' :: name.toList ++ [';']) ∨
      (c ∉ named.map Prod.snd ∧ encodeChar c = [c]) := by
  unfold encodeChar
  split
  · rename_i name d h
    have hmem := List.mem_of_find?_eq_some h
    have hd : d = c := by simpa using List.find?_some h
    exact .inl ⟨name, hd ▸ hmem, rfl⟩
  · rename_i h
    refine .inr ⟨fun hc => ?_, rfl⟩
    obtain ⟨e, he, rfl⟩ := List.mem_map.1 hc
    simpa using List.find?_eq_none.1 h e he

theorem decodeFrom_name (part name : List Char) (hname : ∀ c ∈ name, c ≠ '&' ∧ c ≠ ';') :
    decodeFrom total position (some (start, part)) (name ++ ';' :: s) = do
      let x ← resolve start (position + Text.byteLength name) (part.reverse ++ name)
      let rest ← decodeFrom total (position + Text.byteLength name + 1) none s
      return x :: rest := by
  induction name generalizing position part with
  | nil => simp [decodeFrom, Text.byteLength]; rfl
  | cons c name ih =>
    obtain ⟨hamp, hsemi⟩ := hname c List.mem_cons_self
    rw [List.cons_append, decodeFrom]
    simp only [hamp, hsemi, if_false]
    rw [ih _ fun d hd => hname d (List.mem_cons_of_mem c hd)]
    simp [Text.byteLength, Nat.add_assoc]

theorem resolve_named (h : (name, c) ∈ named) (start stop : Nat) :
    resolve start stop name.toList = .ok c := by
  simp only [named, List.mem_cons, Prod.mk.injEq, List.not_mem_nil, or_false] at h
  obtain ⟨rfl, rfl⟩ | ⟨rfl, rfl⟩ | ⟨rfl, rfl⟩ | ⟨rfl, rfl⟩ | ⟨rfl, rfl⟩ := h <;> rfl

theorem plain_of_named (h : (name, c) ∈ named) : ∀ d ∈ name.toList, d ≠ '&' ∧ d ≠ ';' := by
  have hplain : named.all fun e => e.1.toList.all fun d => d ≠ '&' ∧ d ≠ ';' := by decide
  simp only [List.all_eq_true, decide_eq_true_eq] at hplain
  exact hplain _ h

theorem decodeFrom_encodeChar (total position : Nat) (c : Char) (s : List Char) :
    ∃ next, decodeFrom total position none (encodeChar c ++ s) =
      (decodeFrom total next none s).map (c :: ·) := by
  obtain ⟨name, hname, hc⟩ | ⟨hmem, hc⟩ := encodeChar_cases c
  · refine ⟨position + 1 + Text.byteLength name.toList + 1, ?_⟩
    have hread : decodeFrom total position none ('&' :: (name.toList ++ ';' :: s)) =
        decodeFrom total (position + 1) (some (position, [])) (name.toList ++ ';' :: s) := rfl
    have hsplit : '&' :: name.toList ++ [';'] ++ s = '&' :: (name.toList ++ ';' :: s) := by simp
    rw [hc, hsplit, hread, decodeFrom_name [] _ (plain_of_named hname), List.reverse_nil,
      List.nil_append, resolve_named hname]
    cases decodeFrom total (position + 1 + Text.byteLength name.toList + 1) none s <;> rfl
  · refine ⟨position + c.utf8Size, ?_⟩
    have hamp : c ≠ '&' := fun h => hmem (h ▸ by decide)
    rw [hc, List.singleton_append, decodeFrom, if_neg hamp]

theorem decode_encode (s : List Char) : decode (encode s) = .ok s := by
  have h : ∀ total position, decodeFrom total position none (encode s) = .ok s := by
    induction s with
    | nil => exact fun _ _ => rfl
    | cons c s ih =>
      intro total position
      obtain ⟨next, hnext⟩ := decodeFrom_encodeChar total position c (encode s)
      rw [encode, List.flatMap_cons, ← encode, hnext, ih]
      rfl
  exact h _ _

/-- Where an entity stands matters to reports only. -/
theorem resolve_eq_ok {name : List Char} (h : resolve start stop name = .ok c)
    (start' stop' : Nat) : resolve start' stop' name = .ok c := by
  unfold resolve at h ⊢
  split
  · rename_i digits
    cases hcode : code digits with
    | error e => simp [hcode, bind, Except.bind] at h
    | ok n =>
      simp only [hcode, bind, Except.bind] at h ⊢
      split_ifs at h ⊢
      exact h
  · cases hname : named.lookup (String.ofList name) with
    | none => simp [hname] at h
    | some d => simpa [hname] using h

/-- A text that can be read is read in front of any other, wherever it stands. -/
theorem decodeFrom_append {entity : Option (Nat × List Char)}
    (h : decodeFrom total position entity s = .ok t) (total' position' start' : Nat)
    (rest : List Char) :
    ∃ next, decodeFrom total' position' (entity.map fun e => (start', e.2)) (s ++ rest) =
      (decodeFrom total' next none rest).map (t ++ ·) := by
  induction s generalizing position entity t position' start' with
  | nil =>
    cases entity with
    | some e => simp [decodeFrom] at h
    | none =>
      obtain rfl : [] = t := by simpa [decodeFrom] using h
      refine ⟨position', ?_⟩
      cases hrest : decodeFrom total' position' none rest <;> simp [hrest, Except.map]
  | cons c s ih =>
    rw [decodeFrom.eq_def] at h
    cases entity with
    | none =>
      dsimp only at h
      split_ifs at h with hamp
      · obtain ⟨next, hnext⟩ := ih h (position' + c.utf8Size) position'
        exact ⟨next, by simpa [decodeFrom, hamp] using hnext⟩
      · cases hs : decodeFrom total (position + c.utf8Size) none s with
        | error e => simp [hs, Except.map] at h
        | ok t' =>
          obtain rfl : c :: t' = t := by simpa [hs, Except.map] using h
          obtain ⟨next, hnext⟩ := ih hs (position' + c.utf8Size) start'
          refine ⟨next, ?_⟩
          rw [Option.map_none] at hnext ⊢
          rw [List.cons_append, decodeFrom]
          simp only [if_neg hamp, hnext]
          cases decodeFrom total' next none rest <;> rfl
    | some e =>
      obtain ⟨start, name⟩ := e
      dsimp only at h
      split_ifs at h with hamp hsemi
      · cases hx : resolve start position name.reverse with
        | error e => simp [hx, bind, Except.bind] at h
        | ok x =>
          cases hs : decodeFrom total (position + c.utf8Size) none s with
          | error e => simp [hx, hs, bind, Except.bind] at h
          | ok t' =>
            obtain rfl : x :: t' = t := by
              simpa [hx, hs, bind, Except.bind, pure, Except.pure] using h
            obtain ⟨next, hnext⟩ := ih hs (position' + c.utf8Size) start'
            refine ⟨next, ?_⟩
            rw [Option.map_none] at hnext
            rw [List.cons_append, decodeFrom.eq_def]
            simp only [Option.map_some, if_neg hamp, if_pos hsemi,
              resolve_eq_ok hx start' position', hnext, bind, Except.bind]
            cases decodeFrom total' next none rest <;> rfl
      · obtain ⟨next, hnext⟩ := ih h (position' + c.utf8Size) start'
        refine ⟨next, ?_⟩
        rw [List.cons_append, decodeFrom.eq_def]
        simpa only [Option.map_some, if_neg hamp, if_neg hsemi] using hnext

theorem decodeFrom_plain (hs : ∀ c ∈ s, c ≠ '&') : decodeFrom total position none s = .ok s := by
  induction s generalizing position with
  | nil => rfl
  | cons c s ih =>
    rw [decodeFrom]
    simp only [if_neg (hs c List.mem_cons_self), ih fun d hd => hs d (List.mem_cons_of_mem c hd)]
    rfl

theorem decode_between (hu : ∀ c ∈ u, c ≠ '&') (hv : ∀ c ∈ v, c ≠ '&') (h : decode s = .ok t) :
    decode (u ++ s ++ v) = .ok (u ++ t ++ v) := by
  have hplain : ∀ {w : List Char}, (∀ c ∈ w, c ≠ '&') → decode w = .ok w := decodeFrom_plain
  obtain ⟨next, hstart⟩ :=
    decodeFrom_append (hplain hu) (Text.byteLength (u ++ s ++ v)) 0 0 (s ++ v)
  obtain ⟨next', hmiddle⟩ := decodeFrom_append h (Text.byteLength (u ++ s ++ v)) next 0 v
  rw [Option.map_none] at hstart hmiddle
  rw [← List.append_assoc] at hstart
  rw [decode, hstart, hmiddle, decodeFrom_plain hv]
  simp [Except.map]

theorem plain_of_mem_encode (h : d ∈ encode s) : d ≠ '<' ∧ d ≠ '>' ∧ d ≠ '"' ∧ d ≠ '\'' := by
  obtain ⟨c, -, hd⟩ := List.mem_flatMap.1 h
  obtain ⟨name, hname, hc⟩ | ⟨hmem, hc⟩ := encodeChar_cases c
  · have hplain : named.all fun e => ('&' :: e.1.toList ++ [';']).all
        fun d => d ≠ '<' ∧ d ≠ '>' ∧ d ≠ '"' ∧ d ≠ '\'' := by decide
    simp only [List.all_eq_true, decide_eq_true_eq] at hplain
    exact hplain _ hname d (hc ▸ hd)
  · obtain rfl : d = c := List.mem_singleton.1 (hc ▸ hd)
    have hne : ∀ e ∈ named.map Prod.snd, d ≠ e := fun e he hd => hmem (hd ▸ he)
    exact ⟨hne _ (by decide), hne _ (by decide), hne _ (by decide), hne _ (by decide)⟩

theorem encodeChar_ne_nil (c : Char) : encodeChar c ≠ [] := by
  obtain ⟨name, -, hc⟩ | ⟨-, hc⟩ := encodeChar_cases c <;> simp [hc]

theorem isTrimmed_encodeChar (h : ¬isBlank c) : Text.IsTrimmed isBlank (encodeChar c) := by
  obtain ⟨name, hname, hc⟩ | ⟨hmem, hc⟩ := encodeChar_cases c
  · rw [hc, Text.IsTrimmed, List.getLast?_append]
    exact ⟨Bool.false_ne_true, Bool.false_ne_true⟩
  · simpa [hc, Text.IsTrimmed] using h

theorem isTrimmed_encode (h : Text.IsTrimmed isBlank s) : Text.IsTrimmed isBlank (encode s) := by
  obtain ⟨hhead, hlast⟩ := h
  constructor
  · cases s with
    | nil => exact hhead
    | cons c s =>
      rw [encode, List.flatMap_cons, List.head?_append_of_ne_nil _ (encodeChar_ne_nil c)]
      exact (isTrimmed_encodeChar (by simpa using hhead)).1
  · obtain rfl | ⟨s, c, rfl⟩ := s.eq_nil_or_concat'
    · exact hlast
    · rw [encode, List.flatMap_append, List.flatMap_singleton,
        List.getLast?_append_of_ne_nil _ (encodeChar_ne_nil c)]
      exact (isTrimmed_encodeChar (by simpa using hlast)).2

end Entity

theorem isBlank_of_markup {c : Char} (h : isBlank c) : Text.isBlank c := by
  simp only [isBlank, Bool.or_eq_true, beq_iff_eq] at h
  obtain ((rfl | rfl) | rfl) | rfl := h <;> decide

theorem isTrimmed_of_text {s : List Char} (h : Text.IsTrimmed Text.isBlank s) :
    Text.IsTrimmed isBlank s :=
  h.mono fun _ => isBlank_of_markup

theorem trim_eq_self {s : List Char} (h : Text.IsTrimmed isBlank s) : trim s = s :=
  Text.trimWhere_eq_self h

end CatalogLinker.Markup
