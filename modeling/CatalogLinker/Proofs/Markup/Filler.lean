import CatalogLinker.Proofs.Markup.Writing

namespace CatalogLinker.Markup

def balanced : Nat → List Char → Bool
  | depth, [] => depth = 0
  | depth, c :: s =>
    if c = '>' then
      match depth with
      | 0 => false
      | depth + 1 => balanced depth s
    else balanced (if c = '<' then depth + 1 else depth) s

inductive Filler : List Char → Prop
  | nil : Filler []
  | blank {c : Char} {s : List Char} : isBlank c → Filler s → Filler (c :: s)
  | comment {body s : List Char} : ¬['-', '-', '>'] <:+: body → Filler s →
      Filler ("<!--".toList ++ body ++ "-->".toList ++ s)
  | instruction {body s : List Char} : body ≠ [] → '>' ∉ body → Filler s →
      Filler ("<?".toList ++ body ++ "?>".toList ++ s)
  | doctype {body s : List Char} : Text.beginsWithLetters "DOCTYPE".toList body →
      ¬(body.drop 7).all isBlank → balanced 0 body → Filler s →
      Filler ("<!".toList ++ body ++ ">".toList ++ s)

namespace Piece

def isText : Piece → Bool
  | text _ => true
  | _ => false

def isFiller : Piece → Bool
  | text raw => raw.all isBlank
  | skipped => true
  | _ => false

end Piece

/-- The pieces that a text can go on with where the input stands. -/
def Mode.leadsTo : Mode → Piece → Bool
  | .text _, _ => true
  | .cdata _, p => !p.isText && p ≠ .skipped
  | .closing _, p => !p.isText && p ≠ .skipped
  | .tag _ _, p => !p.isText && p ≠ .skipped
  | _, p => !p.isText

/-- What reading a character does: it goes on within a piece, ends one, or fails. Behind a piece
other than a run of text the input is read as from the start. -/
inductive Reads (m : Mode) (c : Char) : Prop
  | within (m' : Mode) : (∀ p, m'.leadsTo p → m.leadsTo p) →
      (∀ s, scan m (c :: s) = scan m' s) → Reads m c
  | ends (p : Piece) (m' : Mode) : m.leadsTo p → (p.isText ∨ m' = .text []) →
      (∀ s, scan m (c :: s) = .cons p (scan m' s)) → Reads m c
  | fails (e : MarkupError) : (∀ s, scan m (c :: s) = .failed e) → Reads m c

variable {m : Mode} {c : Char} {s part body rest raw : List Char} {p : Piece} {l l₁ l₂ : List Piece}

section Pieces

@[simp] theorem list_foldr_cons (ps : Pieces) : (l.foldr Pieces.cons ps).list = l ++ ps.list := by
  induction l with
  | nil => rfl
  | cons p l ih => rw [List.foldr_cons, Pieces.cons, ih, List.cons_append]

@[simp] theorem error_foldr_cons (ps : Pieces) : (l.foldr Pieces.cons ps).error = ps.error := by
  induction l with
  | nil => rfl
  | cons p l ih => exact ih

end Pieces

theorem not_isText_of_leadsTo (hm : ¬m.leadsTo (.text [])) (p : Piece) (h : m.leadsTo p) :
    !p.isText := by
  cases m with
  | text part => exact absurd rfl hm
  | cdata part => exact (Bool.and_eq_true_iff.1 h).1
  | closing part => exact (Bool.and_eq_true_iff.1 h).1
  | tag part quote => exact (Bool.and_eq_true_iff.1 h).1
  | _ => exact h

theorem reads (m : Mode) (c : Char) : Reads m c := by
  cases m with
  | text part =>
    by_cases hc : c = '<'
    · by_cases hp : part.reverse.isEmpty
      · exact .within .opened (fun _ _ => rfl) fun s => by
          rw [scan, if_pos hc, Pieces.consText, if_pos hp]
      · exact .ends (.text part.reverse) .opened rfl (.inl rfl) fun s => by
          rw [scan, if_pos hc, Pieces.consText, if_neg hp]
    · exact .within (.text (c :: part)) (fun _ _ => rfl) fun s => by rw [scan, if_neg hc]
  | opened =>
    by_cases hbang : c = '!'
    · exact .within .bang (not_isText_of_leadsTo Bool.false_ne_true) fun s => by
        rw [scan, if_pos hbang]
    by_cases hclosing : c = '/'
    · exact .within (.closing []) (not_isText_of_leadsTo Bool.false_ne_true) fun s => by
        rw [scan, if_neg hbang, if_pos hclosing]
    by_cases hinstruction : c = '?'
    · exact .within (.instruction [c]) (not_isText_of_leadsTo Bool.false_ne_true) fun s => by
        rw [scan, if_neg hbang, if_neg hclosing, if_pos hinstruction]
    by_cases hend : c = '>'
    · exact .ends (.tag []) _ rfl (.inr rfl) fun s => by
        rw [scan, if_neg hbang, if_neg hclosing, if_neg hinstruction, if_pos hend]
    · exact .within (.tag [c] (quoteAfter none c)) (not_isText_of_leadsTo Bool.false_ne_true)
        fun s => by rw [scan, if_neg hbang, if_neg hclosing, if_neg hinstruction, if_neg hend]
  | bang =>
    by_cases hcdata : c = '['
    · exact .within (.cdata [c]) (not_isText_of_leadsTo Bool.false_ne_true) fun s => by
        rw [scan, if_pos hcdata]
    by_cases hcomment : c = '-'
    · exact .within (.comment [c]) (not_isText_of_leadsTo Bool.false_ne_true) fun s => by
        rw [scan, if_neg hcdata, if_pos hcomment]
    by_cases hdoctype : c = 'D' ∨ c = 'd'
    · exact .within (.doctype [c] 0) (not_isText_of_leadsTo Bool.false_ne_true) fun s => by
        rw [scan, if_neg hcdata, if_neg hcomment, if_pos hdoctype]
    · exact .fails _ fun s => by rw [scan, if_neg hcdata, if_neg hcomment, if_neg hdoctype]
  | cdata part =>
    by_cases hc : c = '>' ∧ part.take 2 = [']', ']']
    · cases hcontent : cdataContent? part.reverse with
      | some content =>
        exact .ends (.cdata content) _ rfl (.inr rfl) fun s => by rw [scan, if_pos hc, hcontent]
      | none => exact .fails _ fun s => by rw [scan, if_pos hc, hcontent, Pieces.cutOff]
    · exact .within (.cdata (c :: part)) (fun _ h => h) fun s => by rw [scan, if_neg hc]
  | comment part =>
    by_cases hc : c = '>' ∧ part.take 2 = ['-', '-'] ∧ part.length ≥ 4
    · by_cases hstart : part.reverse.take 2 = ['-', '-']
      · exact .ends .skipped _ rfl (.inr rfl) fun s => by rw [scan, if_pos hc, if_pos hstart]
      · exact .fails _ fun s => by rw [scan, if_pos hc, if_neg hstart, Pieces.cutOff]
    · exact .within (.comment (c :: part)) (fun _ h => h) fun s => by rw [scan, if_neg hc]
  | doctype part depth =>
    by_cases hc : c = '>'
    · cases depth with
      | zero =>
        cases herror : doctypeError? part.reverse with
        | some e => exact .fails e fun s => by simp [scan, hc, herror]
        | none => exact .ends .skipped _ rfl (.inr rfl) fun s => by simp [scan, hc, herror]
      | succ depth =>
        exact .within (.doctype (c :: part) depth) (fun _ h => h) fun s => by simp [scan, hc]
    · exact .within (.doctype (c :: part) (if c = '<' then depth + 1 else depth)) (fun _ h => h)
        fun s => by simp [scan, hc]
  | instruction part =>
    by_cases hc : c = '>'
    · by_cases hi : isInstruction part.reverse
      · exact .ends .skipped _ rfl (.inr rfl) fun s => by rw [scan, if_pos hc, if_pos hi]
      · exact .fails _ fun s => by rw [scan, if_pos hc, if_neg hi, Pieces.cutOff]
    · exact .within (.instruction (c :: part)) (fun _ h => h) fun s => by rw [scan, if_neg hc]
  | closing part =>
    by_cases hc : c = '>'
    · exact .ends (.closing part.reverse) _ rfl (.inr rfl) fun s => by rw [scan, if_pos hc]
    · exact .within (.closing (c :: part)) (fun _ h => h) fun s => by rw [scan, if_neg hc]
  | tag part quote =>
    by_cases hc : c = '>' ∧ quote = none
    · exact .ends (.tag part.reverse) _ rfl (.inr rfl) fun s => by rw [scan, if_pos hc]
    · exact .within (.tag (c :: part) (quoteAfter quote c)) (fun _ h => h) fun s => by
        rw [scan, if_neg hc]

theorem scan_nil (m : Mode) :
    scan m [] = {} ∨ (∃ p, scan m [] = .cons p {}) ∨ ∃ e, scan m [] = .failed e := by
  cases m with
  | text part =>
    rw [scan, Pieces.consText]
    split
    · exact .inl rfl
    · exact .inr (.inl ⟨_, rfl⟩)
  | instruction part =>
    rw [scan]
    split
    · exact .inr (.inl ⟨_, rfl⟩)
    · exact .inr (.inr ⟨_, rfl⟩)
  | opened => exact .inl rfl
  | closing part => exact .inr (.inl ⟨_, rfl⟩)
  | bang => exact .inr (.inr ⟨_, rfl⟩)
  | cdata part => exact .inr (.inr ⟨_, rfl⟩)
  | comment part => exact .inr (.inr ⟨_, rfl⟩)
  | doctype part depth => exact .inr (.inr ⟨_, rfl⟩)
  | tag part quote => exact .inr (.inr ⟨_, rfl⟩)

/-- Pieces up to one that is not a run of text come from the start of the input, whatever follows
it, unless the end of the input ends the last of them. -/
theorem scan_split (hp : ¬p.isText) (h : (scan m s).list = l₁ ++ p :: l₂) :
    (∃ u v, s = u ++ v ∧
      ∀ v', scan m (u ++ v') = (l₁ ++ [p]).foldr Pieces.cons (scan (.text []) v')) ∨
    scan m s = (l₁ ++ [p]).foldr Pieces.cons {} := by
  induction s generalizing m l₁ with
  | nil =>
    obtain hm | ⟨q, hm⟩ | ⟨e, hm⟩ := scan_nil m
    · rw [hm] at h
      exact absurd h (List.append_ne_nil_of_right_ne_nil _ (List.cons_ne_nil _ _)).symm
    · rw [hm] at h
      cases l₁ with
      | nil =>
        obtain rfl : q = p := (List.cons.inj h).1
        exact .inr hm
      | cons q' l₁ =>
        have hnil : [] = l₁ ++ p :: l₂ := (List.cons.inj h).2
        simp at hnil
    · rw [hm] at h
      exact absurd h (List.append_ne_nil_of_right_ne_nil _ (List.cons_ne_nil _ _)).symm
  | cons c s ih =>
    cases reads m c with
    | within m' _ hm =>
      rw [hm] at h
      obtain ⟨u, v, rfl, hu⟩ | hs := ih h
      · exact .inl ⟨c :: u, v, rfl, fun v' => (hm _).trans (hu v')⟩
      · exact .inr ((hm _).trans hs)
    | ends q m' _ hq hm =>
      rw [hm] at h
      cases l₁ with
      | nil =>
        obtain rfl : q = p := (List.cons.inj h).1
        obtain rfl := hq.resolve_left hp
        exact .inl ⟨[c], s, rfl, fun v' => hm v'⟩
      | cons q' l₁ =>
        obtain ⟨rfl, hrest⟩ := List.cons.inj h
        obtain ⟨u, v, rfl, hu⟩ | hs := ih hrest
        · refine .inl ⟨c :: u, v, rfl, fun v' => ?_⟩
          rw [List.cons_append, hm, hu]
          rfl
        · exact .inr (by rw [hm, hs]; rfl)
    | fails e hm =>
      rw [hm] at h
      exact absurd h (List.append_ne_nil_of_right_ne_nil _ (List.cons_ne_nil _ _)).symm

theorem leadsTo_of_scan (h : (scan m s).list = p :: l) : m.leadsTo p := by
  induction s generalizing m with
  | nil =>
    cases m with
    | text part => rfl
    | closing part =>
      obtain rfl : .closing part.reverse = p := (List.cons.inj h).1
      rfl
    | instruction part =>
      rw [scan] at h
      split at h
      · obtain rfl : .skipped = p := (List.cons.inj h).1
        rfl
      · exact absurd h.symm (List.cons_ne_nil _ _)
    | _ => exact absurd h.symm (List.cons_ne_nil _ _)
  | cons c s ih =>
    cases reads m c with
    | within m' hkeeps hm => exact hkeeps p (ih (hm s ▸ h))
    | ends q m' hq _ hm =>
      rw [hm] at h
      obtain rfl : q = p := (List.cons.inj h).1
      exact hq
    | fails e hm =>
      rw [hm] at h
      exact absurd h.symm (List.cons_ne_nil _ _)

section Skipped

def ClosesComment (s : List Char) : Prop :=
  s.reverse.take 2 = ['-', '-'] ∧ s.length ≥ 4

theorem scan_comment_ne_nil (h : (scan (.comment part) s).list ≠ []) :
    ∃ body rest, s = body ++ '>' :: rest ∧
      scan (.comment part) s = .cons .skipped (scan (.text []) rest) ∧
      ClosesComment (part.reverse ++ body) ∧ (part.reverse ++ body).take 2 = ['-', '-'] ∧
      ∀ x y, body = x ++ '>' :: y → ¬ClosesComment (part.reverse ++ x) := by
  induction s generalizing part with
  | nil => exact absurd rfl h
  | cons c s ih =>
    rw [scan] at h ⊢
    by_cases hc : c = '>' ∧ part.take 2 = ['-', '-'] ∧ part.length ≥ 4
    · rw [if_pos hc] at h ⊢
      by_cases hstart : part.reverse.take 2 = ['-', '-']
      · rw [if_pos hstart]
        exact ⟨[], s, by rw [hc.1, List.nil_append], rfl, by simpa [ClosesComment] using hc.2,
          by simpa using hstart, by simp⟩
      · rw [if_neg hstart] at h
        exact absurd rfl h
    · rw [if_neg hc] at h ⊢
      obtain ⟨body, rest, rfl, hscan, hcloses, hstart, hfirst⟩ := ih h
      refine ⟨c :: body, rest, rfl, hscan, by simpa using hcloses, by simpa using hstart, ?_⟩
      intro x y hxy
      cases x with
      | nil =>
        obtain rfl : c = '>' := (List.cons.inj hxy).1
        simpa [ClosesComment] using hc
      | cons d x =>
        obtain ⟨rfl, hbody⟩ := List.cons.inj hxy
        simpa using hfirst x y hbody

theorem scan_instruction_ne_nil (h : (scan (.instruction part) s).list ≠ []) :
    (∃ body rest, s = body ++ '>' :: rest ∧ '>' ∉ body ∧ isInstruction (part.reverse ++ body) ∧
      scan (.instruction part) s = .cons .skipped (scan (.text []) rest)) ∨
    scan (.instruction part) s = .cons .skipped {} := by
  induction s generalizing part with
  | nil =>
    rw [scan] at h ⊢
    split_ifs at h ⊢
    · exact .inr rfl
    · exact absurd rfl h
  | cons c s ih =>
    rw [scan] at h ⊢
    by_cases hc : c = '>'
    · rw [if_pos hc] at h ⊢
      by_cases hi : isInstruction part.reverse
      · rw [if_pos hi]
        exact .inl ⟨[], s, by rw [hc, List.nil_append], List.not_mem_nil, by simpa using hi, rfl⟩
      · rw [if_neg hi] at h
        exact absurd rfl h
    · rw [if_neg hc] at h ⊢
      refine (ih h).imp_left ?_
      rintro ⟨body, rest, rfl, hbody, hi, hscan⟩
      refine ⟨c :: body, rest, rfl, ?_, by simpa using hi, hscan⟩
      simpa [eq_comm, hc] using hbody

theorem scan_doctype_ne_nil {depth : Nat} (h : (scan (.doctype part depth) s).list ≠ []) :
    ∃ body rest, s = body ++ '>' :: rest ∧ balanced depth body ∧
      doctypeError? (part.reverse ++ body) = none ∧
      scan (.doctype part depth) s = .cons .skipped (scan (.text []) rest) := by
  induction s generalizing part depth with
  | nil => exact absurd rfl h
  | cons c s ih =>
    by_cases hc : c = '>'
    · subst hc
      cases depth with
      | zero =>
        cases herror : doctypeError? part.reverse with
        | some e => simp [scan, herror, Pieces.failed] at h
        | none => exact ⟨[], s, rfl, rfl, by simpa using herror, by simp [scan, herror]⟩
      | succ depth =>
        have hscan : scan (.doctype part (depth + 1)) ('>' :: s) =
            scan (.doctype ('>' :: part) depth) s := by simp [scan]
        rw [hscan] at h ⊢
        obtain ⟨body, rest, rfl, hbody, herror, hs⟩ := ih h
        exact ⟨'>' :: body, rest, rfl, by simpa [balanced] using hbody, by simpa using herror, hs⟩
    · have hscan : scan (.doctype part depth) (c :: s) =
          scan (.doctype (c :: part) (if c = '<' then depth + 1 else depth)) s := by
        simp [scan, hc]
      rw [hscan] at h ⊢
      obtain ⟨body, rest, rfl, hbody, herror, hs⟩ := ih h
      exact ⟨c :: body, rest, rfl, by simpa [balanced, hc] using hbody, by simpa using herror,
        hs⟩

theorem exists_comment_body (hcloses : ClosesComment ('-' :: body))
    (hstart : ('-' :: body).take 2 = ['-', '-'])
    (hfirst : ∀ x y, body = x ++ '>' :: y → ¬ClosesComment ('-' :: x)) :
    ∃ b, body = '-' :: b ++ ['-', '-'] ∧ ¬['-', '-', '>'] <:+: b := by
  obtain ⟨hend, hlength⟩ := hcloses
  obtain ⟨e, rfl⟩ : ∃ e, body = '-' :: e := by
    cases body with
    | nil => simp at hlength
    | cons c e =>
      obtain rfl : c = '-' := by simpa using hstart
      exact ⟨e, rfl⟩
  obtain ⟨b, rfl⟩ : ['-', '-'] <:+ e := by
    have hsuffix : ['-', '-'] <:+ '-' :: '-' :: e := by
      rw [← List.reverse_prefix, List.prefix_iff_eq_take]
      simpa using hend.symm
    refine List.suffix_of_suffix_length_le hsuffix (List.suffix_append ['-', '-'] e) ?_
    simpa using hlength
  refine ⟨b, rfl, ?_⟩
  rintro ⟨x, y, rfl⟩
  refine hfirst ('-' :: x ++ ['-', '-']) (y ++ ['-', '-']) (by simp) ?_
  simp [ClosesComment]

theorem exists_instruction_body (hi : isInstruction ('?' :: body)) :
    ∃ b, body = b ++ ['?'] ∧ b ≠ [] := by
  obtain ⟨hlength, hlast⟩ : 2 < ('?' :: body).length ∧ ('?' :: body).getLast? = some '?' := by
    simpa [isInstruction] using hi
  obtain rfl | ⟨b, c, rfl⟩ := body.eq_nil_or_concat'
  · simp at hlength
  · rw [← List.cons_append, List.getLast?_concat] at hlast
    obtain rfl : c = '?' := Option.some.inj hlast
    refine ⟨b, rfl, ?_⟩
    rintro rfl
    simp at hlength

theorem doctypeError?_eq_none (h : doctypeError? s = none) :
    Text.beginsWithLetters "DOCTYPE".toList s ∧ ¬(s.drop 7).all isBlank := by
  rw [doctypeError?] at h
  split_ifs at h with hletters hblank
  exact ⟨by simpa using hletters, hblank⟩

theorem filler_of_bang (h : (scan .bang s).list = .skipped :: l) :
    ∃ u rest, s = u ++ rest ∧ (∀ f, Filler f → Filler ('<' :: '!' :: u ++ f)) ∧
      scan .bang s = .cons .skipped (scan (.text []) rest) := by
  cases s with
  | nil => exact absurd h.symm (List.cons_ne_nil _ _)
  | cons c s =>
    rw [scan] at h ⊢
    split_ifs at h ⊢ with hcdata hcomment hdoctype
    · exact absurd (leadsTo_of_scan h) Bool.false_ne_true
    · obtain ⟨body, rest, rfl, hscan, hcloses, hstart, hfirst⟩ :=
        scan_comment_ne_nil (by rw [h]; exact List.cons_ne_nil _ _)
      subst hcomment
      obtain ⟨b, rfl, hb⟩ := exists_comment_body hcloses hstart hfirst
      refine ⟨"--".toList ++ b ++ "-->".toList, rest, by simp, fun f hf => ?_, hscan⟩
      simpa using Filler.comment hb hf
    · obtain ⟨body, rest, rfl, hbody, herror, hscan⟩ :=
        scan_doctype_ne_nil (by rw [h]; exact List.cons_ne_nil _ _)
      obtain ⟨hletters, hblank⟩ := doctypeError?_eq_none herror
      have hbalanced : balanced 0 (c :: body) := by
        obtain rfl | rfl := hdoctype <;> simpa [balanced] using hbody
      refine ⟨c :: body ++ ['>'], rest, by simp, fun f hf => ?_, hscan⟩
      simpa using Filler.doctype hletters hblank hbalanced hf
    · exact absurd h.symm (List.cons_ne_nil _ _)

theorem filler_of_opened (h : (scan .opened s).list = .skipped :: l) (hl : l ≠ []) :
    ∃ u rest, s = u ++ rest ∧ (∀ f, Filler f → Filler ('<' :: u ++ f)) ∧
      scan .opened s = .cons .skipped (scan (.text []) rest) := by
  cases s with
  | nil => exact absurd h.symm (List.cons_ne_nil _ _)
  | cons c s =>
    rw [scan] at h ⊢
    split_ifs at h ⊢ with hbang hclosing hinstruction hend
    · subst hbang
      obtain ⟨u, rest, rfl, hu, hscan⟩ := filler_of_bang h
      exact ⟨'!' :: u, rest, rfl, hu, hscan⟩
    · exact absurd (leadsTo_of_scan h) Bool.false_ne_true
    · subst hinstruction
      obtain ⟨body, rest, rfl, hbody, hi, hscan⟩ | hscan :=
        scan_instruction_ne_nil (by rw [h]; exact List.cons_ne_nil _ _)
      · obtain ⟨b, rfl, hb⟩ := exists_instruction_body hi
        have hmem : '>' ∉ b := fun hmem => hbody (List.mem_append_left _ hmem)
        refine ⟨'?' :: b ++ "?>".toList, rest, by simp, fun f hf => ?_, hscan⟩
        simpa using Filler.instruction hb hmem hf
      · rw [hscan] at h
        exact absurd (List.cons.inj h).2.symm hl
    · exact absurd (List.cons.inj h).1 Piece.noConfusion
    · exact absurd (leadsTo_of_scan h) Bool.false_ne_true

end Skipped

theorem Filler.blanks (hs : ∀ c ∈ s, isBlank c) (h : Filler rest) : Filler (s ++ rest) := by
  induction s with
  | nil => exact h
  | cons c s ih =>
    exact .blank (hs c List.mem_cons_self) (ih fun d hd => hs d (List.mem_cons_of_mem c hd))

theorem scan_text_end (hs : '<' ∉ s) : scan (.text part) s = .consText (part.reverse ++ s) {} := by
  induction s generalizing part with
  | nil => rw [scan, List.append_nil]
  | cons c s ih =>
    have hc : c ≠ '<' := fun h => hs (h ▸ List.mem_cons_self)
    rw [scan, if_neg hc, ih fun hmem => hs (List.mem_cons_of_mem c hmem)]
    simp

theorem exists_run {x : List Char} (h : .tag x ∈ (scan (.text []) s).list) :
    ∃ run rest, s = run ++ '<' :: rest ∧
      scan (.text []) s = .consText run (scan .opened rest) := by
  by_cases hs : '<' ∈ s
  · obtain ⟨run, rest, rfl, hrun⟩ := List.eq_append_cons_of_mem hs
    exact ⟨run, rest, rfl, scan_text fun c hc hlt => hrun (hlt ▸ hc)⟩
  · rw [scan_text_end hs, Pieces.consText] at h
    split at h
    · exact absurd h List.not_mem_nil
    · exact absurd (List.mem_singleton.1 h) Piece.noConfusion

theorem filler_of_scan {x : List Char} (h : (scan (.text []) s).list = l₁ ++ .tag x :: l₂)
    (hl : ∀ q ∈ l₁, q.isFiller) :
    ∃ before after, s = before ++ '<' :: after ∧ Filler before ∧
      scan (.text []) s = l₁.foldr Pieces.cons (scan .opened after) := by
  -- A run of text and what is passed over behind it are cut off together.
  induction hn : l₁.length using Nat.strong_induction_on generalizing s l₁ with
  | _ n ih =>
    have hopened : ∀ {l rest}, l.length ≤ n → (∀ q ∈ l, q.isFiller) →
        (scan .opened rest).list = l ++ .tag x :: l₂ →
        ∃ before after, '<' :: rest = before ++ '<' :: after ∧ Filler before ∧
          scan .opened rest = l.foldr Pieces.cons (scan .opened after) := by
      intro l rest hlength hl hrest
      cases l with
      | nil => exact ⟨[], rest, rfl, .nil, rfl⟩
      | cons q l =>
        have hlead := leadsTo_of_scan hrest
        have hq := hl q List.mem_cons_self
        obtain rfl : q = .skipped := by
          cases q <;> simp_all [Piece.isFiller, Mode.leadsTo, Piece.isText]
        obtain ⟨u, rest', rfl, hu, hscan⟩ :=
          filler_of_opened hrest (List.append_ne_nil_of_right_ne_nil _ (List.cons_ne_nil _ _))
        rw [hscan] at hrest
        obtain ⟨before, after, rfl, hbefore, hscan'⟩ := ih l.length hlength
          (List.cons.inj hrest).2 (fun q hq => hl q (List.mem_cons_of_mem _ hq)) rfl
        exact ⟨'<' :: u ++ before, after, by simp, hu _ hbefore, by rw [hscan, hscan']; rfl⟩
    obtain ⟨run, rest, rfl, hscan⟩ := exists_run (s := s) (x := x) (by simp [h])
    rw [hscan, Pieces.consText] at h ⊢
    by_cases hempty : run.isEmpty
    · rw [if_pos hempty] at h ⊢
      obtain rfl := List.isEmpty_iff.1 hempty
      exact hopened hn.le hl h
    · rw [if_neg hempty] at h ⊢
      cases l₁ with
      | nil => exact absurd (List.cons.inj h).1 Piece.noConfusion
      | cons q l =>
        obtain ⟨rfl, hrest⟩ := List.cons.inj h
        obtain ⟨before, after, heq, hbefore, hscan'⟩ := hopened (Nat.le_of_succ_le hn.le)
          (fun q hq => hl q (List.mem_cons_of_mem _ hq)) hrest
        have hblank : ∀ c ∈ run, isBlank c := List.all_eq_true.1 (hl _ List.mem_cons_self)
        exact ⟨run ++ before, after, by rw [heq, List.append_assoc], hbefore.blanks hblank,
          by rw [hscan']; rfl⟩

end CatalogLinker.Markup
