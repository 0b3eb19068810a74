import CatalogLinker.Catalog.Document
import CatalogLinker.Proofs.Markup.Entity
import CatalogLinker.Proofs.Outcome

namespace CatalogLinker

namespace Markup

def Pieces.unskipped (ps : Pieces) : Pieces :=
  { ps with list := ps.list.filter (· ≠ .skipped) }

namespace Document

theorem build_filter (outer : List OpenElement) (content : List Node) (ending : Ending)
    (ps : List Piece) :
    build outer content ending (ps.filter (· ≠ .skipped)) = build outer content ending ps := by
  induction ps generalizing outer content with
  | nil => rfl
  | cons p ps ih =>
    simp only [ne_eq, decide_not] at ih ⊢
    cases p <;> simp [build, ih]

def unskipped (s : String) : Document :=
  ofPieces (Pieces.ofChars s.toList).unskipped

theorem unskipped_eq (s : String) : unskipped s = ofText s :=
  build_filter [] [] _ (Pieces.ofChars s.toList).list

end Document

end Markup

open Markup (Node Tag Ending)

namespace Document

/-- A character of the content of an element, and whether it is in the text that the element
supplies. -/
structure Mark where
  char : Char
  isKept : Bool

namespace Mark

def keep (s : List Char) : List Mark :=
  s.map (⟨·, true⟩)

def drop (s : List Char) : List Mark :=
  s.map (⟨·, false⟩)

def whole (ms : List Mark) : List Char :=
  ms.map char

def kept (ms : List Mark) : List Char :=
  whole (ms.filter isKept)

def DropsAtEnds (ms : List Mark) : Prop :=
  ∃ u s v, ms = drop u ++ keep s ++ drop v

def DropsBlanks (ms : List Mark) : Prop :=
  ∀ m ∈ ms, ¬m.isKept → Markup.isBlank m.char

variable {ms ns : List Mark} {s u v : List Char}

@[simp]
theorem whole_nil : whole [] = [] := rfl

@[simp]
theorem whole_append : whole (ms ++ ns) = whole ms ++ whole ns :=
  List.map_append

@[simp]
theorem whole_keep : whole (keep s) = s := by
  simp [whole, keep, Function.comp_def]

@[simp]
theorem whole_drop : whole (drop s) = s := by
  simp [whole, drop, Function.comp_def]

@[simp]
theorem kept_nil : kept [] = [] := rfl

@[simp]
theorem kept_append : kept (ms ++ ns) = kept ms ++ kept ns := by
  simp [kept]

@[simp]
theorem kept_keep : kept (keep s) = s := by
  have hall : (keep s).filter isKept = keep s := List.filter_eq_self.2 (by simp [keep])
  rw [kept, hall, whole_keep]

@[simp]
theorem kept_drop : kept (drop s) = [] := by
  have hnone : (drop s).filter isKept = [] := List.filter_eq_nil_iff.2 (by simp [drop])
  rw [kept, hnone, whole_nil]

theorem length_kept_le (ms : List Mark) : (kept ms).length ≤ (whole ms).length := by
  simpa [kept, whole] using List.length_filter_le isKept ms

theorem eq_drop_of_kept (h : kept ms = []) : ms = drop (whole ms) := by
  induction ms with
  | nil => rfl
  | cons m ms ih =>
    obtain ⟨c, isKept⟩ := m
    cases isKept with
    | true => simp [kept, whole] at h
    | false =>
      have hrest : kept ms = [] := by simpa [kept, whole] using h
      simpa [drop, whole] using ih hrest

theorem eq_keep_of_kept (h : kept ms = whole ms) : ms = keep (whole ms) := by
  induction ms with
  | nil => rfl
  | cons m ms ih =>
    obtain ⟨c, isKept⟩ := m
    cases isKept with
    | true =>
      have hrest : kept ms = whole ms := by simpa [kept, whole] using h
      simpa [keep, whole] using ih hrest
    | false =>
      have hlength : (kept ms).length = (whole ms).length + 1 := by
        simpa [kept, whole] using congrArg List.length h
      have := length_kept_le ms
      omega

theorem kept_subset (ms : List Mark) : kept ms ⊆ whole ms :=
  List.map_subset _ (List.filter_subset_self _)

theorem DropsBlanks.ends (h : DropsBlanks (drop u ++ keep s ++ drop v)) :
    (∀ c ∈ u, Markup.isBlank c) ∧ ∀ c ∈ v, Markup.isBlank c :=
  ⟨fun c hc => h ⟨c, false⟩ (by simp [drop, hc]) Bool.false_ne_true,
    fun c hc => h ⟨c, false⟩ (by simp [drop, hc]) Bool.false_ne_true⟩

theorem dropsAtEnds_of_whole (htrimmed : Text.IsTrimmed Markup.isBlank (kept ms))
    (hu : ∀ c ∈ u, Markup.isBlank c) (hv : ∀ c ∈ v, Markup.isBlank c)
    (hwhole : whole ms = u ++ kept ms ++ v) : DropsAtEnds ms := by
  obtain ⟨ms', mv, rfl, hms', rfl⟩ := List.map_eq_append_iff.1 hwhole
  obtain ⟨mu, mk, rfl, rfl, hmk⟩ := List.map_eq_append_iff.1 hms'
  change whole mk = _ at hmk
  simp only [kept_append] at htrimmed hmk
  -- Nothing in the blank parts is kept, since what is kept has no blanks at its ends.
  have hmu : kept mu = [] := by
    rw [List.append_assoc] at htrimmed
    exact htrimmed.left_eq_nil fun c hc => hu c (kept_subset mu hc)
  have hmv : kept mv = [] := htrimmed.right_eq_nil fun c hc => hv c (kept_subset mv hc)
  rw [hmu, hmv, List.nil_append, List.append_nil] at hmk
  refine ⟨whole mu, whole mk, whole mv, ?_⟩
  rw [← eq_drop_of_kept hmu, ← eq_keep_of_kept hmk.symm, ← eq_drop_of_kept hmv]

/-- What is kept is the trimmed content if it is trimmed and nothing is dropped within it. -/
theorem kept_eq_trim_iff (hblank : DropsBlanks ms) :
    kept ms = Markup.trim (whole ms) ↔
      Text.IsTrimmed Markup.isBlank (kept ms) ∧ DropsAtEnds ms := by
  constructor
  · intro h
    have htrimmed : Text.IsTrimmed Markup.isBlank (kept ms) := by
      rw [h]
      exact Text.isTrimmed_trimWhere _ _
    obtain ⟨u, v, hu, hv, hwhole⟩ := Text.exists_trimWhere Markup.isBlank (whole ms)
    have hkept : Text.trimWhere Markup.isBlank (whole ms) = kept ms := h.symm
    rw [hkept] at hwhole
    exact ⟨htrimmed, dropsAtEnds_of_whole htrimmed hu hv hwhole⟩
  · rintro ⟨htrimmed, u, s, v, rfl⟩
    obtain ⟨hu, hv⟩ := hblank.ends
    simp only [kept_append, kept_drop, kept_keep, whole_append, whole_drop, whole_keep,
      List.nil_append, List.append_nil] at htrimmed ⊢
    exact (Text.trimWhere_between hu hv htrimmed).symm

end Mark

open Mark (keep drop whole kept)

inductive Marked : Node → List Mark → Prop
  | text {raw u s v : List Char} : raw = u ++ Markup.trim raw ++ v →
      (∀ c ∈ u ++ v, Markup.isBlank c) → Markup.Entity.decode (Markup.trim raw) = .ok s →
      Marked (.text raw) (drop u ++ keep s ++ drop v)
  | cdata {s : List Char} : Marked (.cdata s) (keep s)

def MarkedContent (content : List Node) (ms : List Mark) : Prop :=
  ∃ parts, List.Forall₂ Marked content parts ∧ ms = parts.flatten

variable {parent : String} {content : List Node} {e : Ending} {t : Tag} {n : Node}
  {raw s : List Char} {ms : List Mark}

theorem Marked.dropsBlanks (h : Marked n ms) : Mark.DropsBlanks ms := by
  cases h with
  | text _ hblank _ =>
    intro m hm hkept
    simp only [keep, drop, List.mem_append, List.mem_map] at hm
    obtain (⟨c, hc, rfl⟩ | ⟨c, hc, rfl⟩) | ⟨c, hc, rfl⟩ := hm
    · exact hblank c (List.mem_append_left _ hc)
    · exact absurd rfl hkept
    · exact hblank c (List.mem_append_right _ hc)
  | cdata =>
    intro m hm hkept
    obtain ⟨c, -, rfl⟩ := List.mem_map.1 hm
    exact absurd rfl hkept

theorem MarkedContent.dropsBlanks (h : MarkedContent content ms) : Mark.DropsBlanks ms := by
  obtain ⟨parts, hparts, rfl⟩ := h
  induction hparts with
  | nil => simp [Mark.DropsBlanks]
  | cons hpart _ ih =>
    intro m hm
    obtain hm | hm := List.mem_append.1 (List.flatten_cons ▸ hm)
    · exact hpart.dropsBlanks m hm
    · exact ih m hm

theorem ne_ampersand_of_isBlank {c : Char} (h : Markup.isBlank c) : c ≠ '&' := by
  rintro rfl
  exact absurd h (by decide)

theorem marked_of_runText (h : runText false raw = .ok s) :
    ∃ ms, Marked (.text raw) ms ∧ kept ms = s ∧ runText true raw = .ok (whole ms) := by
  cases hdecode : Markup.Entity.decode (Markup.trim raw) with
  | error e => simp [runText, hdecode, Except.mapError] at h
  | ok s' =>
    obtain rfl : s' = s := by simpa [runText, hdecode, Except.mapError] using h
    obtain ⟨u, v, hu, hv, hraw⟩ := Text.exists_trimWhere Markup.isBlank raw
    have hplain := Markup.Entity.decode_between (fun c hc => ne_ampersand_of_isBlank (hu c hc))
      (fun c hc => ne_ampersand_of_isBlank (hv c hc)) hdecode
    refine ⟨drop u ++ keep s' ++ drop v, .text hraw ?_ hdecode, by simp, ?_⟩
    · intro c hc
      exact (List.mem_append.1 hc).elim (hu c) (hv c)
    · have hback : u ++ Markup.trim raw ++ v = raw := hraw.symm
      rw [hback] at hplain
      simp [runText, hplain, Except.mapError]

/-- A text that is read is what is kept of the content; read verbatim, the content gives all that is
marked. -/
theorem marked_of_textFrom (h : textFrom parent false e content = .ok s) :
    ∃ ms, MarkedContent content ms ∧ kept ms = s ∧
      textFrom parent true e content = .ok (whole ms) := by
  induction content generalizing s with
  | nil =>
    obtain ⟨_, hend, rfl⟩ := map_ok h
    exact ⟨[], ⟨[], .nil, rfl⟩, rfl, by rw [textFrom, hend]; rfl⟩
  | cons n content ih =>
    cases n with
    | text raw =>
      obtain ⟨x, hrun, h⟩ := bind_ok h
      obtain ⟨y, hrest, h⟩ := bind_ok h
      obtain rfl := Except.ok.inj h
      obtain ⟨ms, hms, rfl, hwhole⟩ := marked_of_runText hrun
      obtain ⟨ns, ⟨parts, hparts, rfl⟩, rfl, hwhole'⟩ := ih hrest
      refine ⟨ms ++ parts.flatten, ⟨ms :: parts, .cons hms hparts, rfl⟩, by simp, ?_⟩
      rw [textFrom, hwhole, hwhole', Mark.whole_append]
      rfl
    | cdata x =>
      obtain ⟨y, hrest, rfl⟩ := map_ok h
      obtain ⟨ns, ⟨parts, hparts, rfl⟩, rfl, hwhole⟩ := ih hrest
      refine ⟨keep x ++ parts.flatten, ⟨keep x :: parts, .cons .cdata hparts, rfl⟩, by simp, ?_⟩
      rw [textFrom, hwhole, Mark.whole_append, Mark.whole_keep]
      rfl
    | element t content' e' => simp [textFrom] at h

inductive Within (t : Tag) (content : List Node) (e : Ending) : List Node → Prop
  | child {ns : List Node} : .element t content e ∈ ns → Within t content e ns
  | nested {ns : List Node} {t' : Tag} {content' : List Node} {e' : Ending} :
      .element t' content' e' ∈ ns → Within t content e content' → Within t content e ns

def library : List Node → List Node
  | [] => []
  | .element _ content _ :: _ => content
  | _ :: ns => library ns

def suppliesText (name : String) : Bool :=
  name ∈ ["function", "value", "alias", "list", "flag", "postset"]

def HoldsElements (ns : List Node) : Prop :=
  (∃ parent e vs, items parent e ns = .ok vs) ∨
    ∃ c count e c' total, insertAll c count e ns = (c', .ok total)

/-- An element that is read: as a text, verbatim or as other elements. -/
def IsRead (t : Tag) (content : List Node) (e : Ending) : Prop :=
  (∃ s, text t false content e = .ok s) ∨
    ¬suppliesText (nameOf t) ∧ ((∃ s, text t true content e = .ok s) ∨ HoldsElements content)

theorem items_of_members {ns : List Node} {ms : List (String × Literal)}
    (h : members parent e ns = .ok ms) : items parent e ns = .ok (ms.map Prod.snd) := by
  induction ns generalizing ms with
  | nil =>
    obtain ⟨_, hend, rfl⟩ := map_ok h
    rw [items, hend]
    rfl
  | cons n ns ih =>
    cases n with
    | text raw =>
      rw [members] at h
      split_ifs at h with hblank
      rw [items, if_pos hblank, ih h]
    | cdata s => simp [members] at h
    | element t content e' =>
      obtain ⟨key, -, h⟩ := bind_ok h
      obtain ⟨v, hv, h⟩ := bind_ok h
      obtain ⟨rest, hrest, h⟩ := bind_ok h
      obtain rfl := Except.ok.inj h
      rw [items, hv, ih hrest]
      rfl

theorem isRead_of_members {ms : List (String × Literal)} (hname : ¬suppliesText (nameOf t))
    (h : members parent e content = .ok ms) : IsRead t content e :=
  .inr ⟨hname, .inr (.inl ⟨_, _, _, items_of_members h⟩)⟩

theorem isRead_of_items {vs : List Literal} (hname : ¬suppliesText (nameOf t))
    (h : items parent e content = .ok vs) : IsRead t content e :=
  .inr ⟨hname, .inr (.inl ⟨_, _, _, h⟩)⟩

theorem isRead_of_literal {v : Literal} (h : literal parent (.element t content e) = .ok v) :
    IsRead t content e := by
  rw [literal] at h
  split_ifs at h with hvalue hstring hfunction hobject harray
  · obtain ⟨s, hs, -⟩ := map_ok h
    exact .inl ⟨s, hs⟩
  · obtain ⟨s, hs, -⟩ := map_ok h
    exact .inr ⟨by rw [hstring]; decide, .inl ⟨s, hs⟩⟩
  · obtain ⟨s, hs, -⟩ := map_ok h
    exact .inl ⟨s, hs⟩
  · obtain ⟨ms, hms, -⟩ := map_ok h
    exact isRead_of_members (by rw [hobject]; decide) hms
  · obtain ⟨vs, hvs, -⟩ := map_ok h
    exact isRead_of_items (by rw [harray]; decide) hvs

theorem isRead_of_value {v : CatalogValue} (h : value t content e = .ok v) :
    IsRead t content e := by
  unfold value at h
  split at h
  case h_6 =>
    obtain ⟨ident, -, h⟩ := bind_ok h
    obtain ⟨deps, -, h⟩ := bind_ok h
    obtain ⟨s, hs, -⟩ := bind_ok h
    exact .inl ⟨s, hs⟩
  case h_7 hname =>
    obtain ⟨ms, hms, -⟩ := bind_ok h
    exact isRead_of_members (by rw [hname]; decide) hms
  case h_8 hname =>
    obtain ⟨vs, hvs, -⟩ := bind_ok h
    exact isRead_of_items (by rw [hname]; decide) hvs
  case h_9 => simp [throw, throwThe, MonadExceptOf.throw] at h
  all_goals
    obtain ⟨s, hs, -⟩ := bind_ok h
    exact .inl ⟨s, hs⟩

theorem isRead_of_mem_items {ns : List Node} {vs : List Literal} {e' : Ending}
    (h : items parent e' ns = .ok vs) (hmem : .element t content e ∈ ns) : IsRead t content e := by
  induction ns generalizing vs with
  | nil => simp at hmem
  | cons n ns ih =>
    cases n with
    | text raw =>
      rw [items] at h
      split_ifs at h
      exact ih h (by simpa using hmem)
    | cdata s => simp [items] at h
    | element t' content' e'' =>
      obtain ⟨v, hv, h⟩ := bind_ok h
      obtain ⟨rest, hrest, -⟩ := bind_ok h
      obtain heq | hmem := List.mem_cons.1 hmem
      · obtain ⟨rfl, rfl, rfl⟩ := Node.element.inj heq
        exact isRead_of_literal hv
      · exact ih hrest hmem

theorem isRead_of_insert {c c' : Catalog} (h : insert c t content e = (c', .ok ())) :
    IsRead t content e := by
  rw [insert] at h
  split at h
  · simp at h
  · rename_i key v hpair
    obtain ⟨_, -, hvalue⟩ := bind_ok hpair
    obtain ⟨_, hv, -⟩ := bind_ok hvalue
    exact isRead_of_value hv

theorem isRead_of_mem_insertAll {ns : List Node} {c c' : Catalog} {count total : Nat} {e' : Ending}
    (h : insertAll c count e' ns = (c', .ok total)) (hmem : .element t content e ∈ ns) :
    IsRead t content e := by
  induction ns generalizing c count with
  | nil => simp at hmem
  | cons n ns ih =>
    cases n with
    | text raw =>
      rw [insertAll] at h
      split_ifs at h
      · exact ih h (by simpa using hmem)
      · simp at h
    | cdata s => simp [insertAll] at h
    | element t' content' e'' =>
      rw [insertAll] at h
      split at h
      · rename_i c₁ hinsert
        obtain heq | hmem := List.mem_cons.1 hmem
        · obtain ⟨rfl, rfl, rfl⟩ := Node.element.inj heq
          exact isRead_of_insert hinsert
        · exact ih h hmem
      · simp at h

theorem HoldsElements.isRead {ns : List Node} (h : HoldsElements ns)
    (hmem : .element t content e ∈ ns) : IsRead t content e := by
  obtain ⟨parent, e', vs, h⟩ | ⟨c, count, e', c', total, h⟩ := h
  · exact isRead_of_mem_items h hmem
  · exact isRead_of_mem_insertAll h hmem

theorem not_mem_of_textFrom {verbatim : Bool} {e' : Ending} {ns : List Node}
    (h : textFrom parent verbatim e' ns = .ok s) : .element t content e ∉ ns := by
  induction ns generalizing s with
  | nil => simp
  | cons n ns ih =>
    cases n with
    | text raw =>
      obtain ⟨x, -, h⟩ := bind_ok h
      obtain ⟨y, hy, -⟩ := bind_ok h
      simpa using ih hy
    | cdata x =>
      obtain ⟨y, hy, -⟩ := map_ok h
      simpa using ih hy
    | element t' content' e'' => simp [textFrom] at h

theorem not_within_of_text {verbatim : Bool} {t' : Tag} {e' : Ending} {ns : List Node} {x : String}
    (h : text t' verbatim ns e' = .ok x) : ¬Within t content e ns := by
  obtain ⟨s, hs, -⟩ := map_ok h
  rintro (hmem | ⟨hmem, -⟩) <;> exact not_mem_of_textFrom hs hmem

theorem Within.isRead {ns : List Node} (h : Within t content e ns) (hns : HoldsElements ns) :
    IsRead t content e := by
  induction h with
  | child hmem => exact hns.isRead hmem
  | nested hmem hwithin ih =>
    obtain ⟨s, hs⟩ | ⟨-, ⟨s, hs⟩ | hcontent⟩ := hns.isRead hmem
    · exact absurd hwithin (not_within_of_text hs)
    · exact absurd hwithin (not_within_of_text hs)
    · exact ih hcontent

theorem holdsElements_library {ns : List Node} {c c' : Catalog} {total : Nat} {e' : Ending}
    (h : insertLibrary c e' ns = (c', .ok total)) : HoldsElements (library ns) := by
  induction ns with
  | nil => exact .inl ⟨"", .closed, [], rfl⟩
  | cons n ns ih =>
    cases n with
    | text raw =>
      rw [insertLibrary] at h
      split_ifs at h
      · exact ih h
      · simp at h
    | cdata s => simp [insertLibrary] at h
    | element t content e =>
      rw [insertLibrary] at h
      split_ifs at h
      · exact .inr ⟨_, _, _, _, _, h⟩
      · simp at h

theorem idents_kept (hms : Mark.DropsBlanks ms) (h : Mark.DropsAtEnds ms) :
    idents (String.ofList (kept ms)) = idents (String.ofList (whole ms)) := by
  obtain ⟨u, s, v, rfl⟩ := h
  obtain ⟨hu, hv⟩ := hms.ends
  have hwords : Text.wordsFrom Text.isBlank [] (u ++ s ++ v) = Text.wordsFrom Text.isBlank [] s :=
    Text.wordsFrom_between (fun c hc => Markup.isBlank_of_markup (hu c hc))
      (fun c hc => Markup.isBlank_of_markup (hv c hc)) s
  rw [List.append_assoc] at hwords
  simp [idents, Text.words, hwords]

end Document

open Document (Within MarkedContent Mark suppliesText)

/-- Every element of a document that is read, other than a verbatim one, supplies what is kept of
its content: its character data and the trimmed runs, with entities read and without comments. Read
verbatim it would supply the whole content. It supplies the trimmed content exactly if what it
supplies has no white space at its ends and none is dropped within it. If none is dropped within it,
a list gives the identifiers of its whole content. -/
theorem Catalog.texts_of_read {c c' : Catalog} {document : String} {total : Nat}
    (h : c.read document = (c', .ok total)) {t : Tag} {content : List Node} {e : Ending}
    (hwithin : Within t content e (Document.library (Markup.Document.unskipped document).nodes))
    (hname : suppliesText (Document.nameOf t)) :
    ∃ ms, MarkedContent content ms ∧
      Document.text t false content e = .ok (String.ofList (Mark.kept ms)) ∧
      Document.text t true content e = .ok (String.ofList (Mark.whole ms)) ∧
      (Mark.kept ms = Markup.trim (Mark.whole ms) ↔
        Text.IsTrimmed Markup.isBlank (Mark.kept ms) ∧ Mark.DropsAtEnds ms) ∧
      (Mark.DropsAtEnds ms → Document.idents (String.ofList (Mark.kept ms)) =
        Document.idents (String.ofList (Mark.whole ms))) := by
  rw [Markup.Document.unskipped_eq] at hwithin
  have hlibrary : Document.HoldsElements
      (Document.library (Markup.Document.ofText document).nodes) :=
    Document.holdsElements_library h
  obtain ⟨s, hs⟩ | ⟨hverbatim, -⟩ := hwithin.isRead hlibrary
  · obtain ⟨s', hs', rfl⟩ := map_ok hs
    obtain ⟨ms, hms, rfl, hwhole⟩ := Document.marked_of_textFrom hs'
    refine ⟨ms, hms, hs, ?_, Mark.kept_eq_trim_iff hms.dropsBlanks,
      Document.idents_kept hms.dropsBlanks⟩
    rw [Document.text, hwhole]
    rfl
  · exact absurd hname hverbatim

def paddedValue : String :=
  "<library><object key=\"f\"><value key=\"g\"> 1 &lt; 2<!-- c -->\n</value></object></library>"

def valueTag : Tag :=
  ⟨"value".toList, " key=\"g\"".toList⟩

def paddedContent : List Node :=
  [.text " 1 &lt; 2".toList, .text "\n".toList]

theorem library_paddedValue : Document.library (Markup.Document.ofText paddedValue).nodes =
    [.element ⟨"object".toList, " key=\"f\"".toList⟩
      [.element valueTag paddedContent .closed] .closed] := by
  have hpieces : Markup.Pieces.ofChars paddedValue.toList =
      ⟨[.tag "library".toList, .tag "object key=\"f\"".toList, .tag "value key=\"g\"".toList,
        .text " 1 &lt; 2".toList, .skipped, .text "\n".toList, .closing "value".toList,
        .closing "object".toList, .closing "library".toList], none⟩ := by
    decide +kernel
  rw [Markup.Document.ofText, hpieces]
  cbv

theorem paddedValue_trimmed :
    ∃ ms, MarkedContent paddedContent ms ∧ Mark.kept ms = "1 < 2".toList ∧
      Mark.whole ms = " 1 < 2\n".toList ∧ Mark.kept ms = Markup.trim (Mark.whole ms) := by
  have hread : (({} : Catalog).read paddedValue).2 = .ok 1 := by decide +kernel
  have hwithin : Within valueTag paddedContent .closed
      (Document.library (Markup.Document.unskipped paddedValue).nodes) := by
    rw [Markup.Document.unskipped_eq, library_paddedValue]
    exact .nested (List.mem_singleton_self _) (.child (List.mem_singleton_self _))
  obtain ⟨ms, hms, hkept, hwhole, -, -⟩ :=
    Catalog.texts_of_read (Prod.ext rfl hread) hwithin (by decide)
  have htrimmed : Document.text valueTag false paddedContent .closed = .ok "1 < 2" := by
    decide +kernel
  have hverbatim : Document.text valueTag true paddedContent .closed = .ok " 1 < 2\n" := by
    decide +kernel
  have hk : Mark.kept ms = "1 < 2".toList := by
    rw [← Except.ok.inj (hkept.symm.trans htrimmed), String.toList_ofList]
  have hw : Mark.whole ms = " 1 < 2\n".toList := by
    rw [← Except.ok.inj (hwhole.symm.trans hverbatim), String.toList_ofList]
  exact ⟨ms, hms, hk, hw, by rw [hk, hw]; decide⟩

def commentedList : String :=
  "<library><list key=\"f__deps\">a <!-- c -->b</list></library>"

def listTag : Tag :=
  ⟨"list".toList, " key=\"f__deps\"".toList⟩

def commentedContent : List Node :=
  [.text "a ".toList, .text "b".toList]

theorem library_commentedList : Document.library (Markup.Document.ofText commentedList).nodes =
    [.element listTag commentedContent .closed] := by
  have hpieces : Markup.Pieces.ofChars commentedList.toList =
      ⟨[.tag "library".toList, .tag "list key=\"f__deps\"".toList, .text "a ".toList, .skipped,
        .text "b".toList, .closing "list".toList, .closing "library".toList], none⟩ := by
    decide +kernel
  rw [Markup.Document.ofText, hpieces]
  cbv

/-- The identifiers on both sides of a comment are read as one, although there is white space
between them. -/
theorem commentedList_joined :
    (({} : Catalog).read commentedList).2 = .ok 1 ∧
      Within listTag commentedContent .closed
        (Document.library (Markup.Document.unskipped commentedList).nodes) ∧
      Document.text listTag false commentedContent .closed = .ok "ab" ∧
      Document.text listTag true commentedContent .closed = .ok "a b" ∧
      Markup.trim "a b".toList ≠ "ab".toList ∧
      ((({} : Catalog).read commentedList).1.item ⟨"f"⟩).deps = [⟨"ab"⟩] ∧
      Document.idents "a b" = [⟨"a"⟩, ⟨"b"⟩] := by
  refine ⟨by decide +kernel, ?_, by decide +kernel, by decide +kernel, by decide,
    by decide +kernel, by decide +kernel⟩
  rw [Markup.Document.unskipped_eq, library_commentedList]
  exact .child (List.mem_singleton_self _)

end CatalogLinker
