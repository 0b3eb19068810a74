import CatalogLinker.Markup.Node
import CatalogLinker.Proofs.Markup.Entity

namespace CatalogLinker.Markup

structure Word where
  chars : List Char
  ne_nil : chars ≠ []
  isAlpha : chars.all Char.isAlpha

/-- What an element starts with: its name and its attributes, of which no two have the same key. -/
structure Opening where
  name : Word
  attributes : List (Word × String)
  nodup : (attributes.map (Word.chars ∘ Prod.fst)).Nodup

namespace Opening

def attributeChars (a : Word × String) : List Char :=
  ' ' :: a.1.chars ++ '=' :: '"' :: Entity.encode a.2.toList ++ ['"']

variable (o : Opening)

def tag : Tag :=
  ⟨o.name.chars, o.attributes.flatMap attributeChars⟩

def tagChars : List Char :=
  o.name.chars ++ o.tag.rest

def around (content : List Char) : List Char :=
  '<' :: o.tagChars ++ '>' :: content ++ '<' :: '/' :: o.name.chars ++ ['>']

def piecesAround (content : List Piece) : List Piece :=
  .tag o.tagChars :: content ++ [.closing o.name.chars]

def value? (key : String) : Option String :=
  (o.attributes.find? (·.1.chars = key.toList)).map Prod.snd

end Opening

inductive Element where
  | leaf (o : Opening) (text : String)
  | branch (o : Opening) (content : List Element)

namespace Element

mutual

def chars : Element → List Char
  | leaf o text => o.around (Entity.encode text.toList)
  | branch o content => o.around (allChars content)

def allChars : List Element → List Char
  | [] => []
  | e :: es => e.chars ++ allChars es

end

mutual

def node : Element → Node
  | leaf o text =>
    .element o.tag (if text = "" then [] else [.text (Entity.encode text.toList)]) .closed
  | branch o content => .element o.tag (nodes content) .closed

def nodes : List Element → List Node
  | [] => []
  | e :: es => e.node :: nodes es

end

mutual

def pieces : Element → List Piece
  | leaf o text =>
    o.piecesAround (if text = "" then [] else [.text (Entity.encode text.toList)])
  | branch o content => o.piecesAround (allPieces content)

def allPieces : List Element → List Piece
  | [] => []
  | e :: es => e.pieces ++ allPieces es

end

end Element

namespace Word

variable {w : Word} {c : Char}

theorem isBlank_eq_false (hc : c ∈ w.chars) : isBlank c = false := by
  have h := List.all_eq_true.1 w.isAlpha c hc
  refine Bool.eq_false_iff.2 fun hb => ?_
  simp only [isBlank, Bool.or_eq_true, beq_iff_eq] at hb
  obtain ((rfl | rfl) | rfl) | rfl := hb <;> exact absurd h (by decide)

theorem ne_of_mem (hc : c ∈ w.chars) {d : Char} (hd : ¬d.isAlpha) : c ≠ d :=
  fun h => hd (h ▸ List.all_eq_true.1 w.isAlpha c hc)

end Word

section Scan

variable {s rest part : List Char}

theorem scan_text (hs : ∀ c ∈ s, c ≠ '<') : scan (.text part) (s ++ '<' :: rest) =
    .consText (part.reverse ++ s) (scan .opened rest) := by
  induction s generalizing part with
  | nil => simp [scan]
  | cons c s ih =>
    rw [List.cons_append, scan, if_neg (hs c List.mem_cons_self),
      ih fun d hd => hs d (List.mem_cons_of_mem c hd)]
    simp

theorem scan_closing (hs : ∀ c ∈ s, c ≠ '>') : scan (.closing part) (s ++ '>' :: rest) =
    .cons (.closing (part.reverse ++ s)) (scan (.text []) rest) := by
  induction s generalizing part with
  | nil => simp [scan]
  | cons c s ih =>
    rw [List.cons_append, scan, if_neg (hs c List.mem_cons_self),
      ih fun d hd => hs d (List.mem_cons_of_mem c hd)]
    simp

theorem scan_tag {quote : Option Char} (hs : ∀ c ∈ s, c ≠ '>')
    (hquote : s.foldl quoteAfter quote = none) : scan (.tag part quote) (s ++ '>' :: rest) =
      .cons (.tag (part.reverse ++ s)) (scan (.text []) rest) := by
  induction s generalizing part quote with
  | nil =>
    obtain rfl : quote = none := hquote
    simp [scan]
  | cons c s ih =>
    have hc : ¬(c = '>' ∧ quote = none) := fun h => hs c List.mem_cons_self h.1
    rw [List.cons_append, scan, if_neg hc, ih (fun d hd => hs d (List.mem_cons_of_mem c hd)) hquote]
    simp

theorem foldl_quoteAfter_none (hs : ∀ c ∈ s, c ≠ '"' ∧ c ≠ '\'') :
    s.foldl quoteAfter none = none := by
  induction s with
  | nil => rfl
  | cons c s ih =>
    obtain ⟨hdouble, hsingle⟩ := hs c List.mem_cons_self
    have hc : quoteAfter none c = none := if_neg (not_or.2 ⟨hdouble, hsingle⟩)
    rw [List.foldl_cons, hc, ih fun d hd => hs d (List.mem_cons_of_mem c hd)]

theorem foldl_quoteAfter_some {q : Char} (hs : ∀ c ∈ s, c ≠ q) :
    s.foldl quoteAfter (some q) = some q := by
  induction s with
  | nil => rfl
  | cons c s ih =>
    have hc : quoteAfter (some q) c = some q := if_neg (hs c List.mem_cons_self)
    rw [List.foldl_cons, hc, ih fun d hd => hs d (List.mem_cons_of_mem c hd)]

end Scan

namespace Opening

variable (o : Opening) {c : Char} {rest : List Char}

theorem plain_of_mem_attributeChars {a : Word × String} (hc : c ∈ attributeChars a) : c ≠ '>' := by
  simp only [attributeChars, List.cons_append, List.mem_cons, List.mem_append,
    List.not_mem_nil, or_false] at hc
  obtain rfl | (hc | rfl | rfl | hc) | rfl := hc
  · decide
  · exact Word.ne_of_mem hc (by decide)
  · decide
  · decide
  · exact (Entity.plain_of_mem_encode hc).2.1
  · decide

theorem plain_of_mem_tagChars (hc : c ∈ o.tagChars) : c ≠ '>' := by
  obtain hc | hc := List.mem_append.1 hc
  · exact Word.ne_of_mem hc (by decide)
  · obtain ⟨a, -, hc⟩ := List.mem_flatMap.1 hc
    exact plain_of_mem_attributeChars hc

theorem foldl_quoteAfter_word (w : Word) : w.chars.foldl quoteAfter none = none :=
  foldl_quoteAfter_none fun _ hc =>
    ⟨Word.ne_of_mem hc (by decide), Word.ne_of_mem hc (by decide)⟩

theorem foldl_quoteAfter_attributeChars (a : Word × String) :
    (attributeChars a).foldl quoteAfter none = none := by
  have hvalue : (Entity.encode a.2.toList).foldl quoteAfter (some '"') = some '"' :=
    foldl_quoteAfter_some fun c hc => (Entity.plain_of_mem_encode hc).2.2.1
  have hspace : quoteAfter none ' ' = none := rfl
  have hequals : quoteAfter none '=' = none := rfl
  have hopen : quoteAfter none '"' = some '"' := rfl
  have hclose : quoteAfter (some '"') '"' = none := rfl
  rw [attributeChars, List.cons_append, List.cons_append, List.foldl_cons, hspace,
    List.foldl_append]
  simp only [List.foldl_append, List.foldl_cons, List.foldl_nil, foldl_quoteAfter_word, hequals,
    hopen, hvalue, hclose]

theorem foldl_quoteAfter_tagChars : o.tagChars.foldl quoteAfter none = none := by
  have hrest : ∀ as : List (Word × String),
      (as.flatMap attributeChars).foldl quoteAfter none = none := by
    intro as
    induction as with
    | nil => rfl
    | cons a as ih =>
      rw [List.flatMap_cons, List.foldl_append, foldl_quoteAfter_attributeChars, ih]
  rw [tagChars, List.foldl_append, tag, foldl_quoteAfter_word, hrest]

theorem scan_opened : scan .opened (o.tagChars ++ '>' :: rest) =
    .cons (.tag o.tagChars) (scan (.text []) rest) := by
  obtain ⟨c, name, hname⟩ := List.exists_cons_of_ne_nil o.name.ne_nil
  have hchars : o.tagChars = c :: (name ++ o.tag.rest) := by
    rw [tagChars, hname, List.cons_append]
  have hc : c ∈ o.name.chars := hname ▸ List.mem_cons_self
  have hne : ∀ d, ¬Char.isAlpha d → c ≠ d := fun d hd => Word.ne_of_mem hc hd
  have hquote := o.foldl_quoteAfter_tagChars
  have hplain : ∀ d ∈ name ++ o.tag.rest, d ≠ '>' := fun d hd =>
    o.plain_of_mem_tagChars (hchars ▸ List.mem_cons_of_mem c hd)
  rw [hchars] at hquote ⊢
  rw [List.cons_append, scan, if_neg (hne _ (by decide)), if_neg (hne _ (by decide)),
    if_neg (hne _ (by decide)), if_neg (hne _ (by decide)), scan_tag hplain hquote]
  rfl

theorem ofChars_tagChars : Tag.ofChars o.tagChars = o.tag := by
  have hname : ∀ c ∈ o.name.chars, (!isBlank c) = true := fun c hc => by
    rw [Word.isBlank_eq_false hc, Bool.not_false]
  have hrest : o.tag.rest.takeWhile (!isBlank ·) = [] ∧
      o.tag.rest.dropWhile (!isBlank ·) = o.tag.rest := by
    rw [tag]
    cases o.attributes with
    | nil => exact ⟨rfl, rfl⟩
    | cons a as => exact ⟨rfl, rfl⟩
  have htake : o.tagChars.takeWhile (!isBlank ·) = o.tag.name := by
    rw [tagChars, List.takeWhile_append_of_pos hname, hrest.1, List.append_nil]
    rfl
  have hdrop : o.tagChars.dropWhile (!isBlank ·) = o.tag.rest := by
    rw [tagChars, List.dropWhile_append_of_pos hname, hrest.2]
  rw [Tag.ofChars, htake, hdrop]

theorem before?_tagChars : Text.before? ['/'] o.tagChars = none := by
  refine Option.eq_none_iff_forall_ne_some.2 fun s hs => ?_
  have hlast : o.tagChars.getLast? = some '/' := by
    rw [Text.before?_eq_some_iff.1 hs, List.getLast?_append_of_ne_nil _ (List.cons_ne_nil _ _)]
    rfl
  rw [tagChars, tag] at hlast
  -- A tag ends in its name or in the quote behind its last attribute.
  obtain hnil | ⟨as, a, has⟩ := o.attributes.eq_nil_or_concat'
  · rw [hnil, List.flatMap_nil, List.append_nil] at hlast
    exact Word.ne_of_mem (List.mem_of_getLast? hlast) (by decide) rfl
  · rw [has, List.flatMap_append, List.flatMap_singleton, attributeChars, ← List.append_assoc,
      ← List.append_assoc, List.getLast?_append_of_ne_nil _ (List.cons_ne_nil _ _)] at hlast
    exact absurd hlast (by decide)

theorem closingName_name : Document.closingName o.name.chars = o.name.chars := by
  have htrimmed : Text.IsTrimmed isBlank o.name.chars :=
    Text.isTrimmed_of_forall_not fun c hc => Bool.not_eq_true _ ▸ Word.isBlank_eq_false hc
  rw [Document.closingName]
  split
  · rfl
  · have hend := Text.trimEndWhere_append (List.forall_mem_nil _) htrimmed.2
    rwa [List.append_nil] at hend

end Opening

theorem encode_eq_nil_iff {s : String} : Entity.encode s.toList = [] ↔ s = "" := by
  rw [Entity.encode, List.flatMap_eq_nil_iff, String.ext_iff, String.toList_empty]
  constructor
  · intro h
    exact List.eq_nil_iff_forall_not_mem.2 fun c hc => Entity.encodeChar_ne_nil c (h c hc)
  · intro h
    simp [h]

theorem scan_around (o : Opening) {content rest : List Char} {ps : List Piece}
    (h : ∀ rest, scan (.text []) (content ++ '<' :: rest) =
      ps.foldr Pieces.cons (scan .opened rest)) :
    scan (.text []) (o.around content ++ rest) =
      (o.piecesAround ps).foldr Pieces.cons (scan (.text []) rest) := by
  have hclosing : scan .opened ('/' :: (o.name.chars ++ '>' :: rest)) =
      .cons (.closing o.name.chars) (scan (.text []) rest) :=
    scan_closing fun c hc => Word.ne_of_mem hc (by decide)
  have hsplit : o.around content ++ rest =
      '<' :: (o.tagChars ++ '>' :: (content ++ '<' :: '/' :: (o.name.chars ++ '>' :: rest))) := by
    simp [Opening.around]
  have hopen : ∀ s, scan (.text []) ('<' :: s) = scan .opened s := fun _ => rfl
  rw [hsplit, hopen, o.scan_opened, h, hclosing, Opening.piecesAround]
  simp

mutual

theorem scan_element (rest : List Char) : ∀ e : Element,
    scan (.text []) (e.chars ++ rest) = e.pieces.foldr Pieces.cons (scan (.text []) rest)
  | .leaf o text => by
    rw [Element.chars, Element.pieces]
    refine scan_around o fun rest => ?_
    rw [scan_text fun c hc => (Entity.plain_of_mem_encode hc).1, List.reverse_nil, List.nil_append,
      Pieces.consText]
    by_cases ht : text = ""
    · rw [if_pos ht, if_pos (List.isEmpty_iff.2 (encode_eq_nil_iff.2 ht))]
      rfl
    · rw [if_neg ht, if_neg fun h => ht (encode_eq_nil_iff.1 (List.isEmpty_iff.1 h))]
      rfl
  | .branch o content => by
    rw [Element.chars, Element.pieces]
    refine scan_around o fun rest => ?_
    rw [scan_elements ('<' :: rest) content]
    rfl

theorem scan_elements (rest : List Char) : ∀ es : List Element,
    scan (.text []) (Element.allChars es ++ rest) =
      (Element.allPieces es).foldr Pieces.cons (scan (.text []) rest)
  | [] => rfl
  | e :: es => by
    rw [Element.allChars, Element.allPieces, List.append_assoc, scan_element _ e,
      scan_elements rest es, List.foldr_append]

end

section Build

variable {outer : List OpenElement} {content : List Node} {ending : Ending}

theorem build_around (o : Opening) {ps ps' : List Piece} {ns : List Node}
    (h : ∀ outer ps', Document.build outer [] ending (ps ++ ps') =
      Document.build outer ns.reverse ending ps') :
    Document.build outer content ending (o.piecesAround ps ++ ps') =
      Document.build outer (.element o.tag ns .closed :: content) ending ps' := by
  have hopen : ∀ ps, Document.build outer content ending (.tag o.tagChars :: ps) =
      Document.build (⟨o.tag, content⟩ :: outer) [] ending ps := by
    intro ps
    rw [Document.build, o.before?_tagChars, o.ofChars_tagChars]
  rw [Opening.piecesAround, List.cons_append, List.cons_append, List.append_assoc, hopen, h,
    List.singleton_append, Document.build]
  simp only [o.closingName_name, List.reverse_reverse]
  exact if_pos rfl

mutual

theorem build_element (outer : List OpenElement) (content : List Node) (ps : List Piece) :
    ∀ e : Element, Document.build outer content ending (e.pieces ++ ps) =
      Document.build outer (e.node :: content) ending ps
  | .leaf o text => by
    rw [Element.pieces, Element.node]
    refine build_around o fun outer ps => ?_
    split_ifs <;> rfl
  | .branch o es => by
    rw [Element.pieces, Element.node]
    refine build_around o fun outer ps => ?_
    rw [build_elements outer [] ps es, List.append_nil]

theorem build_elements (outer : List OpenElement) (content : List Node) (ps : List Piece) :
    ∀ es : List Element, Document.build outer content ending (Element.allPieces es ++ ps) =
      Document.build outer ((Element.nodes es).reverse ++ content) ending ps
  | [] => rfl
  | e :: es => by
    rw [Element.allPieces, List.append_assoc, build_element outer content _ e,
      build_elements outer _ ps es, Element.nodes, List.reverse_cons, List.append_assoc,
      List.singleton_append]

end

end Build

/-- A written document is read as its tree. -/
theorem Document.ofText_chars (e : Element) :
    Document.ofText (String.ofList e.chars) = ⟨[e.node], .endOfInput⟩ := by
  have hmark : Pieces.ofChars e.chars = scan (.text []) e.chars := by cases e <;> rfl
  have hscan : scan (.text []) (e.chars ++ []) = e.pieces.foldr Pieces.cons {} := scan_element [] e
  have hlist : ∀ ps : List Piece, ps.foldr Pieces.cons {} = { list := ps } := by
    intro ps
    induction ps with
    | nil => rfl
    | cons p ps ih => rw [List.foldr_cons, ih]; rfl
  have hbuild : Document.build [] [] .endOfInput (e.pieces ++ []) = _ := build_element [] [] [] e
  rw [List.append_nil] at hbuild hscan
  rw [ofText, String.toList_ofList, hmark, hscan, hlist]
  exact hbuild

end CatalogLinker.Markup
