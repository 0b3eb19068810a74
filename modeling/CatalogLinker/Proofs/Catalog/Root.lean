import CatalogLinker.Catalog.Document
import CatalogLinker.Proofs.Markup.Filler
import CatalogLinker.Proofs.Outcome

namespace CatalogLinker

namespace Markup

def Node.isElement : Node → Bool
  | .element _ _ _ => true
  | _ => false

def Piece.textNode? : Piece → Option Node
  | .text raw => some (.text raw)
  | _ => none

namespace Document

def ground (content : List Node) : List OpenElement → List Node
  | [] => content
  | o :: outer => ground o.before outer

/-- Pieces that make an element wherever they stand. -/
structure Makes (ps : List Piece) (t : Tag) (content : List Node) : Prop where
  head : ∃ x l, ps = .tag x :: l
  last : ∃ l p, ps = l ++ [p] ∧ ¬p.isText
  build_eq : ∀ before ending ps', build [] before ending (ps ++ ps') =
    build [] (.element t content .closed :: before) ending ps'

variable {content : List Node} {outer : List OpenElement} {ending : Ending} {ps : List Piece}

section Ground

theorem ground_cons (n : Node) :
    (ground content outer).reverse <+: (ground (n :: content) outer).reverse := by
  cases outer with
  | nil =>
    rw [ground, ground, List.reverse_cons]
    exact List.prefix_append _ _
  | cons o outer => exact List.prefix_rfl

theorem ground_prefix_endAll (ending : Ending) (content : List Node) (outer : List OpenElement) :
    (ground content outer).reverse <+: (endAll ending content outer).nodes := by
  induction outer generalizing content with
  | nil => exact List.prefix_rfl
  | cons o outer ih =>
    have hinner : (ground o.before outer).reverse <+: _ :=
      (ground_cons (.element o.tag content.reverse ending)).trans (ih _)
    exact hinner

theorem ground_prefix_build (ending : Ending) (outer : List OpenElement) (content : List Node)
    (ps : List Piece) :
    (ground content outer).reverse <+: (build outer content ending ps).nodes := by
  induction ps generalizing outer content with
  | nil => exact ground_prefix_endAll _ content outer
  | cons p ps ih =>
    cases p with
    | text s => exact (ground_cons _).trans (ih _ _)
    | cdata s => exact (ground_cons _).trans (ih _ _)
    | skipped => exact ih _ _
    | tag s =>
      rw [build]
      split
      · exact (ground_cons _).trans (ih _ _)
      · exact ih (⟨_, content⟩ :: outer) []
    | closing s =>
      cases outer with
      | nil => exact ground_prefix_endAll _ content []
      | cons o outer =>
        rw [build]
        split
        · have hinner : (ground o.before outer).reverse <+: _ :=
            (ground_cons (.element o.tag content.reverse .closed)).trans (ih _ _)
          exact hinner
        · exact ground_prefix_endAll _ content (o :: outer)

theorem exists_nodes (ending : Ending) (content : List Node) (ps : List Piece) :
    ∃ ns, (build [] content ending ps).nodes = content.reverse ++ ns := by
  obtain ⟨ns, hns⟩ := ground_prefix_build ending [] content ps
  exact ⟨ns, hns.symm⟩

end Ground

theorem endAll_append (ending : Ending) (content : List Node) (inner : List OpenElement) (t : Tag) :
    ∃ content', ∀ before, endAll ending content (inner ++ [⟨t, before⟩]) =
      ⟨(.element t content' ending :: before).reverse, ending⟩ := by
  induction inner generalizing content with
  | nil => exact ⟨content.reverse, fun _ => rfl⟩
  | cons o inner ih => exact ih _

/-- What becomes of the outermost of the open elements: a piece closes it, whatever follows, or the
end of the document cuts it off. -/
inductive Concludes (inner : List OpenElement) (t : Tag) (content : List Node) (ending : Ending)
    (ps : List Piece) : Prop
  | closed (l : List Piece) (y : List Char) (rest : List Piece) (inside : List Node) :
      ps = l ++ .closing y :: rest →
      (∀ before ending' ps',
        build (inner ++ [⟨t, before⟩]) content ending' (l ++ .closing y :: ps') =
          build [] (.element t inside .closed :: before) ending' ps') →
      Concludes inner t content ending ps
  | cutOff (inside : List Node) (e : Ending) : e ≠ .closed →
      (∀ before, build (inner ++ [⟨t, before⟩]) content ending ps =
        ⟨(.element t inside e :: before).reverse, e⟩) →
      Concludes inner t content ending ps

theorem Concludes.cons {inner inner' : List OpenElement} {content' : List Node} {p : Piece}
    (h : Concludes inner' t content' ending ps)
    (hstep : ∀ before ending ps', build (inner ++ [⟨t, before⟩]) content ending (p :: ps') =
      build (inner' ++ [⟨t, before⟩]) content' ending ps') :
    Concludes inner t content ending (p :: ps) := by
  cases h with
  | closed l y rest inside hps h =>
    refine .closed (p :: l) y rest inside (by rw [hps, List.cons_append]) ?_
    intro before ending' ps'
    rw [List.cons_append, hstep, h]
  | cutOff inside e he h => exact .cutOff inside e he fun before => by rw [hstep, h]

theorem concludes (hending : ending ≠ .closed) (inner : List OpenElement) (t : Tag)
    (content : List Node) (ps : List Piece) : Concludes inner t content ending ps := by
  -- The induction is on the pieces; the element stays the outermost of the open ones.
  induction ps generalizing inner content with
  | nil =>
    obtain ⟨inside, h⟩ := endAll_append ending content inner t
    exact .cutOff inside ending hending h
  | cons p ps ih =>
    cases p with
    | text s => exact (ih inner _).cons fun _ _ _ => rfl
    | cdata s => exact (ih inner _).cons fun _ _ _ => rfl
    | skipped => exact (ih inner content).cons fun _ _ _ => rfl
    | tag s =>
      cases hs : Text.before? ['/'] s with
      | some s' => exact (ih inner _).cons fun _ _ _ => by rw [build, hs]
      | none =>
        refine (ih (⟨.ofChars s, content⟩ :: inner) []).cons fun _ _ _ => ?_
        rw [build, hs]
        rfl
    | closing s =>
      cases inner with
      | nil =>
        by_cases hname : closingName s = t.name
        · refine .closed [] s ps content.reverse rfl fun before ending' ps' => ?_
          simp [build, hname]
        · refine .cutOff content.reverse (.failed (.mismatchedClosing t.name (closingName s)))
            (by simp) fun before => ?_
          simp only [List.nil_append, build, if_neg hname]
          rfl
      | cons o inner =>
        by_cases hname : closingName s = o.tag.name
        · refine (ih inner (.element o.tag content.reverse .closed :: o.before)).cons ?_
          intro _ _ _
          simp only [List.cons_append, build, if_pos hname]
        · obtain ⟨inside, h⟩ := endAll_append
            (.failed (.mismatchedClosing o.tag.name (closingName s))) content (o :: inner) t
          refine .cutOff inside (.failed (.mismatchedClosing o.tag.name (closingName s)))
            (by simp) fun before => ?_
          rw [← h]
          simp only [List.cons_append, build, if_neg hname]

/-- From a tag on, pieces make an element, unless the end of the document cuts it off. -/
theorem makes_or_cutOff (hending : ending ≠ .closed) (s : List Char) (ps : List Piece) :
    (∃ root rest t inside, .tag s :: ps = root ++ rest ∧ Makes root t inside) ∨
    ∃ t inside e, e ≠ .closed ∧ ∀ before, build [] before ending (.tag s :: ps) =
      ⟨(.element t inside e :: before).reverse, e⟩ := by
  cases hs : Text.before? ['/'] s with
  | some s' =>
    refine .inl ⟨[.tag s], ps, .ofChars s', [], rfl, ⟨s, [], rfl⟩,
      ⟨[], .tag s, rfl, Bool.false_ne_true⟩, ?_⟩
    intro before ending ps'
    rw [List.singleton_append, build, hs]
  | none =>
    have hopen : ∀ before ending ps', build [] before ending (.tag s :: ps') =
        build [⟨.ofChars s, before⟩] [] ending ps' := by
      intro before ending ps'
      rw [build, hs]
    cases concludes hending [] (.ofChars s) [] ps with
    | closed l y rest inside hps hclosed =>
      refine .inl ⟨.tag s :: l ++ [.closing y], rest, .ofChars s, inside, by simp [hps],
        ⟨s, l ++ [.closing y], rfl⟩, ⟨.tag s :: l, .closing y, rfl, Bool.false_ne_true⟩, ?_⟩
      intro before ending ps'
      rw [← hclosed, List.nil_append, ← hopen]
      simp
    | cutOff inside e he hcut =>
      exact .inr ⟨.ofChars s, inside, e, he, fun before => by rw [hopen]; exact hcut before⟩

theorem build_filler {lead : List Piece} (h : ∀ q ∈ lead, q.isFiller) (content : List Node)
    (ending : Ending) (ps : List Piece) : build [] content ending (lead ++ ps) =
      build [] ((lead.filterMap Piece.textNode?).reverse ++ content) ending ps := by
  induction lead generalizing content with
  | nil => rfl
  | cons q lead ih =>
    have hlead : ∀ q ∈ lead, q.isFiller := fun q hq => h q (List.mem_cons_of_mem _ hq)
    have hq := h q List.mem_cons_self
    cases q with
    | text raw =>
      rw [List.cons_append, build, ih hlead]
      simp [Piece.textNode?]
    | skipped =>
      rw [List.cons_append, build, ih hlead]
      rfl
    | cdata s => exact absurd hq Bool.false_ne_true
    | tag s => exact absurd hq Bool.false_ne_true
    | closing s => exact absurd hq Bool.false_ne_true

end Document

end Markup

open Markup (Node Tag Ending Piece Pieces Filler)
open Markup.Document (Makes build makes_or_cutOff build_filler exists_nodes)

namespace Document

variable {c c' : Catalog} {n count : Nat} {e ending : Ending} {content ns : List Node} {t : Tag}
  {ps : List Piece}

theorem ending_of_checkEnding {parent : String} (h : checkEnding parent e = .ok ()) :
    e = .closed := by
  cases e with
  | closed => rfl
  | endOfInput => simp [checkEnding] at h
  | failed e => simp [checkEnding] at h

theorem count_of_insertAll (h : insertAll c count e ns = (c', .ok n)) :
    e = .closed ∧ n = count + ns.countP Node.isElement := by
  induction ns generalizing c count with
  | nil =>
    obtain ⟨_, hend, hcount⟩ := map_ok (Prod.mk.inj h).2
    exact ⟨ending_of_checkEnding hend, hcount.symm⟩
  | cons node ns ih =>
    cases node with
    | text raw =>
      rw [insertAll] at h
      split_ifs at h
      · simpa [Node.isElement] using ih h
      · simp at h
    | cdata s => simp [insertAll] at h
    | element t content e' =>
      rw [insertAll] at h
      split at h
      · obtain ⟨he, hn⟩ := ih h
        refine ⟨he, ?_⟩
        rw [hn, List.countP_cons_of_pos rfl]
        omega
      · simp at h

theorem trim_isEmpty_iff {raw : List Char} :
    (Markup.trim raw).isEmpty ↔ raw.all Markup.isBlank := by
  obtain ⟨u, v, hu, hv, hraw⟩ := Text.exists_trimWhere Markup.isBlank raw
  rw [List.isEmpty_iff, List.all_eq_true]
  constructor
  · intro h
    rw [hraw, show Text.trimWhere Markup.isBlank raw = [] from h]
    simpa [or_imp, forall_and] using ⟨hu, hv⟩
  · intro h
    have hnil : Text.IsTrimmed Markup.isBlank [] := ⟨by simp, by simp⟩
    have hempty := Text.trimWhere_between h (List.forall_mem_nil _) hnil
    rwa [List.append_nil, List.append_nil] at hempty

theorem insertLibrary_filler {lead : List Piece} (h : ∀ q ∈ lead, q.isFiller) (c : Catalog)
    (e : Ending) (ns : List Node) : insertLibrary c e (lead.filterMap Piece.textNode? ++ ns) =
      insertLibrary c e ns := by
  induction lead with
  | nil => rfl
  | cons q lead ih =>
    have hlead := ih fun q hq => h q (List.mem_cons_of_mem _ hq)
    have hq := h q List.mem_cons_self
    cases q with
    | text raw =>
      have hcons : (Piece.text raw :: lead).filterMap Piece.textNode? =
          .text raw :: lead.filterMap Piece.textNode? := rfl
      rw [hcons, List.cons_append, insertLibrary, if_pos (trim_isEmpty_iff.2 hq), hlead]
    | skipped => exact hlead
    | cdata s => exact absurd hq Bool.false_ne_true
    | tag s => exact absurd hq Bool.false_ne_true
    | closing s => exact absurd hq Bool.false_ne_true

def HoldsLibrary (c c' : Catalog) (n : Nat) (ps : List Piece) : Prop :=
  ∃ lead root rest t inside, ps = lead ++ root ++ rest ∧ (∀ q ∈ lead, q.isFiller) ∧
    Makes root t inside ∧ nameOf t = "library" ∧ insertAll c 0 .closed inside = (c', .ok n)

theorem HoldsLibrary.cons {p : Piece} (h : HoldsLibrary c c' n ps) (hp : p.isFiller) :
    HoldsLibrary c c' n (p :: ps) := by
  obtain ⟨lead, root, rest, t, inside, rfl, hlead, hroot⟩ := h
  exact ⟨p :: lead, root, rest, t, inside, rfl, List.forall_mem_cons.2 ⟨hp, hlead⟩, hroot⟩

theorem ending_of_insertLibrary_nil (h : insertLibrary c e [] = (c', .ok n)) : e = .closed := by
  obtain ⟨_, hend, -⟩ := map_ok (Prod.mk.inj h).2
  exact ending_of_checkEnding hend

theorem insertLibrary_text {raw : List Char}
    (h : insertLibrary c e (.text raw :: ns) = (c', .ok n)) :
    raw.all Markup.isBlank ∧ insertLibrary c e ns = (c', .ok n) := by
  rw [insertLibrary] at h
  split_ifs at h with hblank
  · exact ⟨trim_isEmpty_iff.1 hblank, h⟩
  · simp at h

theorem insertLibrary_element {inside : List Node} {e' : Ending}
    (h : insertLibrary c e (.element t inside e' :: ns) = (c', .ok n)) :
    nameOf t = "library" ∧ insertAll c 0 e' inside = (c', .ok n) := by
  rw [insertLibrary] at h
  split_ifs at h with hname
  · exact ⟨hname, h⟩
  · simp at h

theorem holdsLibrary_of_insertLibrary (hending : ending ≠ .closed)
    (hns : (build [] content ending ps).nodes = content.reverse ++ ns)
    (h : insertLibrary c (build [] content ending ps).ending ns = (c', .ok n)) :
    HoldsLibrary c c' n ps := by
  induction ps generalizing content ns with
  | nil =>
    obtain rfl : ns = [] := by simpa [build, Markup.Document.endAll] using hns
    exact absurd (ending_of_insertLibrary_nil h) hending
  | cons p ps ih =>
    -- The first of the nodes that are left is the one that the next pieces make.
    have hnode : ∀ node ps', (build [] content ending (p :: ps) =
        build [] (node :: content) ending ps') → ∃ ns', ns = node :: ns' ∧
          (build [] (node :: content) ending ps').nodes = (node :: content).reverse ++ ns' := by
      intro node ps' hstep
      obtain ⟨ns', hns'⟩ := exists_nodes ending (node :: content) ps'
      refine ⟨ns', ?_, hns'⟩
      rw [hstep, hns', List.reverse_cons, List.append_assoc] at hns
      exact (List.append_cancel_left hns).symm
    cases p with
    | text raw =>
      obtain ⟨ns', rfl, hns'⟩ := hnode (.text raw) ps rfl
      obtain ⟨hblank, h'⟩ := insertLibrary_text h
      exact (ih hns' h').cons hblank
    | skipped => exact (ih hns h).cons rfl
    | cdata s =>
      obtain ⟨ns', rfl, -⟩ := hnode (.cdata s) ps rfl
      simp [insertLibrary] at h
    | closing s =>
      obtain rfl : ns = [] := by simpa [build, Markup.Document.endAll] using hns
      exact absurd (ending_of_insertLibrary_nil h) (by simp [build, Markup.Document.endAll])
    | tag s =>
      obtain ⟨root, rest, t, inside, hps, hroot⟩ | ⟨t, inside, e, he, hcut⟩ :=
        makes_or_cutOff hending s ps
      · obtain ⟨ns', rfl, -⟩ := hnode _ rest (by rw [hps, hroot.build_eq])
        exact ⟨[], root, rest, t, inside, hps, List.forall_mem_nil _, hroot,
          insertLibrary_element h⟩
      · rw [hcut, List.reverse_cons] at hns
        obtain rfl := List.append_cancel_left hns
        exact absurd (count_of_insertAll (insertLibrary_element h).2).1 he

theorem read_of_pieces {document : String} {lead root rest : List Piece} (c : Catalog)
    (hpieces : (Pieces.ofChars document.toList).list = lead ++ root ++ rest)
    (hlead : ∀ q ∈ lead, q.isFiller) (hroot : Makes root t content) (hname : nameOf t = "library") :
    c.read document = insertAll c 0 .closed content := by
  have hbuild : ∀ ending, build [] [] ending (lead ++ root ++ rest) = build []
      (.element t content .closed :: (lead.filterMap Piece.textNode?).reverse) ending rest := by
    intro ending
    rw [List.append_assoc, build_filler hlead, List.append_nil, hroot.build_eq]
  rw [Catalog.read, Markup.Document.ofText, Markup.Document.ofPieces, hpieces, hbuild]
  generalize Option.elim _ _ _ = ending
  obtain ⟨ns, hns⟩ := exists_nodes ending
    (.element t content .closed :: (lead.filterMap Piece.textNode?).reverse) rest
  rw [hns, List.reverse_cons, List.reverse_reverse, List.append_assoc, insertLibrary_filler hlead,
    List.singleton_append, insertLibrary, if_pos hname]

/-- The parts of a document that has a library for its root: a byte order mark or none, filler, the
root, and what follows it. -/
structure Layout (document : String) (mark before root after : List Char) (t : Tag)
    (content : List Node) : Prop where
  chars_eq : document.toList = mark ++ before ++ root ++ after
  mark_eq : mark = [] ∨ mark = ['\uFEFF']
  filler : Filler before
  head_eq : root.head? = some '<'
  root_eq : Markup.Document.ofText (String.ofList root) =
    ⟨[.element t content .closed], .endOfInput⟩
  name_eq : nameOf t = "library"

end Document

open Markup (scan scan_split filler_of_scan list_foldr_cons error_foldr_cons)

theorem Markup.exists_mark (s : List Char) :
    ∃ mark s', s = mark ++ s' ∧ (mark = [] ∨ mark = ['\uFEFF']) ∧
      ∀ u : List Char, u.head? = s'.head? → Pieces.ofChars (mark ++ u) = scan (.text []) u := by
  by_cases hs : s.head? = some '\uFEFF'
  · obtain ⟨s', rfl⟩ := List.head?_eq_some_iff.1 hs
    exact ⟨['\uFEFF'], s', rfl, .inr rfl, fun u _ => rfl⟩
  · refine ⟨[], s, rfl, .inl rfl, fun u hu => ?_⟩
    rw [List.nil_append, Pieces.ofChars]
    rintro s' rfl
    exact hs hu.symm

theorem Markup.exists_element_text {s : List Char} {lead root rest : List Piece} {t : Tag}
    {content : List Node} (h : (scan (.text []) s).list = lead ++ root ++ rest)
    (hlead : ∀ q ∈ lead, q.isFiller) (hroot : Makes root t content) :
    ∃ before u after, s = before ++ '<' :: u ++ after ∧ Filler before ∧
      scan .opened u = root.foldr Pieces.cons {} ∧
      (after ≠ [] → ∀ tail, (scan (.text []) (before ++ '<' :: u ++ tail)).list =
        lead ++ root ++ (scan (.text []) tail).list) := by
  obtain ⟨l, p, hlast, hp⟩ := hroot.last
  obtain ⟨v, after, rfl, hv, htail⟩ : ∃ v after, s = v ++ after ∧
      scan (.text []) v = (lead ++ root).foldr Pieces.cons {} ∧
      (after ≠ [] → ∀ tail, (scan (.text []) (v ++ tail)).list =
        lead ++ root ++ (scan (.text []) tail).list) := by
    rw [hlast, ← List.append_assoc, List.append_assoc _ [p]] at h
    rw [hlast, ← List.append_assoc]
    obtain ⟨v, after, rfl, hv⟩ | hcut := scan_split hp h
    · refine ⟨v, after, rfl, ?_, fun _ tail => by rw [hv, list_foldr_cons]⟩
      have hend := hv []
      rwa [List.append_nil] at hend
    · exact ⟨s, [], by rw [List.append_nil], hcut, fun hne => absurd rfl hne⟩
  obtain ⟨x, l', hhead⟩ := hroot.head
  have hlist : (scan (.text []) v).list = lead ++ .tag x :: l' := by
    rw [hv, list_foldr_cons, ← hhead]
    exact List.append_nil _
  obtain ⟨before, u, rfl, hbefore, hscan⟩ := filler_of_scan hlist hlead
  refine ⟨before, u, after, rfl, hbefore, ?_, htail⟩
  rw [hv, List.foldr_append] at hscan
  have hcancel : ∀ {ps qs : Pieces}, lead.foldr Pieces.cons ps = lead.foldr Pieces.cons qs →
      ps = qs := by
    rintro ⟨_, _⟩ ⟨_, _⟩ hfold
    have hlists := congrArg Pieces.list hfold
    have herrors := congrArg Pieces.error hfold
    simp only [list_foldr_cons, List.append_cancel_left_eq, error_foldr_cons] at hlists herrors
    rw [hlists, herrors]
  exact (hcancel hscan).symm

open Document (Layout)

/-- A document that is read has a library for its root, which only filler stands in front of, and as
many keys are read as the library has elements. What follows the root makes no difference. -/
theorem Catalog.read_up_to_root {c c' : Catalog} {document : String} {n : Nat}
    (h : c.read document = (c', .ok n)) :
    ∃ mark before root after t content, Layout document mark before root after t content ∧
      n = content.countP Node.isElement ∧
      (after ≠ [] → ∀ tail, c.read (String.ofList (mark ++ before ++ root ++ tail)) =
        (c', .ok n)) := by
  obtain ⟨mark, s, hs, hmark, hofChars⟩ := Markup.exists_mark document.toList
  have hpieces : Pieces.ofChars document.toList = scan (.text []) s := hs ▸ hofChars s rfl
  rw [Catalog.read, Markup.Document.ofText, Markup.Document.ofPieces] at h
  have hending : (Pieces.ofChars document.toList).error.elim Ending.endOfInput .failed ≠
      .closed := by
    cases (Pieces.ofChars document.toList).error <;> simp
  obtain ⟨lead, root, rest, t, content, hlist, hlead, hroot, hname, hall⟩ :=
    Document.holdsLibrary_of_insertLibrary hending (List.nil_append _).symm h
  rw [hpieces] at hlist
  obtain ⟨before, u, after, rfl, hbefore, hu, htail⟩ :=
    Markup.exists_element_text hlist hlead hroot
  refine ⟨mark, before, '<' :: u, after, t, content, ?_, ?_, fun hafter tail => ?_⟩
  · refine ⟨by simpa using hs, hmark, hbefore, rfl, ?_, hname⟩
    have hopened : Pieces.ofChars ('<' :: u) = scan .opened u := rfl
    rw [Markup.Document.ofText, String.toList_ofList, hopened, hu, Markup.Document.ofPieces,
      error_foldr_cons, list_foldr_cons]
    exact hroot.build_eq [] .endOfInput []
  · simpa using (Document.count_of_insertAll hall).2
  · have hhead : (before ++ '<' :: u ++ tail).head? = (before ++ '<' :: u ++ after).head? := by
      cases before <;> rfl
    have htext : (Pieces.ofChars
        (String.ofList (mark ++ before ++ '<' :: u ++ tail)).toList).list =
          lead ++ root ++ (scan (.text []) tail).list := by
      rw [String.toList_ofList, ← htail hafter tail, ← hofChars _ hhead]
      simp
    rw [Document.read_of_pieces c htext hlead hroot hname, hall]

def followedLibrary : String :=
  "<!-- a --><library><value key=\"a\">1</value></library><b/>"

theorem followedLibrary_read :
    (({} : Catalog).read followedLibrary).2 = .ok 1 ∧
      ∃ mark before root after t content,
        Layout followedLibrary mark before root after t content ∧
          content.countP Node.isElement = 1 ∧
          (after ≠ [] →
            (({} : Catalog).read (String.ofList (mark ++ before ++ root ++ "c".toList))).2 =
              .ok 1) := by
  have hread : (({} : Catalog).read followedLibrary).2 = .ok 1 := by decide +kernel
  obtain ⟨mark, before, root, after, t, content, hlayout, hcount, htail⟩ :=
    Catalog.read_up_to_root (Prod.ext rfl hread)
  exact ⟨hread, mark, before, root, after, t, content, hlayout, hcount.symm, fun hafter =>
    congrArg Prod.snd (htail hafter _)⟩

def twoLibraries : String :=
  "<library/><library><value key=\"a\">1</value></library>"

/-- The second library is not filler, and it is not read, although reading succeeds. -/
theorem twoLibraries_half_read :
    let second := "<library><value key=\"a\">1</value></library>".toList
    Layout twoLibraries [] [] "<library/>".toList second ⟨"library".toList, []⟩ [] ∧
      ¬Filler second ∧ (({} : Catalog).read twoLibraries).2 = .ok 0 ∧
      ¬(({} : Catalog).read twoLibraries).1.contains ⟨"a"⟩ := by
  have hsecond : ∀ s, Filler s → s.head? = some '<' → s[1]? = some '!' ∨ s[1]? = some '?' := by
    intro s hs hhead
    cases hs with
    | nil => simp at hhead
    | blank hc _ =>
      obtain rfl := Option.some.inj hhead
      exact absurd hc (by decide)
    | comment _ _ => simp
    | instruction _ _ _ => simp
    | doctype _ _ _ _ => simp
  have hpieces : Pieces.ofChars "<library/>".toList = ⟨[.tag "library/".toList], none⟩ := by
    decide +kernel
  refine ⟨⟨by decide, .inl rfl, .nil, by decide, ?_, by decide⟩, fun h => ?_, by decide +kernel,
    by decide +kernel⟩
  · rw [Markup.Document.ofText, String.ofList_toList, hpieces]
    cbv
  · exact absurd (hsecond _ h (by decide)) (by decide)

end CatalogLinker
