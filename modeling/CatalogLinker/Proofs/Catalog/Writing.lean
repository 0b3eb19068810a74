import CatalogLinker.Catalog.Document
import CatalogLinker.Proofs.Markup.Attribute

namespace CatalogLinker

open Markup (Word Opening Element)

namespace Document

inductive Kind where
  | library
  | function
  | value
  | string
  | object
  | array
  | aliasOf
  | list
  | flag
  | postset

namespace Kind

def name : Kind → String
  | library => "library"
  | function => "function"
  | value => "value"
  | string => "string"
  | object => "object"
  | array => "array"
  | aliasOf => "alias"
  | list => "list"
  | flag => "flag"
  | postset => "postset"

def word (k : Kind) : Word :=
  ⟨k.name.toList, by cases k <;> decide, by cases k <;> decide⟩

end Kind

def keyWord : Word :=
  ⟨"key".toList, by decide, by decide⟩

def identWord : Word :=
  ⟨"ident".toList, by decide, by decide⟩

def depsWord : Word :=
  ⟨"deps".toList, by decide, by decide⟩

def bare (k : Kind) : Opening :=
  ⟨k.word, [], List.nodup_nil⟩

def keyed (key : String) (k : Kind) : Opening :=
  ⟨k.word, [(keyWord, key)], by simp⟩

mutual

def literalElement (start : Kind → Opening) : Literal → Element
  | .raw code => .leaf (start .value) code
  | .str text => .leaf (start .string) text
  | .function code => .leaf (start .function) code
  | .array items => .branch (start .array) (itemElements items)
  | .object members => .branch (start .object) (memberElements members)

def itemElements : List Literal → List Element
  | [] => []
  | v :: vs => literalElement bare v :: itemElements vs

def memberElements : List (String × Literal) → List Element
  | [] => []
  | (key, v) :: ms => literalElement (keyed key) v :: memberElements ms

end

def listText (is : List Ident) : String :=
  String.intercalate " " (is.map Ident.text)

def postsetOpening (key : String) (d : Postset) : Opening where
  name := Kind.postset.word
  attributes := (keyWord, key) :: (d.ident.map fun i => (identWord, i.text)).toList
    ++ (d.deps.map fun is => (depsWord, listText is)).toList
  nodup := by
    cases d.ident <;> cases d.deps <;> simp [keyWord, identWord, depsWord]

def element (key : String) : CatalogValue → Element
  | .function code => .leaf (keyed key .function) code
  | .text code => .leaf (keyed key .value) code
  | .aliasOf target => .leaf (keyed key .aliasOf) target.text
  | .structured v => literalElement (keyed key) v
  | .list is => .leaf (keyed key .list) (listText is)
  | .flag isSet => .leaf (keyed key .flag) (if isSet then "true" else "false")
  | .postset d => .leaf (postsetOpening key d) d.text

def libraryElement (pairs : List (String × CatalogValue)) : Element :=
  .branch (bare .library) (pairs.map fun p => element p.1 p.2)

def written (pairs : List (String × CatalogValue)) : String :=
  String.ofList (libraryElement pairs).chars

end Document

inductive Literal.Writable : Literal → Prop
  | raw {code : String} : Text.IsTrimmed Markup.isBlank code.toList → Writable (.raw code)
  | str {text : String} : Writable (.str text)
  | function {code : String} : Text.IsTrimmed Markup.isBlank code.toList → Writable (.function code)
  | array {items : List Literal} : (∀ v ∈ items, Writable v) → Writable (.array items)
  | object {members : List (String × Literal)} : (∀ m ∈ members, Writable m.2) →
      Writable (.object members)

def Ident.Listable (is : List Ident) : Prop :=
  Text.AreWords Text.isBlank (is.map fun i => i.text.toList)

inductive CatalogValue.Writable : CatalogValue → Prop
  | function {code : String} : Text.IsTrimmed Markup.isBlank code.toList → Writable (.function code)
  | text {code : String} : Text.IsTrimmed Markup.isBlank code.toList → Writable (.text code)
  | aliasOf {target : Ident} : Text.IsTrimmed Text.isBlank target.text.toList →
      Writable (.aliasOf target)
  | array {items : List Literal} : Literal.Writable (.array items) →
      Writable (.structured (.array items))
  | object {members : List (String × Literal)} : Literal.Writable (.object members) →
      Writable (.structured (.object members))
  | list {is : List Ident} : Ident.Listable is → Writable (.list is)
  | flag {isSet : Bool} : Writable (.flag isSet)
  | postset {d : Postset} : Text.IsTrimmed Markup.isBlank d.text.toList →
      (∀ i ∈ d.ident, Text.IsTrimmed Text.isBlank i.text.toList) →
      (∀ is ∈ d.deps, Ident.Listable is) → Writable (.postset d)

namespace Document

variable {o : Opening} {k : Kind} {parent s : String} {verbatim : Bool}

theorem nameOf_tag (h : o.name = k.word) : nameOf o.tag = k.name := by
  rw [nameOf, Opening.tag, h, Kind.word, String.ofList_toList]

theorem runText_encode (h : verbatim ∨ Text.IsTrimmed Markup.isBlank s.toList) :
    runText verbatim (Markup.Entity.encode s.toList) = .ok s.toList := by
  have hkept : (if verbatim then Markup.Entity.encode s.toList
      else Markup.trim (Markup.Entity.encode s.toList)) = Markup.Entity.encode s.toList := by
    split_ifs with hv
    · rfl
    · exact Markup.trim_eq_self (Markup.Entity.isTrimmed_encode (h.resolve_left hv))
  rw [runText, hkept, Markup.Entity.decode_encode]
  rfl

theorem text_leaf (t : Markup.Tag) (h : verbatim ∨ Text.IsTrimmed Markup.isBlank s.toList) :
    text t verbatim (if s = "" then [] else [.text (Markup.Entity.encode s.toList)]) .closed =
      .ok s := by
  split_ifs with hs
  · rw [hs]
    rfl
  · rw [text, textFrom, runText_encode h]
    simp only [textFrom, checkEnding, bind, Except.bind, Except.map, pure, Except.pure,
      List.append_nil, String.ofList_toList]

theorem text_trimmed (t : Markup.Tag) (h : Text.IsTrimmed Markup.isBlank s.toList) :
    text t false (if s = "" then [] else [.text (Markup.Entity.encode s.toList)]) .closed =
      .ok s :=
  text_leaf t (.inr h)

theorem attribute?_tag (o : Opening) (key : String) :
    attribute? o.tag key = .ok (o.value? key) := by
  rw [attribute?, o.value_tag]
  rfl

theorem requiredKey_tag {key : String} (h : o.value? "key" = some key) :
    requiredKey o.tag = .ok key := by
  rw [requiredKey, attribute?_tag, h]
  rfl

theorem value?_keyed (key : String) (k : Kind) : (keyed key k).value? "key" = some key := rfl

theorem nameOf_keyed (key : String) (k : Kind) : nameOf (keyed key k).tag = k.name :=
  nameOf_tag rfl

/-- Ways to start an element that keep the name it is to have. -/
def KeepsName (start : Kind → Opening) : Prop :=
  ∀ k, (start k).name = k.word

theorem keepsName_bare : KeepsName bare := fun _ => rfl

theorem keepsName_keyed (key : String) : KeepsName (keyed key) := fun _ => rfl

theorem exists_node_literalElement (start : Kind → Opening) (v : Literal) :
    ∃ k content, (literalElement start v).node = .element (start k).tag content .closed := by
  cases v <;> exact ⟨_, _, rfl⟩

theorem items_elements {vs : List Literal}
    (h : ∀ v ∈ vs, ∀ parent, literal parent (literalElement bare v).node = .ok v) :
    items parent .closed (Element.nodes (itemElements vs)) = .ok vs := by
  induction vs with
  | nil => rfl
  | cons v vs ih =>
    obtain ⟨k, content, hnode⟩ := exists_node_literalElement bare v
    have hv := h v List.mem_cons_self parent
    rw [itemElements, Element.nodes, hnode, items, ← hnode, hv,
      ih fun w hw => h w (List.mem_cons_of_mem v hw)]
    rfl

theorem members_elements {ms : List (String × Literal)}
    (h : ∀ m ∈ ms, ∀ parent, literal parent (literalElement (keyed m.1) m.2).node = .ok m.2) :
    members parent .closed (Element.nodes (memberElements ms)) = .ok ms := by
  induction ms with
  | nil => rfl
  | cons m ms ih =>
    obtain ⟨key, v⟩ := m
    obtain ⟨k, content, hnode⟩ := exists_node_literalElement (keyed key) v
    have hv := h (key, v) List.mem_cons_self parent
    rw [memberElements, Element.nodes, hnode, members, ← hnode, hv,
      requiredKey_tag (value?_keyed key k), ih fun m hm => h m (List.mem_cons_of_mem _ hm)]
    rfl

theorem literal_element {v : Literal} (hv : v.Writable) {start : Kind → Opening}
    (hstart : KeepsName start) (parent : String) :
    literal parent (literalElement start v).node = .ok v := by
  induction hv generalizing start parent with
  | raw h =>
    rw [literalElement, Element.node, literal, nameOf_tag (hstart .value), Kind.name, if_pos rfl,
      text_leaf _ (.inr h)]
    rfl
  | str =>
    rw [literalElement, Element.node, literal, nameOf_tag (hstart .string), Kind.name,
      if_neg (by decide), if_pos rfl, text_leaf _ (.inl rfl)]
    rfl
  | function h =>
    rw [literalElement, Element.node, literal, nameOf_tag (hstart .function), Kind.name,
      if_neg (by decide), if_neg (by decide), if_pos rfl, text_leaf _ (.inr h)]
    rfl
  | array _ ih =>
    rw [literalElement, Element.node, literal, nameOf_tag (hstart .array), Kind.name,
      if_neg (by decide), if_neg (by decide), if_neg (by decide), if_neg (by decide), if_pos rfl,
      items_elements fun v hv parent => ih v hv keepsName_bare parent]
    rfl
  | object _ ih =>
    rw [literalElement, Element.node, literal, nameOf_tag (hstart .object), Kind.name,
      if_neg (by decide), if_neg (by decide), if_neg (by decide), if_pos rfl,
      members_elements fun m hm parent => ih m hm (keepsName_keyed m.1) parent]
    rfl

theorem listText_toList (is : List Ident) :
    (listText is).toList = List.intercalate [' '] (is.map fun i => i.text.toList) := by
  rw [listText, String.toList_intercalate, List.map_map]
  rfl

theorem idents_listText {is : List Ident} (h : Ident.Listable is) : idents (listText is) = is := by
  rw [idents, Text.words, listText_toList, Text.wordsFrom_intercalate h (by decide), List.map_map,
    List.map_map]
  refine List.map_id'' (fun i => ?_) is
  simp

theorem isTrimmed_listText {is : List Ident} (h : Ident.Listable is) :
    Text.IsTrimmed Text.isBlank (listText is).toList := by
  rw [listText_toList]
  exact h.isTrimmed _

theorem flag_text (isSet : Bool) : flag (if isSet then "true" else "false") = .ok isSet := by
  cases isSet <;> decide

theorem isTrimmed_flag (isSet : Bool) :
    Text.IsTrimmed Markup.isBlank (if isSet then "true" else "false").toList := by
  cases isSet <;> exact ⟨by decide, by decide⟩

theorem key_postsetOpening (key : String) (d : Postset) :
    (postsetOpening key d).value? "key" = some key := rfl

theorem ident_postsetOpening (key : String) (d : Postset) :
    (postsetOpening key d).value? "ident" = d.ident.map Ident.text := by
  obtain ⟨ident, deps, text⟩ := d
  cases ident <;> cases deps <;> rfl

theorem deps_postsetOpening (key : String) (d : Postset) :
    (postsetOpening key d).value? "deps" = d.deps.map listText := by
  obtain ⟨ident, deps, text⟩ := d
  cases ident <;> cases deps <;> rfl

def ReadsAs (n : Markup.Node) (key : String) (v : CatalogValue) : Prop :=
  ∃ t content, n = .element t content .closed ∧ requiredKey t = .ok key ∧
    value t content .closed = .ok v

theorem readsAs_of_value {o : Opening} {text key : String} {v : CatalogValue}
    (hkey : o.value? "key" = some key)
    (hv : value o.tag (if text = "" then [] else [.text (Markup.Entity.encode text.toList)])
      .closed = .ok v) : ReadsAs (Element.leaf o text).node key v :=
  ⟨o.tag, _, rfl, requiredKey_tag hkey, hv⟩

theorem readsAs_element {v : CatalogValue} (hv : v.Writable) (key : String) :
    ReadsAs (element key v).node key v := by
  cases hv with
  | function h =>
    refine readsAs_of_value rfl ?_
    simp only [value, nameOf_keyed, Kind.name, text_trimmed _ h]
    rfl
  | text h =>
    refine readsAs_of_value rfl ?_
    simp only [value, nameOf_keyed, Kind.name, text_trimmed _ h]
    rfl
  | @aliasOf target h =>
    refine readsAs_of_value rfl ?_
    have htext := text_trimmed (keyed key .aliasOf).tag (Markup.isTrimmed_of_text h)
    simp only [value, nameOf_keyed, Kind.name, htext, bind, Except.bind, Text.trim_eq_self h]
    rfl
  | @array vs h =>
    cases h with
    | array h =>
      refine ⟨(keyed key .array).tag, _, rfl, requiredKey_tag rfl, ?_⟩
      have hitems : items "array" .closed (Element.nodes (itemElements vs)) = .ok vs :=
        items_elements fun v hv parent => literal_element (h v hv) keepsName_bare parent
      simp only [value, nameOf_keyed, Kind.name, hitems]
      rfl
  | @object ms h =>
    cases h with
    | object h =>
      refine ⟨(keyed key .object).tag, _, rfl, requiredKey_tag rfl, ?_⟩
      have hmembers : members "object" .closed (Element.nodes (memberElements ms)) = .ok ms :=
        members_elements fun m hm parent => literal_element (h m hm) (keepsName_keyed m.1) parent
      simp only [value, nameOf_keyed, Kind.name, hmembers]
      rfl
  | @list is h =>
    refine readsAs_of_value rfl ?_
    have htext := text_trimmed (keyed key .list).tag
      (Markup.isTrimmed_of_text (isTrimmed_listText h))
    simp only [value, nameOf_keyed, Kind.name, htext, bind, Except.bind, idents_listText h]
    rfl
  | @flag isSet =>
    refine readsAs_of_value rfl ?_
    have htext := text_trimmed (keyed key .flag).tag (isTrimmed_flag isSet)
    simp only [value, nameOf_keyed, Kind.name, htext, bind, Except.bind, flag_text]
    rfl
  | @postset d h hi hd =>
    refine readsAs_of_value (key_postsetOpening key d) ?_
    have hname : nameOf (postsetOpening key d).tag = Kind.postset.name := nameOf_tag rfl
    have hident : (d.ident.map Ident.text).map (fun s => (⟨Text.trim s⟩ : Ident)) = d.ident := by
      rw [Option.map_map]
      exact (Option.map_congr fun i hid =>
        congrArg Ident.mk (Text.trim_eq_self (hi i hid))).trans Option.map_id_apply
    have hdeps : (d.deps.map listText).map idents = d.deps := by
      rw [Option.map_map]
      exact (Option.map_congr fun is his => idents_listText (hd is his)).trans Option.map_id_apply
    simp only [value, hname, Kind.name, text_trimmed _ h, attribute?_tag, ident_postsetOpening,
      deps_postsetOpening, bind, Except.bind, hident, hdeps]
    rfl

end Document

def Catalog.insertEach (c : Catalog) :
    List (String × CatalogValue) → Catalog × Except ShapeError Unit
  | [] => (c, .ok ())
  | (key, v) :: rest =>
    match c.tryInsert key v with
    | (c, .ok ()) => c.insertEach rest
    | (c, .error e) => (c, .error e)

namespace Document

variable {pairs : List (String × CatalogValue)}

theorem insertAll_elements (hpairs : ∀ p ∈ pairs, p.2.Writable) (c : Catalog) (count : Nat) :
    insertAll c count .closed (Element.nodes (pairs.map fun p => element p.1 p.2)) =
      ((c.insertEach pairs).1,
        ((c.insertEach pairs).2.map fun _ => count + pairs.length).mapError .shape) := by
  induction pairs generalizing c count with
  | nil => rfl
  | cons p pairs ih =>
    obtain ⟨key, v⟩ := p
    obtain ⟨t, content, hnode, hkey, hv⟩ :=
      readsAs_element (hpairs (key, v) List.mem_cons_self) key
    have hrest := fun p hp => hpairs p (List.mem_cons_of_mem (key, v) hp)
    have hinsert : insert c t content .closed =
        ((c.tryInsert key v).1, (c.tryInsert key v).2.mapError .shape) := by
      rw [insert, pair, hkey, hv]
      rfl
    rw [List.map_cons, Element.nodes, hnode, insertAll, hinsert, Catalog.insertEach]
    obtain ⟨c, e | u⟩ := c.tryInsert key v
    · rfl
    · rw [List.length_cons, Nat.add_comm pairs.length 1, ← Nat.add_assoc]
      exact ih hrest c (count + 1)

end Document

/-- Reading a written document inserts what it is written with: it gives the number of keys, or the
error of the first insertion that fails, and the catalog as the insertions leave it. -/
theorem Catalog.read_written (c : Catalog) (pairs : List (String × CatalogValue))
    (hpairs : ∀ p ∈ pairs, p.2.Writable) :
    c.read (Document.written pairs) =
      ((c.insertEach pairs).1,
        ((c.insertEach pairs).2.map fun _ => pairs.length).mapError .shape) := by
  have htree := Markup.Document.ofText_chars (Document.libraryElement pairs)
  have hname : Document.nameOf (Document.bare .library).tag = "library" :=
    Document.nameOf_tag (k := .library) rfl
  have hinsert := Document.insertAll_elements hpairs c 0
  rw [Nat.zero_add] at hinsert
  simp only [read, Document.written, htree]
  rw [Document.libraryElement, Element.node, Document.insertLibrary, if_pos hname]
  exact hinsert

example : Document.written [("a\"b", .text "1 < 2"), ("c__deps", .list [⟨"d"⟩, ⟨"e"⟩])] =
    "<library><value key=\"a&quot;b\">1 &lt; 2</value>" ++
      "<list key=\"c__deps\">d e</list></library>" := by
  decide +kernel

/-- A nested value with an arbitrary text and an arbitrary key, a postset, and a value that its key
does not accept. -/
def assorted : List (String × CatalogValue) :=
  [("a&b", .structured (.object [("<\"", .str " two  words\n"),
      ("c", .array [.raw "1", .array []])])),
    ("d__postset", .postset ⟨some ⟨"d"⟩, some [⟨"e"⟩, ⟨"f"⟩], "_d = 1"⟩),
    ("d__deps", .flag true),
    ("g", .text "2")]

theorem assorted_writable : ∀ p ∈ assorted, p.2.Writable := by
  have hitem : ∀ v ∈ [Literal.raw "1", Literal.array []], v.Writable :=
    List.forall_mem_cons.2 ⟨.raw ⟨by decide, by decide⟩,
      List.forall_mem_singleton.2 (.array (List.forall_mem_nil _))⟩
  have hmember : ∀ m ∈ [("<\"", Literal.str " two  words\n"),
      ("c", Literal.array [.raw "1", .array []])], m.2.Writable :=
    List.forall_mem_cons.2 ⟨.str, List.forall_mem_singleton.2 (.array hitem)⟩
  have hdeps : ∀ is ∈ some [(⟨"e"⟩ : Ident), ⟨"f"⟩], Ident.Listable is := by
    rintro is ⟨⟩
    refine List.forall_mem_cons.2 ⟨⟨by decide, ?_⟩, List.forall_mem_singleton.2 ⟨by decide, ?_⟩⟩
    · exact List.forall_mem_singleton.2 (by decide)
    · exact List.forall_mem_singleton.2 (by decide)
  have hident : ∀ i ∈ some (⟨"d"⟩ : Ident), Text.IsTrimmed Text.isBlank i.text.toList := by
    rintro i ⟨⟩
    exact ⟨by decide, by decide⟩
  simp only [assorted, List.forall_mem_cons]
  exact ⟨.object (.object hmember), .postset ⟨by decide, by decide⟩ hident hdeps, .flag,
    .text ⟨by decide, by decide⟩, List.forall_mem_nil _⟩

theorem assorted_read :
    ((({} : Catalog).read (Document.written assorted)).1.idents,
      (({} : Catalog).read (Document.written assorted)).2) =
      ([⟨"a&b"⟩], .error (.shape ⟨"d__deps", "flag", "list"⟩)) := by
  rw [Catalog.read_written {} assorted assorted_writable]
  rfl

end CatalogLinker
