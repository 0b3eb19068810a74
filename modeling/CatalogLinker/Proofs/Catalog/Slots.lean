import CatalogLinker.Proofs.Catalog.Order

namespace CatalogLinker

namespace Slot

structure Splits (key : String) (i : Ident) (s : Slot) : Prop where
  ne_empty : i.text ≠ ""
  eq : key = i.text ++ s.suffixText

variable {key : String} {i j : Ident} {s t : Slot}

theorem ident?_eq_some_iff : s.ident? key = some i ↔ Splits key i s := by
  have heq : ∀ rest : List Char, Text.before? s.suffixText.toList key.toList = some rest ↔
      key = String.ofList rest ++ s.suffixText := by
    intro rest
    rw [Text.before?_eq_some_iff, ← String.toList_inj, String.toList_append, String.toList_ofList]
  rw [ident?]
  constructor
  · intro h
    split at h
    · rename_i c rest hbefore
      obtain rfl : (⟨String.ofList (c :: rest)⟩ : Ident) = i := Option.some.inj h
      exact ⟨by simp [← String.toList_inj], (heq _).1 hbefore⟩
    · simp at h
  · rintro ⟨hne, hkey⟩
    obtain ⟨c, rest, hi⟩ : ∃ c rest, i.text.toList = c :: rest :=
      List.exists_cons_of_ne_nil fun h => hne (String.toList_inj.1 h)
    have htext : String.ofList (c :: rest) = i.text := by rw [← hi, String.ofList_toList]
    rw [(heq (c :: rest)).2 (htext ▸ hkey)]
    simp only [htext]

theorem suffixText_inj (h : s.suffixText.toList <:+ t.suffixText.toList) : s = t := by
  revert h
  cases s <;> cases t <;> decide

theorem Splits.unique (h : Splits key i s) (h' : Splits key j t) : i = j ∧ s = t := by
  have hlist : i.text.toList ++ s.suffixText.toList = j.text.toList ++ t.suffixText.toList := by
    rw [← String.toList_append, ← String.toList_append, ← h.eq, h'.eq]
  obtain rfl : s = t := by
    obtain hst | hts := List.suffix_or_suffix_of_suffix (List.suffix_append _ _)
      (hlist ▸ List.suffix_append j.text.toList t.suffixText.toList)
    · exact suffixText_inj hst
    · exact (suffixText_inj hts).symm
  have htext : i.text = j.text := String.toList_inj.1 (List.append_cancel_right hlist)
  obtain ⟨a⟩ := i
  obtain ⟨b⟩ := j
  exact ⟨congrArg Ident.mk htext, rfl⟩

end Slot

namespace CatalogKey

variable {key : String} {i : Ident} {s : Slot} {k l : CatalogKey}

theorem splits_of_findSome?
    (h : Slot.all.findSome? (fun s => (s.ident? key).map (metadata · s)) = some k) :
    ∃ i s, k = metadata i s ∧ Slot.Splits key i s := by
  obtain ⟨s, -, hs⟩ := List.exists_of_findSome?_eq_some h
  obtain ⟨i, hi, rfl⟩ := Option.map_eq_some_iff.1 hs
  exact ⟨i, s, rfl, Slot.ident?_eq_some_iff.1 hi⟩

theorem ofText_eq_metadata_iff : ofText key = metadata i s ↔ Slot.Splits key i s := by
  rw [ofText]
  split
  · rename_i k hfound
    obtain ⟨j, t, rfl, hsplit⟩ := splits_of_findSome? hfound
    constructor
    · intro h
      obtain ⟨rfl, rfl⟩ : j = i ∧ t = s := by simpa using h
      exact hsplit
    · intro h
      obtain ⟨rfl, rfl⟩ := hsplit.unique h
      rfl
  · rename_i hnone
    refine iff_of_false (by simp) fun h => ?_
    have hs : (s.ident? key).map (metadata · s) = none :=
      List.findSome?_eq_none_iff.1 hnone s (by cases s <;> decide)
    simp [Slot.ident?_eq_some_iff.2 h] at hs

theorem ofText_eq_entry_iff :
    ofText key = entry i ↔ i.text = key ∧ ∀ j s, ¬Slot.Splits key j s := by
  constructor
  · intro h
    refine ⟨?_, fun j s hsplit => ?_⟩
    · rw [ofText] at h
      split at h
      · rename_i k hfound
        obtain ⟨j, t, rfl, -⟩ := splits_of_findSome? hfound
        simp at h
      · rw [← CatalogKey.entry.inj h]
    · rw [ofText_eq_metadata_iff.2 hsplit] at h
      simp at h
  · rintro ⟨rfl, hno⟩
    cases hk : ofText i.text with
    | metadata j s => exact absurd (ofText_eq_metadata_iff.1 hk) (hno j s)
    | entry j =>
      rw [ofText] at hk
      split at hk
      · rename_i k hfound
        obtain ⟨j, t, rfl, -⟩ := splits_of_findSome? hfound
        simp at hk
      · exact hk.symm

theorem text_ofText (key : String) : (ofText key).text = key := by
  cases h : ofText key with
  | entry i => exact (ofText_eq_entry_iff.1 h).1
  | metadata i s => exact (ofText_eq_metadata_iff.1 h).eq.symm

theorem ofText_injective : Function.Injective ofText :=
  Function.LeftInverse.injective text_ofText

theorem ext_iff' : k = l ↔ k.ident = l.ident ∧ k.slot? = l.slot? := by
  cases k <;> cases l <;> simp [ident, slot?]

end CatalogKey

inductive Content where
  | entry (e : Option Entry)
  | idents (is : List Ident)
  | text (t : Option String)
  | flag (isSet : Bool)
  | postset (d : Option Postset)

namespace Item

def content (x : Item) : Option Slot → Content
  | none => .entry x.entry
  | some .deps => .idents x.deps
  | some .sig => .text x.sig
  | some .proxy => .text x.proxy
  | some .asm => .flag x.inCompiledSection
  | some .inlined => .flag x.isInline
  | some .postset => .postset x.postset

theorem ext_content {x y : Item} (h : ∀ s, x.content s = y.content s) : x = y := by
  have hentry := h none
  have hdeps := h (some .deps)
  have hsig := h (some .sig)
  have hproxy := h (some .proxy)
  have hasm := h (some .asm)
  have hinline := h (some .inlined)
  have hpostset := h (some .postset)
  cases x
  cases y
  simp_all [content]

end Item

namespace CatalogValue

/-- What a value means for a slot, or for the entry, that accepts it. -/
def meaning? : Option Slot → CatalogValue → Option Content
  | none, .function code => some (.entry (some (.body code)))
  | none, .text code => some (.entry (some (.raw code)))
  | none, .aliasOf target => some (.entry (some (.aliasOf target)))
  | none, .structured v => some (.entry (some (.structured v)))
  | some .deps, .list is => some (.idents is)
  | some .sig, .text t => some (.text (some (Text.trim t)))
  | some .proxy, .text t => some (.text (some (Text.trim t)))
  | some .asm, .flag b => some (.flag b)
  | some .inlined, .flag b => some (.flag b)
  | some .inlined, _ => some (.flag true)
  | some .postset, .postset d => some (.postset (some d))
  | some .postset, .text t => some (.postset (some ⟨none, none, t⟩))
  | _, _ => none

def shapes : Option Slot → List String
  | none => ["function", "text", "alias", "structured value"]
  | some .deps => ["list"]
  | some .sig => ["text"]
  | some .proxy => ["text"]
  | some .asm => ["flag"]
  | some .inlined =>
    ["function", "text", "alias", "structured value", "list", "flag", "postset"]
  | some .postset => ["postset", "text"]

theorem isSome_meaning?_iff {s : Option Slot} {v : CatalogValue} :
    (v.meaning? s).isSome ↔ v.shape ∈ shapes s := by
  cases s with
  | none => cases v <;> simp [meaning?, shapes, shape]
  | some s => cases s <;> cases v <;> simp [meaning?, shapes, shape]

def expected : Option Slot → String
  | none => "function, text, alias, or structured value"
  | some s => s.accepts

end CatalogValue

namespace Slot

variable {s : Slot} {v : CatalogValue} {x : Item}

theorem write?_cases (s : Slot) (v : CatalogValue) (x : Item) :
    (∃ m y, v.meaning? (some s) = some m ∧ s.write? v x = some y ∧ y.content (some s) = m ∧
      ∀ t, t ≠ some s → y.content t = x.content t) ∨
    v.meaning? (some s) = none ∧ s.write? v x = none := by
  cases s <;> cases v
  all_goals first
    | exact .inr ⟨rfl, rfl⟩
    | refine .inl ⟨_, _, rfl, rfl, rfl, fun t ht => ?_⟩
      obtain _ | t := t
      · rfl
      · cases t <;> first | rfl | exact absurd rfl ht

end Slot

namespace Catalog

def content (c : Catalog) (k : CatalogKey) : Content :=
  (c.item k.ident).content k.slot?

/-- From one catalog to the next, a meaning has been written at a place and nowhere else. -/
structure Writes (c c' : Catalog) (k : CatalogKey) (m : Content) : Prop where
  holds : c'.content k = m
  keeps : ∀ l, l ≠ k → c'.content l = c.content l
  present : c'.contains k.ident
  others : ∀ i, i ≠ k.ident → c'.get? i = c.get? i

/-- Inserts values under their keys in order; those that are not accepted are passed over. -/
def insertAccepted (c : Catalog) (pairs : List (String × CatalogValue)) : Catalog :=
  c.applyAll (pairs.map fun p => .insert p.1 p.2)

def meaningAt? (k : CatalogKey) (p : String × CatalogValue) : Option Content :=
  if CatalogKey.ofText p.1 = k then p.2.meaning? k.slot? else none

variable {c c' : Catalog} {k : CatalogKey} {m : Content} {i : Ident} {y : Item} {key : String}
  {v : CatalogValue} {pairs : List (String × CatalogValue)}

theorem writes_put (hm : y.content k.slot? = m)
    (hy : ∀ t, t ≠ k.slot? → y.content t = (c.item k.ident).content t) :
    Writes c (c.put k.ident y) k m where
  holds := by rw [content, item_put, if_pos rfl, hm]
  keeps := by
    intro l hl
    rw [content, item_put]
    split
    · rename_i hi
      have hslot : l.slot? ≠ k.slot? := fun hs => hl (CatalogKey.ext_iff'.2 ⟨hi.symm, hs⟩)
      rw [hy _ hslot, hi, content]
    · rfl
  present := by simp [contains, get?_put]
  others := fun i hi => by rw [get?_put, if_neg hi.symm]

theorem writes_define (h : Writes c (c.put i y) k m) : Writes c (c.define i y) k m :=
  ⟨h.holds, h.keeps, h.present, h.others⟩

/-- A value that its key does not accept changes nothing. -/
theorem tryInsert_error {e : ShapeError} (h : c.tryInsert key v = (c', .error e)) : c' = c := by
  rw [tryInsert] at h
  split at h
  all_goals
    split at h
    · simp at h
    · exact (Prod.mk.inj h).1.symm

theorem insert_eq_ok_iff : c.insert key v = .ok c' ↔ c.tryInsert key v = (c', .ok ()) := by
  rw [insert]
  obtain ⟨c₁, e | u⟩ := c.tryInsert key v
  · simp [Except.map]
  · simp [Except.map]

theorem insert_eq_error_iff {e : ShapeError} :
    c.insert key v = .error e ↔ c.tryInsert key v = (c, .error e) := by
  rw [insert]
  cases hc : c.tryInsert key v with
  | mk c₁ result =>
    cases result with
    | error e' =>
      obtain rfl : c₁ = c := tryInsert_error hc
      simp [Except.map]
    | ok _ => simp [Except.map]

/-- A value is written at the place of its key, or it is not accepted there. -/
theorem insert_cases (c : Catalog) (key : String) (v : CatalogValue) :
    (∃ m c', v.meaning? (CatalogKey.ofText key).slot? = some m ∧ c.insert key v = .ok c' ∧
      Writes c c' (CatalogKey.ofText key) m) ∨
    v.meaning? (CatalogKey.ofText key).slot? = none ∧ c.insert key v =
      .error ⟨key, v.shape, CatalogValue.expected (CatalogKey.ofText key).slot?⟩ := by
  cases hk : CatalogKey.ofText key with
  | entry i =>
    have hmeaning : v.meaning? none = v.entry?.map fun e => .entry (some e) := by cases v <;> rfl
    cases he : v.entry? with
    | none =>
      refine .inr ⟨by rw [CatalogKey.slot?, hmeaning, he, Option.map_none], ?_⟩
      simp only [insert, tryInsert, hk, he]
      rfl
    | some e =>
      refine .inl ⟨.entry (some e), c.defineEntry i e, ?_, ?_, ?_⟩
      · rw [CatalogKey.slot?, hmeaning, he, Option.map_some]
      · simp only [insert, tryInsert, hk, he]
        rfl
      · refine writes_define (writes_put (k := .entry i) rfl fun t ht => ?_)
        cases t with
        | none => exact absurd rfl ht
        | some t => cases t <;> rfl
  | metadata i s =>
    obtain ⟨m, y, hm, hw, hy, hkeeps⟩ | ⟨hm, hw⟩ := Slot.write?_cases s v (c.item i)
    · refine .inl ⟨m, c.put i y, hm, ?_, writes_put (k := .metadata i s) hy hkeeps⟩
      simp only [insert, tryInsert, hk, hw]
      rfl
    · refine .inr ⟨hm, ?_⟩
      simp only [insert, tryInsert, hk, hw]
      rfl

theorem apply_of_ok (h : c.insert key v = .ok c') : c.apply (.insert key v) = c' := by
  rw [apply, insert_eq_ok_iff.1 h]

theorem apply_of_error {e : ShapeError} (h : c.insert key v = .error e) :
    c.apply (.insert key v) = c := by
  rw [apply, insert_eq_error_iff.1 h]

theorem content_apply (c : Catalog) (k : CatalogKey) (key : String) (v : CatalogValue) :
    (c.apply (.insert key v)).content k = (meaningAt? k (key, v)).getD (c.content k) := by
  obtain ⟨m, c', hm, hok, hw⟩ | ⟨hm, herror⟩ := insert_cases c key v
  · rw [apply_of_ok hok, meaningAt?]
    split
    · rename_i hk
      subst hk
      rw [hm, hw.holds, Option.getD_some]
    · rename_i hk
      exact hw.keeps k (Ne.symm hk)
  · rw [apply_of_error herror, meaningAt?]
    split
    · rename_i hk
      rw [← hk, hm, Option.getD_none]
    · rfl

theorem contains_apply (c : Catalog) (i : Ident) (key : String) (v : CatalogValue) :
    (c.apply (.insert key v)).contains i ↔ c.contains i ∨
      (CatalogKey.ofText key).ident = i ∧ (v.meaning? (CatalogKey.ofText key).slot?).isSome := by
  obtain ⟨m, c', hm, hok, hw⟩ | ⟨hm, herror⟩ := insert_cases c key v
  · rw [apply_of_ok hok, hm]
    by_cases hi : i = (CatalogKey.ofText key).ident
    · subst hi
      simp [hw.present]
    · simp [contains, hw.others i hi, Ne.symm hi]
  · rw [apply_of_error herror, hm]
    simp

theorem insertAccepted_concat (c : Catalog) (pairs : List (String × CatalogValue))
    (key : String) (v : CatalogValue) :
    c.insertAccepted (pairs ++ [(key, v)]) = (c.insertAccepted pairs).apply (.insert key v) := by
  rw [insertAccepted, List.map_append, List.map_singleton, applyAll_append_singleton]
  rfl

/-- The last insertion that a place accepts tells what it holds. -/
theorem content_insertAccepted (c : Catalog) (pairs : List (String × CatalogValue))
    (k : CatalogKey) : (c.insertAccepted pairs).content k =
      ((pairs.filterMap (meaningAt? k)).getLast?).getD (c.content k) := by
  induction pairs using List.reverseRecOn with
  | nil => rfl
  | append_singleton pairs p ih =>
    obtain ⟨key, v⟩ := p
    rw [insertAccepted_concat, content_apply, List.filterMap_append]
    cases h : meaningAt? k (key, v) with
    | none => simp [h, ih]
    | some m => simp [h]

theorem contains_insertAccepted (c : Catalog) (pairs : List (String × CatalogValue)) (i : Ident) :
    (c.insertAccepted pairs).contains i ↔ c.contains i ∨ ∃ p ∈ pairs,
      (CatalogKey.ofText p.1).ident = i ∧ (p.2.meaning? (CatalogKey.ofText p.1).slot?).isSome := by
  induction pairs using List.reverseRecOn with
  | nil => simp [insertAccepted, applyAll]
  | append_singleton pairs p ih =>
    rw [insertAccepted_concat, contains_apply, ih]
    simp only [List.mem_append, List.mem_singleton, or_and_right, exists_or, exists_eq_left,
      or_assoc]

theorem get?_eq_of_content (hcontains : c.contains i ↔ c'.contains i)
    (hcontent : ∀ k : CatalogKey, k.ident = i → c.content k = c'.content k) :
    c.get? i = c'.get? i := by
  have hitem : c.item i = c'.item i := by
    refine Item.ext_content fun s => ?_
    cases s with
    | none => exact hcontent (.entry i) rfl
    | some s => exact hcontent (.metadata i s) rfl
  simp only [contains, item] at hcontains hitem
  cases hc : c.get? i <;> cases hc' : c'.get? i <;> simp_all

theorem get?_insertAccepted_swap {key' : String} {v' : CatalogValue} (hne : key ≠ key') :
    (c.insertAccepted [(key, v), (key', v')]).get? i =
      (c.insertAccepted [(key', v'), (key, v)]).get? i := by
  have hplace : CatalogKey.ofText key ≠ CatalogKey.ofText key' := fun h =>
    hne (CatalogKey.ofText_injective h)
  refine get?_eq_of_content ?_ fun k _ => ?_
  · rw [contains_insertAccepted, contains_insertAccepted]
    simp [or_comm]
  · rw [content_insertAccepted, content_insertAccepted]
    -- A place is that of one of the two keys at most.
    by_cases hk : CatalogKey.ofText key = k
    · have hk' : CatalogKey.ofText key' ≠ k := fun h => hplace (hk.trans h.symm)
      simp [List.filterMap_cons, meaningAt?, hk']
    · simp [List.filterMap_cons, meaningAt?, hk]

/-- Every key addresses one place. A value is written there and nowhere else if the place accepts
its shape, and is refused otherwise; so a place holds what the last value accepted there means, and
the order of insertions under different keys does not matter to the items. -/
theorem insertions_independent (c : Catalog) :
    (∀ key, (CatalogKey.ofText key).text = key ∧
      (∀ i s, CatalogKey.ofText key = .metadata i s ↔ Slot.Splits key i s) ∧
      (∀ i s j t, Slot.Splits key i s → Slot.Splits key j t → i = j ∧ s = t) ∧
      ∀ i, CatalogKey.ofText key = .entry i ↔ i.text = key ∧ ∀ j s, ¬Slot.Splits key j s) ∧
    (∀ key v,
      ((∃ e, c.insert key v = .error e) ↔
        v.shape ∉ CatalogValue.shapes (CatalogKey.ofText key).slot?) ∧
      (∀ e, c.insert key v = .error e →
        e = ⟨key, v.shape, CatalogValue.expected (CatalogKey.ofText key).slot?⟩ ∧
          c.apply (.insert key v) = c) ∧
      ∀ c', c.insert key v = .ok c' → c.apply (.insert key v) = c' ∧
        ∃ m, v.meaning? (CatalogKey.ofText key).slot? = some m ∧
          Writes c c' (CatalogKey.ofText key) m) ∧
    (∀ pairs k, (c.insertAccepted pairs).content k =
      ((pairs.filterMap (meaningAt? k)).getLast?).getD (c.content k)) ∧
    ∀ key v key' v', key ≠ key' → ∀ i,
      (c.insertAccepted [(key, v), (key', v')]).get? i =
        (c.insertAccepted [(key', v'), (key, v)]).get? i := by
  refine ⟨fun key => ⟨CatalogKey.text_ofText key, fun _ _ => CatalogKey.ofText_eq_metadata_iff,
    fun _ _ _ _ h h' => h.unique h', fun _ => CatalogKey.ofText_eq_entry_iff⟩, fun key v => ?_,
    content_insertAccepted c, fun _ _ _ _ hne _ => get?_insertAccepted_swap hne⟩
  rw [← CatalogValue.isSome_meaning?_iff]
  obtain ⟨m, c', hm, hok, hw⟩ | ⟨hm, herror⟩ := insert_cases c key v
  · refine ⟨?_, fun e he => ?_, fun c'' hc => ?_⟩
    · simp [hok, hm]
    · simp [hok] at he
    · obtain rfl : c' = c'' := Except.ok.inj (hok.symm.trans hc)
      exact ⟨apply_of_ok hok, m, hm, hw⟩
  · refine ⟨?_, fun e he => ⟨?_, apply_of_error he⟩, fun c'' hc => ?_⟩
    · simp [herror, hm]
    · exact Except.error.inj (he.symm.trans herror)
    · simp [herror] at hc

/-- Metadata of an identifier that ends like a metadata key itself, and values that keys do not
accept. -/
def nested : List (String × CatalogValue) :=
  [("a__deps__sig", .text " ii "), ("a__deps", .list [⟨"b"⟩]), ("a__deps", .flag true),
    ("__deps", .text "1"), ("a__deps__sig", .flag true)]

theorem nested_inserted :
    CatalogKey.ofText "a__deps__sig" = .metadata ⟨"a__deps"⟩ .sig ∧
    (∃ m, (CatalogValue.text " ii ").meaning? (some .sig) = some m ∧
      Writes empty (empty.apply (.insert "a__deps__sig" (.text " ii ")))
        (CatalogKey.ofText "a__deps__sig") m) ∧
    (∃ e, empty.insert "a__deps" (.flag true) = .error e ∧
      e = ⟨"a__deps", "flag", "list"⟩ ∧ empty.apply (.insert "a__deps" (.flag true)) = empty) ∧
    (empty.insertAccepted nested).content (.metadata ⟨"a__deps"⟩ .sig) = .text (some "ii") ∧
    (empty.insertAccepted nested).content (.metadata ⟨"a"⟩ .deps) = .idents [⟨"b"⟩] ∧
    (empty.insertAccepted nested).content (.entry ⟨"__deps"⟩) = .entry (some (.raw "1")) ∧
    ∀ i, (empty.insertAccepted [("a__deps", .list []), ("a", .text "1")]).get? i =
      (empty.insertAccepted [("a", .text "1"), ("a__deps", .list [])]).get? i := by
  obtain ⟨haddress, hinsert, hlast, hswap⟩ := insertions_independent empty
  have hsplit : Slot.Splits "a__deps__sig" ⟨"a__deps"⟩ .sig := ⟨by decide, rfl⟩
  have hkey := ((haddress "a__deps__sig").2.1 _ _).2 hsplit
  refine ⟨hkey, ?_, ?_, ?_, ?_, ?_, hswap _ _ _ _ (by decide)⟩
  · obtain ⟨-, -, hok⟩ := hinsert "a__deps__sig" (.text " ii ")
    obtain ⟨-, m, hm, hw⟩ := hok _ rfl
    rw [hkey] at hm
    exact ⟨m, hm, hw⟩
  · obtain ⟨-, herror, -⟩ := hinsert "a__deps" (.flag true)
    obtain ⟨he, hsame⟩ := herror _ rfl
    exact ⟨_, rfl, he, hsame⟩
  · rw [hlast]
    rfl
  · rw [hlast]
    rfl
  · rw [hlast]
    rfl

end Catalog

end CatalogLinker
