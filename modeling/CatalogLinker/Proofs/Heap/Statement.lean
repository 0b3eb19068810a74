import CatalogLinker.Heap.Store
import CatalogLinker.Proofs.Heap.Reading

namespace CatalogLinker.Heap

variable {s : List Char} {ts : List Token} {c : Char} {v : Int}

namespace Spells

theorem isIndexChar_or (h : Spells s ts) (hc : c ∈ s) :
    Store.isIndexChar c ∨ c = ' ' ∨ c = '|' := by
  induction h with
  | nil => simp at hc
  | space _ ih =>
    obtain rfl | hc := List.mem_cons.1 hc
    · exact .inr (.inl rfl)
    · exact ih hc
  | token hw _ ih =>
    obtain hc | hc := List.mem_append.1 hc
    · cases hw with
      | numeral hn => exact .inl (by simp [Store.isIndexChar, hn.digits c hc])
      | symbol hw =>
        cases hw <;> simp at hc <;> subst hc <;> decide
    · exact ih hc

theorem dropWhile (h : Spells s ts) : Spells (s.dropWhile (· == ' ')) ts := by
  induction h with
  | nil => exact .nil
  | space _ ih => simpa using ih
  | @token w s t ts hw hs _ =>
    have hstart : ¬(w ++ s).head?.any (· == ' ') := by
      cases hw with
      | numeral hn =>
        obtain ⟨c, ds, rfl⟩ := List.exists_cons_of_ne_nil hn.ne_nil
        have hc := hn.digits c List.mem_cons_self
        have hne : c ≠ ' ' := by
          rintro rfl
          exact absurd hc (by decide)
        simpa using hne
      | symbol hw => cases hw <;> simp
    rw [← List.nil_append (w ++ s), Text.dropWhile_append_eq (List.forall_mem_nil _) hstart]
    exact .token hw hs

end Spells

namespace Store

/-- The statement `HEAP<suffix>[<index>] = <value>;` of a store, in characters. -/
def IsStatement (s : List Char) (store : Store) : Prop :=
  ∃ suffix index gap gap' value ending : List Char,
    s = "HEAP".toList ++ suffix ++ '[' :: index ++ ']' :: gap ++ '=' :: gap' ++ value ++ ending ∧
    View.ofSuffix? (String.ofList suffix) = some store.view ∧
    Expresses index store.index ∧ (∀ c ∈ index, c ≠ ' ' ∧ c ≠ '|') ∧
    (∀ c ∈ gap ++ gap', c = ' ') ∧
    Expresses value store.value ∧ (ending = [] ∨ ending = [';'])

theorem exists_dropSemicolon (s : List Char) :
    ∃ ending, (ending = [] ∨ ending = [';']) ∧ s = dropSemicolon s ++ ending := by
  rw [dropSemicolon]
  cases h : Text.before? [';'] s with
  | none => exact ⟨[], .inl rfl, by simp⟩
  | some t => exact ⟨[';'], .inr rfl, Text.before?_eq_some_iff.1 h⟩

theorem dropSemicolon_append {ending : List Char} (hs : ';' ∉ s)
    (h : ending = [] ∨ ending = [';']) : dropSemicolon (s ++ ending) = s := by
  obtain rfl | rfl := h
  · have hnone : Text.before? [';'] s = none := by
      refine Option.eq_none_iff_forall_ne_some.2 fun t ht => hs ?_
      rw [Text.before?_eq_some_iff.1 ht]
      simp
    rw [List.append_nil, dropSemicolon, hnone, Option.getD_none]
  · rw [dropSemicolon, Text.before?_eq_some_iff.2 rfl, Option.getD_some]

theorem ne_of_isIndexChar (h : isIndexChar c) : c ≠ ' ' ∧ c ≠ '|' ∧ c ≠ ']' := by
  refine ⟨?_, ?_, ?_⟩ <;> rintro rfl <;> exact absurd h (by decide)

theorem isStatement_of_ofText? {statement : String} {store : Store}
    (h : ofText? statement = some store) : IsStatement statement.toList store := by
  simp only [ofText?, Option.bind_eq_bind, Option.bind_eq_some_iff, Option.guard_eq_some',
    Text.after?_eq_some_iff, List.all_eq_true] at h
  obtain ⟨rest, hheap, ⟨suffix, rest'⟩, hopen, view, hview, ⟨index, rest''⟩, hclose, right,
    hequals, _, hchars, i, hi, v, hv, _, hsign, h⟩ := h
  obtain ⟨gap, hgap, hrest''⟩ := Text.exists_dropWhile (· == ' ') rest''
  obtain ⟨gap', hgap', hright⟩ := Text.exists_dropWhile (· == ' ') right
  generalize hlast : right.dropWhile (· == ' ') = last at hright hv
  obtain ⟨ending, hending, hvalue⟩ := exists_dropSemicolon last
  obtain ⟨hrest, -⟩ := Text.cutAt?_eq_some_iff.1 hopen
  obtain ⟨hrest', -⟩ := Text.cutAt?_eq_some_iff.1 hclose
  obtain rfl := Option.some.inj h
  refine ⟨suffix, index, gap, gap', dropSemicolon last, ending, ?_, hview, ?_, ?_, ?_, ?_, hending⟩
  · dsimp only at hrest' hequals
    rw [hequals, hright, hvalue] at hrest''
    rw [hheap, hrest, hrest', hrest'']
    simp
  · rw [Int.toNat_of_nonneg hsign]
    exact Expression.evaluate?_eq_some_iff.1 hi
  · intro c hc
    obtain ⟨hspace, hbar, -⟩ := ne_of_isIndexChar (hchars c hc)
    exact ⟨hspace, hbar⟩
  · intro c hc
    obtain hc | hc := List.mem_append.1 hc
    · exact beq_iff_eq.1 (hgap c hc)
    · exact beq_iff_eq.1 (hgap' c hc)
  · exact Expression.evaluate?_eq_some_iff.1 hv

theorem not_mem_of_ofSuffix? {suffix : List Char} {view : View}
    (h : View.ofSuffix? (String.ofList suffix) = some view) : '[' ∉ suffix := by
  have hmem : '[' ∉ (String.ofList suffix).toList := by
    generalize String.ofList suffix = s at h
    rw [View.ofSuffix?] at h
    split_ifs at h with h₈ h₁₆ h₃₂ hsingle hdouble
    · obtain rfl | rfl := h₈ <;> simp
    · obtain rfl | rfl := h₁₆ <;> simp
    · obtain rfl | rfl := h₃₂ <;> simp
    · simp [hsingle]
    · simp [hdouble]
  rwa [String.toList_ofList] at hmem

theorem not_mem_of_expresses (h : Expresses s v) : ';' ∉ s := by
  obtain ⟨ts, hs, -⟩ := h
  intro hc
  exact absurd (hs.isIndexChar_or hc) (by decide)

theorem isIndexChar_of_expresses (h : Expresses s v) (hs : ∀ c ∈ s, c ≠ ' ' ∧ c ≠ '|')
    (hc : c ∈ s) : isIndexChar c := by
  obtain ⟨ts, hspells, -⟩ := h
  obtain ⟨hspace, hbar⟩ := hs c hc
  obtain hc | rfl | rfl := hspells.isIndexChar_or hc
  · exact hc
  · exact absurd rfl hspace
  · exact absurd rfl hbar

theorem dropWhile_append_ending {ending : List Char} (h : ending = [] ∨ ending = [';']) :
    (s ++ ending).dropWhile (· == ' ') = s.dropWhile (· == ' ') ++ ending := by
  have hending : ending.dropWhile (· == ' ') = ending := by
    obtain rfl | rfl := h <;> rfl
  rw [List.dropWhile_append, hending]
  split
  · rename_i hs
    rw [List.isEmpty_iff.1 hs, List.nil_append]
  · rfl

theorem ofText?_of_isStatement {statement : String} {store : Store}
    (h : IsStatement statement.toList store) : ofText? statement = some store := by
  obtain ⟨suffix, index, gap, gap', value, ending, hs, hview, hindex, hindexChars, hgaps, hvalue,
    hending⟩ := h
  obtain ⟨hgap, hgap'⟩ := List.forall_mem_append.1 hgaps
  have hchars : ∀ c ∈ index, isIndexChar c := fun c => isIndexChar_of_expresses hindex hindexChars
  have hheap : statement.toList = "HEAP".toList ++
      (suffix ++ '[' :: (index ++ ']' :: (gap ++ '=' :: (gap' ++ (value ++ ending))))) := by
    rw [hs]
    simp
  have hclosing : ']' ∉ index := fun h => (ne_of_isIndexChar (hchars _ h)).2.2 rfl
  have hequals : (gap ++ '=' :: (gap' ++ (value ++ ending))).dropWhile (· == ' ') =
      ['='] ++ (gap' ++ (value ++ ending)) :=
    Text.dropWhile_append_eq (fun c hc => beq_iff_eq.2 (hgap c hc)) (by simp)
  have hright : (gap' ++ (value ++ ending)).dropWhile (· == ' ') =
      value.dropWhile (· == ' ') ++ ending := by
    rw [List.dropWhile_append_of_pos fun c hc => beq_iff_eq.2 (hgap' c hc),
      dropWhile_append_ending hending]
  obtain ⟨ts, hspells, hdenotes⟩ := hvalue
  have hvalue : Expresses (value.dropWhile (· == ' ')) store.value :=
    ⟨ts, hspells.dropWhile, hdenotes⟩
  have hi := Expression.evaluate?_eq_some_iff.2 hindex
  have hv := Expression.evaluate?_eq_some_iff.2 hvalue
  simp only [ofText?, Option.bind_eq_bind, Option.bind_eq_some_iff, Option.guard_eq_some',
    Text.after?_eq_some_iff, List.all_eq_true]
  refine ⟨_, hheap, _, Text.cutAt?_eq_some_iff.2 ⟨rfl, not_mem_of_ofSuffix? hview⟩, store.view,
    hview, _, Text.cutAt?_eq_some_iff.2 ⟨rfl, hclosing⟩, _, hequals, (), hchars, _, hi, _, ?_, (),
    Int.natCast_nonneg _, rfl⟩
  rw [hright, dropSemicolon_append (not_mem_of_expresses hvalue) hending, hv]

/-- A statement is a store exactly if the grammar says so. -/
theorem ofText?_eq_some_iff (statement : String) (store : Store) :
    ofText? statement = some store ↔ IsStatement statement.toList store :=
  ⟨isStatement_of_ofText?, ofText?_of_isStatement⟩

example : ofText? "HEAP32[(1040)>>2] = 4294967296 >> 0|5;" = some ⟨.i32, 260, 5⟩ := by
  decide +kernel

end Store

end CatalogLinker.Heap
