import CatalogLinker.Link
import Mathlib.Data.List.Induction

namespace CatalogLinker

namespace Catalog

inductive Change where
  | insert (key : String) (value : CatalogValue)
  | define (ident : Ident) (entry : Entry)
  | defineInline (ident : Ident)

namespace Change

def defines? : Change → Option Ident
  | insert key v =>
    match CatalogKey.ofText key with
    | .entry i => v.entry?.map fun _ => i
    | .metadata _ _ => none
  | define i _ => some i
  | defineInline i => some i

def marks? : Change → Option Ident
  | insert key _ =>
    match CatalogKey.ofText key with
    | .metadata i .inlined => some i
    | _ => none
  | define _ _ => none
  | defineInline _ => none

end Change

def apply (c : Catalog) : Change → Catalog
  | .insert key v => (c.tryInsert key v).1
  | .define i e => c.defineEntry i e
  | .defineInline i => c.defineInline i

def applyAll (c : Catalog) (chs : List Change) : Catalog :=
  chs.foldl apply c

/-- The identifier of a definition that finds it undefined. -/
def newcomer? (c : Catalog) (ch : Change) : Option Ident :=
  ch.defines?.filter (!c.isDefined ·)

def newcomers (c : Catalog) : List Change → List Ident
  | [] => []
  | ch :: chs => (c.newcomer? ch).toList ++ newcomers (c.apply ch) chs

/-- Keys mark the identifier only when it already has its entry. -/
def MarkedLate (i : Ident) (chs : List Change) : Prop :=
  ∀ earlier ch later, chs = earlier ++ ch :: later → ch.marks? = some i →
    ((empty.applyAll earlier).item i).entry.isSome

variable {c : Catalog} {ch : Change} {chs : List Change} {i j : Ident} {x : Item}

section Item

theorem item_put : (c.put i x).item j = if i = j then x else c.item j := by
  rw [item, get?_put]
  split <;> rfl

theorem item_define : (c.define i x).item j = if i = j then x else c.item j :=
  item_put

theorem isDefined_of_entry (h : (c.item i).entry.isSome) : c.isDefined i := by
  rw [isDefined, Item.isDefined, h, Bool.true_or]

end Item

section Write

theorem write?_entry {s : Slot} {v : CatalogValue} {y : Item} (h : s.write? v x = some y) :
    y.entry = x.entry := by
  unfold Slot.write? at h
  split at h <;> simp_all <;> rw [← h]

theorem write?_isInline {s : Slot} {v : CatalogValue} {y : Item} (hs : s ≠ .inlined)
    (h : s.write? v x = some y) : y.isInline = x.isInline := by
  unfold Slot.write? at h
  split at h <;> simp_all <;> rw [← h]

end Write

section Apply

/-- A change defines its identifier, or writes metadata, or does nothing. -/
theorem apply_cases (c : Catalog) (ch : Change) :
    (∃ i x, ch.defines? = some i ∧ ch.marks? = none ∧ x.isDefined ∧
      ((c.item i).entry.isSome → x.entry.isSome) ∧ c.apply ch = c.define i x) ∨
    (∃ i x, ch.defines? = none ∧ x.entry = (c.item i).entry ∧
      (ch.marks? = some i ∨ x.isInline = (c.item i).isInline) ∧ c.apply ch = c.put i x) ∨
    ch.defines? = none ∧ c.apply ch = c := by
  cases ch with
  | define i e => exact .inl ⟨i, _, rfl, rfl, rfl, fun _ => rfl, rfl⟩
  | defineInline i =>
    have hx : ({ c.item i with isInline := true } : Item).isDefined := Bool.or_true _
    exact .inl ⟨i, _, rfl, rfl, hx, fun h => h, rfl⟩
  | insert key v =>
    cases hk : CatalogKey.ofText key with
    | entry i =>
      cases he : v.entry? with
      | none => exact .inr (.inr (by simp [Change.defines?, apply, tryInsert, hk, he]))
      | some e =>
        refine .inl ⟨i, { c.item i with entry := some e }, ?_, ?_, rfl, fun _ => rfl, ?_⟩
        · simp [Change.defines?, hk, he]
        · simp [Change.marks?, hk]
        · simp [apply, tryInsert, defineEntry, hk, he]
    | metadata i s =>
      have hd : (Change.insert key v).defines? = none := by simp [Change.defines?, hk]
      cases hw : s.write? v (c.item i) with
      | none => exact .inr (.inr ⟨hd, by simp [apply, tryInsert, hk, hw]⟩)
      | some y =>
        refine .inr (.inl ⟨i, y, hd, write?_entry hw, ?_, by simp [apply, tryInsert, hk, hw]⟩)
        by_cases hs : s = .inlined
        · exact .inl (by simp [Change.marks?, hk, hs])
        · exact .inr (write?_isInline hs hw)

theorem newcomer?_of_defines (h : ch.defines? = some i) :
    c.newcomer? ch = if c.isDefined i then none else some i := by
  rw [newcomer?, h, Option.filter]
  cases c.isDefined i <;> rfl

theorem newcomer?_ne (h : ch.defines? ≠ some i) : c.newcomer? ch ≠ some i :=
  fun hi => h (Option.filter_eq_some_iff.1 hi).1

theorem order_apply (c : Catalog) (ch : Change) :
    (c.apply ch).order = c.order ++ (c.newcomer? ch).toList := by
  obtain ⟨i, x, hd, -, -, -, h⟩ | ⟨i, x, hd, -, -, h⟩ | ⟨hd, h⟩ := apply_cases c ch
  · rw [h, newcomer?_of_defines hd, define]
    cases hi : c.isDefined i <;> simp
  · simp [h, newcomer?, hd, put]
  · simp [h, newcomer?, hd]

theorem entry_apply (h : (c.item i).entry.isSome) : ((c.apply ch).item i).entry.isSome := by
  obtain ⟨j, x, -, -, -, hx, he⟩ | ⟨j, x, -, hx, -, he⟩ | ⟨-, he⟩ := apply_cases c ch
  · rw [he, item_define]
    split
    · rename_i hj
      exact hx (hj ▸ h)
    · exact h
  · rw [he, item_put]
    split
    · rename_i hj
      rw [hx, hj]
      exact h
    · exact h
  · rwa [he]

theorem isDefined_apply_of_defines (h : ch.defines? = some i) : (c.apply ch).isDefined i := by
  obtain ⟨j, x, hd, -, hx, -, he⟩ | ⟨j, x, hd, -, -, he⟩ | ⟨hd, he⟩ := apply_cases c ch
  · obtain rfl : j = i := Option.some.inj (hd.symm.trans h)
    rwa [he, isDefined, item_define, if_pos rfl]
  · simp [hd] at h
  · simp [hd] at h

theorem isDefined_apply (hd : ch.defines? ≠ some i) (hm : ch.marks? ≠ some i) :
    (c.apply ch).isDefined i = c.isDefined i := by
  obtain ⟨j, x, hj, -, -, -, he⟩ | ⟨j, x, -, hx, hj, he⟩ | ⟨-, he⟩ := apply_cases c ch
  · have hji : j ≠ i := fun h => hd (h ▸ hj)
    rw [he, isDefined, item_define, if_neg hji, isDefined]
  · rw [he, isDefined, item_put, isDefined]
    split
    · rename_i hji
      subst hji
      rw [Item.isDefined, Item.isDefined, hx, hj.resolve_left hm]
    · rfl
  · rw [he]

end Apply

theorem applyAll_append_singleton : c.applyAll (chs ++ [ch]) = (c.applyAll chs).apply ch := by
  simp [applyAll]

theorem order_applyAll (c : Catalog) (chs : List Change) :
    (c.applyAll chs).order = c.order ++ c.newcomers chs := by
  induction chs generalizing c with
  | nil => simp [applyAll, newcomers]
  | cons ch chs ih =>
    calc (c.applyAll (ch :: chs)).order
        = (c.apply ch).order ++ (c.apply ch).newcomers chs := ih _
      _ = c.order ++ c.newcomers (ch :: chs) := by
        rw [order_apply, List.append_assoc, newcomers]

theorem MarkedLate.of_append (h : MarkedLate i (chs ++ [ch])) : MarkedLate i chs := by
  intro earlier ch' later hs
  refine h earlier ch' (later ++ [ch]) ?_
  rw [hs, List.append_assoc, List.cons_append]

theorem MarkedLate.entry (h : MarkedLate i (chs ++ [ch])) (hm : ch.marks? = some i) :
    ((empty.applyAll chs).item i).entry.isSome :=
  h chs ch [] rfl hm

theorem count_order (h : MarkedLate i chs) :
    (empty.applyAll chs).order.count i = if (empty.applyAll chs).isDefined i then 1 else 0 := by
  induction chs using List.reverseRecOn with
  | nil => rfl
  | append_singleton chs ch ih =>
    have hcount := ih h.of_append
    rw [applyAll_append_singleton, order_apply, List.count_append, hcount]
    generalize hc : empty.applyAll chs = c at *
    by_cases hd : ch.defines? = some i
    · rw [isDefined_apply_of_defines hd, newcomer?_of_defines hd]
      cases hi : c.isDefined i <;> simp
    · -- Only a definition of the identifier adds it to the order.
      have hnew : (c.newcomer? ch).toList.count i = 0 := by
        rw [List.count_eq_zero, Option.mem_toList]
        exact newcomer?_ne hd
      rw [hnew, Nat.add_zero]
      by_cases hm : ch.marks? = some i
      · have he : (c.item i).entry.isSome := hc ▸ h.entry hm
        rw [isDefined_of_entry he, isDefined_of_entry (entry_apply he)]
      · rw [isDefined_apply hd hm]

theorem count_idents (h : c.isDefined i) : c.idents.count i = c.order.count i := by
  rw [idents, List.count_filter h]

end Catalog

open Catalog

theorem mem_defaultRequests {c : Catalog} {config : Config} (hf : config.fullCatalog) {i : Ident} :
    { ident := i } ∈ Link.defaultRequests ⟨c, config⟩ ↔
      i ∈ c.idents ∨ config.linkage ≠ .standalone ∧ i ∈ config.defaultIdents := by
  unfold Link.defaultRequests
  simp only [hf, Bool.not_true, Bool.false_eq_true, if_false]
  split
  · rename_i hl
    simp [hl]
  · rename_i hl
    simp [hl, or_comm]

/-- A catalog lists defined identifiers, in the order in which definitions found them undefined. An
identifier that has its entry before keys mark it is listed once; in general one that has an entry
is listed, and requested by a link of the full catalog, as often as a definition found it
undefined. -/
theorem idents_of_changes (chs : List Change) :
    (empty.applyAll chs).idents = (empty.newcomers chs).filter (empty.applyAll chs).isDefined ∧
    (∀ i, MarkedLate i chs → (empty.applyAll chs).isDefined i →
      (empty.applyAll chs).idents.count i = 1) ∧
    ∀ i, ((empty.applyAll chs).item i).entry.isSome →
      (empty.applyAll chs).idents.count i = (empty.newcomers chs).count i ∧
      ∀ config : Config, config.fullCatalog →
        ({ ident := i } ∈ Link.defaultRequests ⟨empty.applyAll chs, config⟩ ↔
          i ∈ empty.newcomers chs ∨ config.linkage ≠ .standalone ∧ i ∈ config.defaultIdents) := by
  have horder : (empty.applyAll chs).order = empty.newcomers chs := order_applyAll empty chs
  refine ⟨?_, fun i hm hi => ?_, fun i he => ⟨?_, fun config hf => ?_⟩⟩
  · rw [idents, horder]
  · rw [count_idents hi, count_order hm, if_pos hi]
  · rw [count_idents (isDefined_of_entry he), horder]
  · rw [mem_defaultRequests hf, idents, List.mem_filter, horder,
      and_iff_left (isDefined_of_entry he)]

def overridden : List Change :=
  [.insert "x" (.text "1"), .insert "x__inline" (.flag true), .define ⟨"x"⟩ (.raw "2")]

theorem overridden_marked : MarkedLate ⟨"x"⟩ overridden := by
  intro earlier ch later hs hm
  match earlier, hs with
  | [], hs =>
    obtain ⟨rfl, -⟩ := List.cons.inj hs
    exact absurd hm (by decide +kernel)
  | [_], hs =>
    obtain ⟨rfl, -⟩ := List.cons.inj hs
    decide +kernel
  | [_, _], hs =>
    obtain ⟨-, hs⟩ := List.cons.inj hs
    obtain ⟨-, hs⟩ := List.cons.inj hs
    obtain ⟨rfl, -⟩ := List.cons.inj hs
    exact absurd hm (by decide +kernel)
  | _ :: _ :: _ :: earlier, hs => simp [overridden] at hs

theorem overridden_listed :
    (empty.applyAll overridden).idents.count ⟨"x"⟩ = 1 ∧
      { ident := ⟨"x"⟩ } ∈
        Link.defaultRequests ⟨empty.applyAll overridden, { fullCatalog := true }⟩ := by
  obtain ⟨-, honce, hentry⟩ := idents_of_changes overridden
  obtain ⟨-, hrequested⟩ := hentry ⟨"x"⟩ (by decide +kernel)
  refine ⟨honce _ overridden_marked (by decide +kernel), ?_⟩
  exact (hrequested { fullCatalog := true } rfl).2 (.inl (by decide +kernel))

/-- A key that marks an identifier before it gets its entry keeps it off the list and out of a link
of the full catalog; one that clears the marker between two definitions has it listed twice. -/
theorem marked_unlisted :
    (∃ chs : List Change, chs = [.insert "x__inline" (.flag true), .insert "x" (.text "1")] ∧
      ((empty.applyAll chs).item ⟨"x"⟩).entry.isSome ∧ (empty.applyAll chs).idents = [] ∧
      Link.defaultRequests ⟨empty.applyAll chs, { fullCatalog := true }⟩ = []) ∧
    ∃ chs : List Change,
      chs = [.defineInline ⟨"x"⟩, .insert "x__inline" (.flag false), .define ⟨"x"⟩ (.raw "1")] ∧
      ((empty.applyAll chs).item ⟨"x"⟩).entry.isSome ∧
      (empty.applyAll chs).idents = [⟨"x"⟩, ⟨"x"⟩] := by
  refine ⟨⟨_, rfl, ?_, ?_, ?_⟩, ⟨_, rfl, ?_, ?_⟩⟩ <;> decide +kernel

end CatalogLinker
