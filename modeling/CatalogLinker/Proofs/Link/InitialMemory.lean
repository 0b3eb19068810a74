import CatalogLinker.Proofs.Heap.Image
import CatalogLinker.Proofs.Link.Assembly
import CatalogLinker.Proofs.Postset.Order
import CatalogLinker.Proofs.Resolution.Requests

namespace CatalogLinker

open Heap Heap.Store

namespace Link

def stores (ds : List Postset) : List Store :=
  ds.filterMap Postset.store?

def emitted (left : List Store) (m : MemoryImage) : Memory :=
  m.install (performAll left Memory.zero)

/-- Performs all stores after the image has been installed. -/
def reference (m : MemoryImage) (ss : List Store) : Memory :=
  performAll ss (m.install Memory.zero)

variable {m : MemoryImage} {d : Postset} {ds : List Postset} {ss : List Store} {a : Nat}

theorem stores_cons_of_none (hd : d.store? = none) : stores (d :: ds) = stores ds :=
  List.filterMap_cons_none hd

theorem stores_cons_of_some {s : Store} (hd : d.store? = some s) :
    stores (d :: ds) = s :: stores ds :=
  List.filterMap_cons_some hd

theorem foldStore_of_none (hd : d.store? = none) : foldStore m d = (m, false) := by
  rw [foldStore, hd]

theorem foldStore_of_some {s : Store} (hd : d.store? = some s) : foldStore m d = m.fold s := by
  rw [foldStore, hd]

theorem foldStores_eq (m : MemoryImage) (ds : List Postset) :
    (foldStores m ds).1 = m.foldAll (stores ds) ∧
      stores (foldStores m ds).2 = (stores ds).filter (¬m.holds ·) := by
  induction ds generalizing m with
  | nil => exact ⟨rfl, rfl⟩
  | cons d ds ih =>
    rw [foldStores]
    cases hd : d.store? with
    | none =>
      obtain ⟨hfold, hleft⟩ := ih m
      rw [foldStore_of_none hd, stores_cons_of_none hd, ← hleft]
      exact ⟨hfold, stores_cons_of_none hd⟩
    | some s =>
      rw [foldStore_of_some hd, stores_cons_of_some hd, MemoryImage.foldAll_cons]
      by_cases hs : m.holds s
      · obtain ⟨hfold, hleft⟩ := ih (m.fold s).1
        obtain ⟨hb, hl, -⟩ := MemoryImage.fold_spec hs Memory.zero
        -- A store that is folded leaves the bounds of the image as they are.
        have hsame : ∀ t, (m.fold s).1.holds t ↔ m.holds t :=
          fun _ => MemoryImage.holds_congr hb hl
        simp only [hsame] at hleft
        rw [List.filter_cons_of_neg (by simpa using hs), ← hleft]
        exact ⟨hfold, by simp [MemoryImage.fold_of_holds hs]⟩
      · obtain ⟨hfold, hleft⟩ := ih m
        rw [MemoryImage.fold_of_not_holds hs, List.filter_cons_of_pos (by simpa using hs), ← hleft]
        exact ⟨hfold, stores_cons_of_some hd⟩

theorem foldStores_spec (m : MemoryImage) (ds : List Postset) (h : Memory) :
    (foldStores m ds).1.base = m.base ∧
      (foldStores m ds).1.bytes.length = m.bytes.length ∧
      stores (foldStores m ds).2 = (stores ds).filter (¬m.holds ·) ∧
      (foldStores m ds).1.install h = performAll ((stores ds).filter (m.holds ·)) (m.install h) := by
  obtain ⟨himage, hleft⟩ := foldStores_eq m ds
  obtain ⟨hb, hl, hfold⟩ := MemoryImage.foldAll_spec m (stores ds) h
  rw [himage]
  exact ⟨hb, hl, hleft, hfold⟩

theorem emitted_foldStores (m : MemoryImage) (ds : List Postset) :
    emitted (stores (foldStores m ds).2) (foldStores m ds).1 =
      performAll ((stores ds).filter (m.holds ·))
        (m.install (performAll ((stores ds).filter (¬m.holds ·)) Memory.zero)) := by
  obtain ⟨-, -, hleft, hfold⟩ := foldStores_spec m ds (performAll (stores (foldStores m ds).2) _)
  rw [emitted, hfold, hleft]

theorem emitted_of_spans (ha : m.Spans a) :
    emitted (stores (foldStores m ds).2) (foldStores m ds).1 a =
      reference m ((stores ds).filter (m.holds ·)) a := by
  rw [emitted_foldStores, reference]
  exact performAll_congr (MemoryImage.install_apply ha Memory.zero)

/-- What is emitted leaves the same as performing all stores in order, except where the last store
that covers a byte of the image reaches across an edge of the image. -/
theorem emitted_eq_reference (h : ∀ s, lastAt? (stores ds) a = some s → m.Spans a → m.holds s) :
    emitted (stores (foldStores m ds).2) (foldStores m ds).1 a = reference m (stores ds) a := by
  by_cases ha : m.Spans a
  · rw [emitted_of_spans ha]
    exact performAll_filter fun s hs => by simpa using h s hs ha
  · have hheld : ∀ s, s.Covers a → ¬m.holds s :=
      fun s hs hm => ha (MemoryImage.spans_of_holds hm hs)
    calc emitted (stores (foldStores m ds).2) (foldStores m ds).1 a
        = m.install (performAll ((stores ds).filter (¬m.holds ·)) Memory.zero) a := by
          rw [emitted_foldStores]
          refine performAll_of_not_covers fun s hs hc => hheld s hc ?_
          simpa using (List.mem_filter.1 hs).2
      _ = performAll ((stores ds).filter (¬m.holds ·)) Memory.zero a :=
          MemoryImage.install_outside ha
      _ = performAll (stores ds) Memory.zero a :=
          performAll_filter fun s hs => by simpa using hheld s (covers_of_lastAt? hs)
      _ = reference m (stores ds) a :=
          performAll_congr (MemoryImage.install_outside ha).symm

theorem foldStores_sublist (m : MemoryImage) (ds : List Postset) :
    (foldStores m ds).2.Sublist ds := by
  induction ds generalizing m with
  | nil => exact List.Sublist.refl _
  | cons d ds ih =>
    rw [foldStores]
    dsimp only
    split
    · exact (ih _).cons d
    · exact (ih _).cons_cons d

end Link

theorem postset?_empty (config : Config) (i : Ident) :
    Plan.postset? ⟨.empty, config⟩ i = none := by
  rw [Plan.postset?]
  split <;> rfl

/-- What a link of an empty catalog leaves in the heap, if all postsets of the program are stores of
constants: the heap that performing them in order after installing the memory of the program leaves,
except for bytes of that memory which the last store to cover them reaches from across its edge.
There the last store within the memory decides. -/
theorem initial_memory_of_link {config : Config} {program : Program} {shell : Shell} {out : Output}
    (h : link .empty config program shell = .ok out) (hl : config.linkage = .standalone)
    (ht : config.threadProxying = false) (hs : ∀ d ∈ program.postsets, d.store?.isSome) :
    ∃ (ds : List Postset) (statements : List String) (folded : MemoryImage)
      (declarations compiled : List String),
      Postset.order program.postsets = .ok ds ∧
      out.text = Link.lines [shell.preamble, Link.lines declarations, Link.lines statements,
        folded.text false false, Link.lines compiled, shell.postamble] ∧
      (∀ t ∈ statements, (Store.ofText? t).isSome) ∧ folded.base = config.globalBase ∧
      ∀ a,
        ((∀ s, lastAt? (Link.stores ds) a = some s →
            (Link.image config program).Spans a → (Link.image config program).holds s) →
          Link.emitted (statements.filterMap Store.ofText?) folded a =
            Link.reference (Link.image config program) (Link.stores ds) a) ∧
        ((Link.image config program).Spans a →
          Link.emitted (statements.filterMap Store.ofText?) folded a =
            Link.reference (Link.image config program)
              ((Link.stores ds).filter ((Link.image config program).holds ·)) a) := by
  obtain ⟨main, globals, hm, hg, htext, -⟩ := link_passes h
  obtain ⟨ps, hps⟩ := Session.serves_of_pass hm
  obtain ⟨ps', hps'⟩ := Session.serves_of_pass hg
  obtain ⟨ds, hds, ho⟩ := Link.assemble_ok htext
  rw [Link.sections_eq, hps.statements_eq (postset?_empty config),
    hps'.statements_eq (postset?_empty config)] at hds
  have hds : Postset.order program.postsets = .ok ds := by simpa [Pass.statements] using hds
  rw [hl, ht] at ho
  have hstores : ((Link.foldStores (Link.image config program) ds).2.map
      Postset.text).filterMap Store.ofText? =
        Link.stores (Link.foldStores (Link.image config program) ds).2 := by
    rw [List.filterMap_map]
    rfl
  refine ⟨ds, _, _, _, _, hds, ho, fun t ht => ?_, ?_, fun a => ?_⟩
  · obtain ⟨d, hd, rfl⟩ := List.mem_map.1 ht
    exact hs d ((Postset.order_perm hds).mem_iff.1 ((Link.foldStores_sublist _ _).subset hd))
  · exact (Link.foldStores_spec _ ds Memory.zero).1
  · rw [hstores]
    exact ⟨Link.emitted_eq_reference, Link.emitted_of_spans⟩

def twoStores : Program where
  memory := List.replicate 8 0
  postsets := [.ofText "HEAP32[(1028)>>2] = (258)|0;", .ofText "HEAP32[(2048)>>2] = 1;"]

theorem twoStores_initial_memory :
    ∃ (out : Output) (ds : List Postset) (statements : List String) (folded : MemoryImage),
      link .empty {} twoStores {} = .ok out ∧
      Postset.order twoStores.postsets = .ok ds ∧
      Link.emitted (statements.filterMap Store.ofText?) folded 1028 =
        Link.reference (Link.image {} twoStores) (Link.stores ds) 1028 ∧
      Link.reference (Link.image {} twoStores) (Link.stores ds) 1028 = 2 := by
  obtain ⟨out, h, -⟩ : ∃ out, link .empty {} twoStores {} = .ok out ∧ out.exports = [] :=
    exists_ok (by decide +kernel)
  obtain ⟨ds, statements, folded, -, -, hds, -, -, -, ha⟩ :=
    initial_memory_of_link h rfl rfl (by decide +kernel)
  obtain rfl : ds = twoStores.postsets := by
    have ho : Postset.order twoStores.postsets = .ok twoStores.postsets := by decide +kernel
    exact Except.ok.inj (hds.symm.trans ho)
  have hlast : lastAt? (Link.stores twoStores.postsets) 1028 = some ⟨.i32, 257, 258⟩ := by
    decide +kernel
  refine ⟨out, _, statements, folded, h, hds, (ha 1028).1 fun s hs _ => ?_, by decide +kernel⟩
  obtain rfl := Option.some.inj (hlast.symm.trans hs)
  decide +kernel

def edgeStore : Program where
  memory := [1, 2]
  postsets := [.ofText "HEAP32[256] = 168496141;"]

/-- The statement stays in front of the initializer, which overwrites what it stores. -/
theorem edgeStore_overwritten :
    (∃ out, link .empty {} edgeStore {} = .ok out ∧
      out.text = "\n// STATICTOP = STATIC_BASE + 0;\nvar ASSERTIONS = true;\n" ++
        "HEAP32[256] = 168496141;\n" ++
        "/* memory initializer */ allocate([1,2], \"i8\", ALLOC_NONE, GLOBAL_BASE);\n" ++
        "// EMSCRIPTEN_END_FUNCS\n") ∧
      (∀ d ∈ edgeStore.postsets, d.store?.isSome) ∧
      Postset.order edgeStore.postsets = .ok edgeStore.postsets ∧
      Link.emitted (Link.stores edgeStore.postsets) ⟨[1, 2], 1024⟩ 1024 = 1 ∧
      Link.reference (Link.image {} edgeStore) (Link.stores edgeStore.postsets) 1024 = 13 := by
  exact ⟨exists_ok (by decide +kernel), by decide +kernel, by decide +kernel, by decide +kernel,
    by decide +kernel⟩

end CatalogLinker
