import CatalogLinker.LinkState
import Mathlib.Data.List.Nodup
import Mathlib.Logic.Relation
import Mathlib.Tactic.SplitIfs

namespace CatalogLinker

open Relation (ReflTransGen)

namespace ExportSet

variable {e : ExportSet} {ns : List Name} {n : Name}

structure Sound (e : ExportSet) : Prop where
  nodup : e.names.Nodup
  mem_names : ∀ n, n ∈ e.names ↔ e.contains n

theorem contains_requestAll : (e.requestAll ns).contains n ↔ e.contains n ∨ n ∈ ns := by
  rw [requestAll]
  induction ns generalizing e with
  | nil => simp
  | cons m ns ih => rw [List.foldl_cons, ih, contains_request, List.mem_cons, or_assoc]

theorem prefix_request (e : ExportSet) (n : Name) : e.names <+: (e.request n).names := by
  rw [request]
  split
  · exact List.prefix_rfl
  · exact List.prefix_append _ _

theorem prefix_requestAll (e : ExportSet) (ns : List Name) :
    e.names <+: (e.requestAll ns).names := by
  induction ns generalizing e with
  | nil => exact List.prefix_rfl
  | cons n ns ih => exact (e.prefix_request n).trans (ih (e.request n))

namespace Sound

theorem empty : ExportSet.empty.Sound :=
  ⟨List.nodup_nil, fun _ => iff_of_false List.not_mem_nil Bool.false_ne_true⟩

theorem request (h : e.Sound) (n : Name) : (e.request n).Sound := by
  by_cases hn : e.contains n
  · rwa [ExportSet.request, if_pos hn]
  · have hnew : n ∉ e.names := fun hmem => hn ((h.mem_names n).1 hmem)
    refine ⟨?_, fun m => ?_⟩
    · rw [names_request hn]
      exact List.nodup_append_comm.2 (List.nodup_cons.2 ⟨hnew, h.nodup⟩)
    · rw [names_request hn, contains_request, List.mem_append, h.mem_names, List.mem_singleton]

theorem requestAll (h : e.Sound) (ns : List Name) : (e.requestAll ns).Sound := by
  induction ns generalizing e with
  | nil => exact h
  | cons n ns ih => exact ih (h.request n)

theorem ofList (ns : List Name) : (ExportSet.ofList ns).Sound :=
  empty.requestAll ns

end Sound

end ExportSet

namespace LinkState

variable (l : LinkState) (n : Name)

@[simp] theorem markLibraryFn_compiled : (l.markLibraryFn n).compiled = l.compiled := by
  rw [markLibraryFn]
  split <;> rfl

@[simp] theorem markLibraryFn_implemented : (l.markLibraryFn n).implemented = l.implemented := by
  rw [markLibraryFn]
  split <;> rfl

@[simp] theorem markLibraryFn_isImplemented (m : Name) :
    (l.markLibraryFn n).isImplemented m = l.isImplemented m := by
  rw [markLibraryFn]
  split <;> rfl

@[simp] theorem markLibraryFn_exports : (l.markLibraryFn n).exports = l.exports := by
  rw [markLibraryFn]
  split <;> rfl

@[simp] theorem markLibraryFn_proxies : (l.markLibraryFn n).proxies = l.proxies := by
  rw [markLibraryFn]
  split <;> rfl

variable (sig : String)

@[simp] theorem implement_compiled : (l.implement n sig).compiled = l.compiled := by
  rw [implement]
  split_ifs <;> rfl

@[simp] theorem implement_exports : (l.implement n sig).exports = l.exports := by
  rw [implement]
  split_ifs <;> rfl

@[simp] theorem implement_proxies : (l.implement n sig).proxies = l.proxies := by
  rw [implement]
  split_ifs <;> rfl

@[simp] theorem implement_requestSigs : (l.implement n sig).requestSigs = l.requestSigs := by
  rw [implement]
  split_ifs <;> rfl

@[simp] theorem implement_libraryFns :
    (l.implement n sig).libraryFns = l.libraryFns.filter (·.1 ≠ n) ++ [(n, .compiled)] := by
  rw [implement]
  split_ifs <;> rfl

theorem isImplemented_implement {m : Name} :
    (l.implement n sig).isImplemented m ↔ l.isImplemented m ∨ m = n := by
  by_cases h : l.isImplemented n
  · rw [implement, if_pos h]
    exact ⟨.inl, fun hm => hm.elim id fun hm => hm ▸ h⟩
  · rw [implement, if_neg h]
    simp [isImplemented, or_comm]

theorem isLibraryFn_iff {m : Name} : l.isLibraryFn m ↔ m ∈ l.libraryFns.map Prod.fst := by
  rw [isLibraryFn, List.contains_iff_mem]

theorem isLibraryFn_markLibraryFn {m : Name} :
    (l.markLibraryFn n).isLibraryFn m ↔ l.isLibraryFn m ∨ m = n := by
  rw [markLibraryFn]
  split
  · rename_i h
    exact ⟨.inl, fun hm => hm.elim id fun hm => hm ▸ h⟩
  · simp [isLibraryFn_iff]

theorem isLibraryFn_implement {m : Name} :
    (l.implement n sig).isLibraryFn m ↔ l.isLibraryFn m ∨ m = n := by
  by_cases hm : m = n
  · simp [isLibraryFn_iff, hm]
  · simp [isLibraryFn_iff, hm]

inductive Gathers : LinkState → LinkState → Prop
  | exports (l : LinkState) (ns : List Name) : Gathers l (l.requestExports ns)
  | signature (l : LinkState) (n : Name) (sig : String) :
      Gathers l { l with requestSigs := l.requestSigs ++ [(n, sig)] }
  | libraryFn (l : LinkState) (n : Name) : Gathers l (l.markLibraryFn n)
  | proxy {l : LinkState} {n : Name} : l.isLibraryFn n → ¬l.isCompiled n →
      Gathers l { l with proxies := l.proxies.push n }
  | implement {l : LinkState} {n : Name} (sig : String) : ¬l.isCompiled n →
      ¬l.isImplemented n → Gathers l (l.implement n sig)

/-- A later state has more of everything, at the end; only what is compiled stays as it is. -/
structure Grows (l l' : LinkState) : Prop where
  compiled : l'.compiled = l.compiled
  exports : l.exports.names <+: l'.exports.names
  implemented : l.implemented <+: l'.implemented
  requestSigs : l.requestSigs <+: l'.requestSigs
  proxies : l.proxies.names <+: l'.proxies.names

/-- The parts of a state agree with each other. -/
structure Sound (l : LinkState) : Prop where
  exports : l.exports.Sound
  implemented_nodup : (l.implemented.map Prod.fst).Nodup
  mem_implemented : ∀ n, n ∈ l.implemented.map Prod.fst ↔ l.isImplemented n
  implemented_free : ∀ n ∈ l.implemented.map Prod.fst, ¬l.isCompiled n
  libraryFns_nodup : (l.libraryFns.map Prod.fst).Nodup
  mem_compiled : ∀ n, (n, .compiled) ∈ l.libraryFns ↔ n ∈ l.implemented.map Prod.fst
  proxied : ∀ n ∈ l.proxies.names, l.isLibraryFn n ∧ ¬l.isCompiled n

variable {l l' l'' : LinkState}

namespace Grows

theorem refl (l : LinkState) : Grows l l :=
  ⟨rfl, List.prefix_rfl, List.prefix_rfl, List.prefix_rfl, List.prefix_rfl⟩

theorem trans (h : Grows l l') (h' : Grows l' l'') : Grows l l'' where
  compiled := h'.compiled.trans h.compiled
  exports := h.exports.trans h'.exports
  implemented := h.implemented.trans h'.implemented
  requestSigs := h.requestSigs.trans h'.requestSigs
  proxies := h.proxies.trans h'.proxies

end Grows

theorem implement_implemented {n : Name} (hn : ¬l.isImplemented n) (sig : String) :
    (l.implement n sig).implemented = l.implemented ++ [(n, sig)] := by
  rw [implement, if_neg hn]

theorem Gathers.grows (h : Gathers l l') : Grows l l' := by
  cases h with
  | exports ns => exact { Grows.refl l with exports := l.exports.prefix_requestAll ns }
  | signature n sig => exact { Grows.refl l with requestSigs := List.prefix_append _ _ }
  | libraryFn n =>
    rw [markLibraryFn]
    split
    · exact .refl l
    · exact { Grows.refl l with }
  | proxy _ _ => exact { Grows.refl l with proxies := List.prefix_append _ _ }
  | @implement n sig _ hn =>
    constructor
    case implemented =>
      rw [implement_implemented hn]
      exact List.prefix_append _ _
    all_goals simp

namespace Sound

theorem ofLists (compiled exports : List Name) : (ofLists compiled exports).Sound where
  exports := .ofList exports
  implemented_nodup := List.nodup_nil
  mem_implemented _ := iff_of_false List.not_mem_nil Bool.false_ne_true
  implemented_free _ hn := absurd hn List.not_mem_nil
  libraryFns_nodup := List.nodup_nil
  mem_compiled _ := iff_of_false List.not_mem_nil List.not_mem_nil
  proxied _ hn := absurd hn List.not_mem_nil

theorem markLibraryFn (h : l.Sound) (n : Name) : (l.markLibraryFn n).Sound := by
  rw [LinkState.markLibraryFn]
  split
  · exact h
  · rename_i hn
    rw [isLibraryFn_iff] at hn
    refine { h with libraryFns_nodup := ?_, mem_compiled := fun m => ?_, proxied := fun m hm => ?_ }
    · rw [List.map_append]
      exact List.nodup_append_comm.2 (List.nodup_cons.2 ⟨hn, h.libraryFns_nodup⟩)
    · simpa using h.mem_compiled m
    · have hm' := h.proxied m hm
      rw [isLibraryFn_iff] at hm'
      refine ⟨(isLibraryFn_iff _).2 ?_, hm'.2⟩
      rw [List.map_append]
      exact List.mem_append_left _ hm'.1

theorem implement (h : l.Sound) {n : Name} (hc : ¬l.isCompiled n) (hn : ¬l.isImplemented n)
    (sig : String) : (l.implement n sig).Sound := by
  have hnew : n ∉ l.implemented.map Prod.fst := fun hmem => hn ((h.mem_implemented n).1 hmem)
  have hmem : ∀ m, m ∈ (l.implement n sig).implemented.map Prod.fst ↔
      m ∈ l.implemented.map Prod.fst ∨ m = n := by
    intro m
    rw [implement_implemented hn, List.map_append, List.mem_append, List.map_singleton,
      List.mem_singleton]
  constructor
  case exports => rw [implement_exports]; exact h.exports
  case implemented_nodup =>
    rw [implement_implemented hn, List.map_append]
    exact List.nodup_append_comm.2 (List.nodup_cons.2 ⟨hnew, h.implemented_nodup⟩)
  case mem_implemented =>
    intro m
    rw [hmem, isImplemented_implement, h.mem_implemented]
  case implemented_free =>
    intro m hm
    rw [isCompiled, implement_compiled]
    obtain hm | rfl := (hmem m).1 hm
    · exact h.implemented_free m hm
    · exact hc
  case libraryFns_nodup =>
    rw [implement_libraryFns, List.map_append]
    refine List.nodup_append_comm.2 (List.nodup_cons.2 ⟨?_, ?_⟩)
    · simp
    · exact h.libraryFns_nodup.sublist (List.filter_sublist.map Prod.fst)
  case mem_compiled =>
    intro m
    rw [hmem, ← h.mem_compiled, implement_libraryFns]
    -- What was recorded for the name before is replaced; other names keep theirs.
    by_cases hm : m = n
    · simp [hm]
    · simp [hm]
  case proxied =>
    intro m hm
    rw [implement_proxies] at hm
    rw [isLibraryFn_implement, isCompiled, implement_compiled]
    exact ⟨.inl (h.proxied m hm).1, (h.proxied m hm).2⟩

theorem gathers (h : l.Sound) (hg : Gathers l l') : l'.Sound := by
  cases hg with
  | exports ns =>
    exact { h with exports := h.exports.requestAll ns }
  | signature n sig => exact { h with }
  | libraryFn n => exact h.markLibraryFn n
  | @proxy n hf hc =>
    refine { h with proxied := fun m hm => ?_ }
    obtain hm | rfl : m ∈ l.proxies.names ∨ m = n := by simpa [ProxyTable.push] using hm
    · exact h.proxied m hm
    · exact ⟨hf, hc⟩
  | implement sig hc hn => exact h.implement hc hn sig

end Sound

theorem grows_of_gathers (h : ReflTransGen Gathers l l') : Grows l l' := by
  induction h with
  | refl => exact .refl l
  | tail _ hg ih => exact ih.trans hg.grows

theorem Sound.of_gathers (h : l.Sound) (hg : ReflTransGen Gathers l l') : l'.Sound := by
  induction hg with
  | refl => exact h
  | tail _ hg ih => exact ih.gathers hg

end LinkState

end CatalogLinker
