import CatalogLinker.Proofs.Link.Assembly
import CatalogLinker.Proofs.Resolution.Reports

namespace CatalogLinker

/-- Two catalogs have the same items under the identifiers of a set. -/
def Catalog.AgreeOn (M : Set Ident) (c c' : Catalog) : Prop :=
  ∀ i ∈ M, c.get? i = c'.get? i

/-- A set of identifiers that the items of a catalog do not lead out of. -/
structure Catalog.Encloses (c : Catalog) (M : Set Ident) : Prop where
  general_mem : Plan.generalCatch ∈ M
  mem_of_mentions : ∀ i ∈ M, ∀ d ∈ Plan.mentions (c.item i), d ∈ M

namespace Plan

variable {c c' : Catalog} {config : Config} {M : Set Ident} {i d t : Ident}
  {isCompiled : Name → Bool}

section Encloses

variable (hM : c.Encloses M)
include hM

theorem mem_of_mem_itemDeps (hi : i ∈ M) (hd : d ∈ (item ⟨c, config⟩ i).deps) : d ∈ M :=
  hM.mem_of_mentions i hi d (List.mem_append_left _ hd)

theorem mem_of_entry (hi : i ∈ M) (he : (item ⟨c, config⟩ i).entry = some (.aliasOf t)) :
    t ∈ M := by
  refine hM.mem_of_mentions i hi t (List.mem_append_right _ ?_)
  have htarget : (c.item i).aliasTarget? = some t := by
    rw [Item.aliasTarget?, show (c.item i).entry = _ from he]
  exact htarget ▸ Option.mem_toList.2 rfl

theorem Needs.mem (h : Needs ⟨c, config⟩ i d) (hi : i ∈ M) : d ∈ M := by
  cases h with
  | declared _ hd => exact mem_of_mem_itemDeps hM hi hd
  | general => exact hM.general_mem
  | target _ ha => exact mem_of_entry hM hi ha.2.1
  | ofTarget _ ha hd => exact mem_of_mem_itemDeps hM (mem_of_entry hM hi ha.2.1) hd

end Encloses

section Agree

variable (h : c.AgreeOn M c')
include h

theorem item_eq_of_agree (hi : i ∈ M) : item ⟨c, config⟩ i = item ⟨c', config⟩ i := by
  simp only [item, Catalog.item, h i hi]

theorem isDefined_eq_of_agree (hi : i ∈ M) : c.isDefined i = c'.isDefined i := by
  simp only [Catalog.isDefined, Catalog.item, h i hi]

theorem outcome_eq_of_agree (hi : i ∈ M) : outcome ⟨c, config⟩ i = outcome ⟨c', config⟩ i := by
  unfold outcome isListedDead isDefined
  rw [item_eq_of_agree h hi]

theorem entry?_eq_of_agree (hi : i ∈ M) : entry? ⟨c, config⟩ i = entry? ⟨c', config⟩ i := by
  unfold entry?
  rw [outcome_eq_of_agree h hi, item_eq_of_agree h hi]

variable (hM : c.Encloses M)
include hM

theorem declaredDeps_eq_of_agree (hi : i ∈ M) :
    declaredDeps ⟨c, config⟩ i = declaredDeps ⟨c', config⟩ i := by
  simp only [declaredDeps, outcome_eq_of_agree h hi, item_eq_of_agree h hi,
    isDefined_eq_of_agree h hM.general_mem]

theorem linkedTarget?_eq_of_agree (hi : i ∈ M) :
    linkedTarget? ⟨c, config⟩ i = linkedTarget? ⟨c', config⟩ i := by
  unfold linkedTarget?
  rw [← entry?_eq_of_agree h hi]
  split
  · rename_i t he
    rw [item_eq_of_agree h (mem_of_entry hM hi (entry?_eq_aliasOf_iff.1 he).2)]
  · rfl

theorem deps_eq_of_agree (hi : i ∈ M) : deps ⟨c, config⟩ i = deps ⟨c', config⟩ i := by
  rw [deps, deps, declaredDeps_eq_of_agree h hM hi, ← linkedTarget?_eq_of_agree h hM hi]
  cases ht : linkedTarget? ⟨c, config⟩ i with
  | none => rfl
  | some t =>
    have hmem : t ∈ M := mem_of_entry hM hi (linkedTarget?_eq_some_iff.1 ht).2.2.1
    simp only [item_eq_of_agree h hmem]

theorem ownText_eq_of_agree (hi : i ∈ M) : ownText ⟨c, config⟩ i = ownText ⟨c', config⟩ i := by
  simp only [ownText, functionText, entry?_eq_of_agree h hi, item_eq_of_agree h hi,
    linkedTarget?_eq_of_agree h hM hi]

theorem compiledDeps_eq_of_agree (hi : i ∈ M) :
    compiledDeps ⟨c, config⟩ i = compiledDeps ⟨c', config⟩ i := by
  rw [compiledDeps, compiledDeps, ← item_eq_of_agree h hi, ← deps_eq_of_agree h hM hi]
  have hfilter : (deps ⟨c, config⟩ i).filter (fun d => (item ⟨c, config⟩ d).inCompiledSection) =
      (deps ⟨c, config⟩ i).filter fun d => (item ⟨c', config⟩ d).inCompiledSection :=
    List.filter_congr fun d hd => by
      rw [item_eq_of_agree h ((mem_deps_iff.1 hd).mem hM hi)]
  rw [hfilter]

theorem emitAlike_of_agree : EmitAlike ⟨c, config⟩ ⟨c', config⟩ M where
  exportAll_eq := rfl
  mem_of_mem_deps hi hd := (mem_deps_iff.1 hd).mem hM hi
  deps_eq := deps_eq_of_agree h hM
  outcome_eq := outcome_eq_of_agree h
  ownText_eq := ownText_eq_of_agree h hM
  isLibraryFn_eq hi := by
    simp only [isLibraryFn, entry?_eq_of_agree h hi, linkedTarget?_eq_of_agree h hM hi]
  autoexports_eq hi := by simp only [autoexports, deps_eq_of_agree h hM hi]
  compiledDeps_eq := compiledDeps_eq_of_agree h hM
  proxyMode?_eq hi := by
    unfold proxyMode? isFunction standsAlone
    rw [entry?_eq_of_agree h hi, outcome_eq_of_agree h hi, item_eq_of_agree h hi]
  compiledSig?_eq hi := by
    unfold compiledSig? isFunction standsAlone
    rw [entry?_eq_of_agree h hi, outcome_eq_of_agree h hi, item_eq_of_agree h hi]
  postset?_eq hi := by
    unfold postset? standsAlone
    rw [outcome_eq_of_agree h hi, item_eq_of_agree h hi]

theorem missingDeps_eq_of_agree (hi : i ∈ M) :
    missingDeps ⟨c, config⟩ i isCompiled = missingDeps ⟨c', config⟩ i isCompiled := by
  rw [missingDeps, missingDeps, ← declaredDeps_eq_of_agree h hM hi]
  refine List.filter_congr fun d hd => ?_
  have hd : d ∈ M := (mem_deps_iff.1 (List.mem_append_left _ hd)).mem hM hi
  rw [show Catalog.isDefined c d = _ from isDefined_eq_of_agree h hd]

theorem notes_eq_of_agree (hi : i ∈ M) :
    notes ⟨c, config⟩ isCompiled i = notes ⟨c', config⟩ isCompiled i := by
  unfold notes openingNotices addingNotices isUnkillable isListedDead isTolerated isReportedMissing
    standsAlone
  rw [item_eq_of_agree h hi, outcome_eq_of_agree h hi, missingDeps_eq_of_agree h hM hi,
    deps_eq_of_agree h hM hi]

end Agree

end Plan

theorem LinkState.runPass_congr {p q : Plan} {M : Set Ident} {rs : List Request} (l : LinkState)
    (hpq : p.EmitAlike q M) (hundefined : ∀ i ∈ M, p.isUndefined i = q.isUndefined i)
    (hnotes : ∀ i ∈ M, ∀ isCompiled, p.notes isCompiled i = q.notes isCompiled i)
    (hrs : ∀ r ∈ rs, r.ident ∈ M) : l.runPass p rs = l.runPass q rs := by
  obtain ⟨heq, hstep⟩ := Session.concur_requestAll hpq (.refl_of_fresh M l) hrs
  unfold runPass
  cases h : Session.requestAll p { link := l } rs with
  | mk s r =>
    rw [h] at heq hstep
    cases r with
    | error e =>
      cases h' : Session.requestAll q { link := l } rs with
      | mk s' r' =>
        rw [h'] at heq
        obtain rfl : .error e = r' := heq
        rfl
    -- What a pass reports is about what it has begun, which is in the set.
    | ok _ =>
      rw [Session.requestAll_eq_of_reportAlike hpq hrs h
        (fun i hi => hundefined i (hstep.begun_mem i hi))
        fun i hi => hnotes i (hstep.begun_mem i hi) _]

structure Link.StartsIn (config : Config) (program : Program) (M : Set Ident) : Prop where
  requested : ∀ r ∈ program.requests, r.ident ∈ M
  requested_globals : ∀ r ∈ program.globals, r.ident ∈ M
  mem_of_default : ∀ i ∈ config.defaultIdents, i ∈ M

/-- Unless it links the full catalog, a link reads only what it is led to. -/
theorem link_eq_of_agree {c c' : Catalog} {config : Config} {program : Program} {M : Set Ident}
    (shell : Shell) (hfull : config.fullCatalog = false) (hstart : Link.StartsIn config program M)
    (hM : c.Encloses M) (h : c.AgreeOn M c') :
    link c config program shell = link c' config program shell := by
  have halike : Plan.EmitAlike ⟨c, config⟩ ⟨c', config⟩ M := Plan.emitAlike_of_agree h hM
  have hdefaults : ∀ c : Catalog, Link.defaultRequests ⟨c, config⟩ =
      config.defaultIdents.map ({ ident := · }) := by
    intro c
    simp [Link.defaultRequests, hfull]
  have hpass : ∀ (l : LinkState) (rs : List Request), (∀ r ∈ rs, r.ident ∈ M) →
      l.runPass ⟨c, config⟩ rs = l.runPass ⟨c', config⟩ rs := fun l rs hrs =>
    l.runPass_congr halike (fun i hi => by
      unfold Plan.isUndefined Plan.isReportedMissing
      rw [Plan.outcome_eq_of_agree h hi]) (fun i hi _ => Plan.notes_eq_of_agree h hM hi) hrs
  have hmain : ∀ r ∈ program.requests ++ config.defaultIdents.map ({ ident := · }),
      r.ident ∈ M := by
    intro r hr
    obtain hr | hr := List.mem_append.1 hr
    · exact hstart.requested r hr
    · obtain ⟨i, hi, rfl⟩ := List.mem_map.1 hr
      exact hstart.mem_of_default i hi
  unfold link
  simp only [hdefaults, hpass _ _ hmain, hpass _ _ hstart.requested_globals]

def paired : Catalog where
  items := [(⟨"A"⟩, { entry := some (.raw "1"), deps := [⟨"B"⟩] }),
    (⟨"B"⟩, { entry := some (.raw "2") })]
  order := [⟨"A"⟩, ⟨"B"⟩]

/-- The same two values among others, which depend on them. -/
def crowded : Catalog where
  items := [(⟨"C"⟩, { entry := some (.body "function() \x7b\x7d"), deps := [⟨"A"⟩] }),
    (⟨"B"⟩, { entry := some (.raw "2") }), (⟨"D"⟩, { entry := some (.aliasOf ⟨"B"⟩) }),
    (⟨"A"⟩, { entry := some (.raw "1"), deps := [⟨"B"⟩] })]
  order := [⟨"C"⟩, ⟨"B"⟩, ⟨"D"⟩, ⟨"A"⟩]

theorem paired_link_crowded :
    paired.contains ⟨"C"⟩ = false ∧ crowded.contains ⟨"C"⟩ = true ∧
      link paired {} { requests := [⟨⟨"A"⟩, none, none⟩] } {} =
        link crowded {} { requests := [⟨⟨"A"⟩, none, none⟩] } {} := by
  refine ⟨by decide, by decide,
    link_eq_of_agree (M := {⟨"A"⟩, ⟨"B"⟩, Plan.generalCatch}) {} rfl ⟨?_, ?_, ?_⟩ ⟨?_, ?_⟩ ?_⟩
  · simp
  · simp
  · simp
  · simp
  · rintro i (rfl | rfl | rfl) d hd
    · obtain rfl : d = ⟨"B"⟩ := List.mem_singleton.1 hd
      simp
    · exact absurd hd List.not_mem_nil
    · exact absurd hd List.not_mem_nil
  · rintro i (rfl | rfl | rfl) <;> rfl

end CatalogLinker
