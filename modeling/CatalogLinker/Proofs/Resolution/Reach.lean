import CatalogLinker.Proofs.Resolution.Dependency
import CatalogLinker.Proofs.Resolution.Requests
import Mathlib.Data.Set.Function

namespace CatalogLinker

open CatalogLinker.Graph Graph.Visit Graph.Network

def LinkState.Expandable (l : LinkState) (i : Ident) : Prop :=
  ¬i.isMetadataKey ∧ ¬l.isCompiled i.finalName ∧ ¬l.isImplemented i.finalName

namespace Plan

variable (p : Plan)

/-- The least set that holds the identifiers requested and is closed under effective dependencies,
as far as they can be expanded. -/
inductive Needed (l : LinkState) (requested : List Ident) : Ident → Prop
  | requested {i : Ident} : i ∈ requested → l.Expandable i → Needed l requested i
  | dependency {i d : Ident} : Needed l requested i → p.Needs i d → l.Expandable d →
      Needed l requested d

def vocabulary (requested : List Ident) : List Ident :=
  requested ++ p.catalog.items.flatMap fun x => x.1 :: mentions x.2

variable {p} {requested : List Ident} {i d : Ident} {l : LinkState}

theorem mem_vocabulary_of_contains (h : p.catalog.contains i) : i ∈ p.vocabulary requested := by
  obtain ⟨x, hx⟩ := Option.isSome_iff_exists.1 h
  have hi : i ∈ i :: mentions x := List.mem_cons_self
  exact List.mem_append_right _ (List.mem_flatMap.2 ⟨_, Catalog.mem_items_of_get? hx, hi⟩)

theorem mem_vocabulary_of_mentions (h : d ∈ mentions (p.item i)) : d ∈ p.vocabulary requested := by
  rw [item, Catalog.item] at h
  cases hx : p.catalog.get? i with
  | none => simp [hx, mentions, Item.aliasTarget?] at h
  | some x =>
    rw [hx, Option.getD_some] at h
    have hd : d ∈ i :: mentions x := List.mem_cons_of_mem i h
    exact List.mem_append_right _ (List.mem_flatMap.2 ⟨_, Catalog.mem_items_of_get? hx, hd⟩)

theorem mem_vocabulary_of_needs (h : p.Needs i d) : d ∈ p.vocabulary requested := by
  cases h with
  | declared _ hd => exact mem_vocabulary_of_mentions (List.mem_append_left _ hd)
  | general _ _ hg =>
    refine mem_vocabulary_of_contains ?_
    cases hx : p.catalog.get? generalCatch with
    | none => simp [Catalog.isDefined, Catalog.item, hx, Item.isDefined] at hg
    | some x => rw [Catalog.contains, hx, Option.isSome_some]
  | target _ ht =>
    refine mem_vocabulary_of_mentions (i := i) (List.mem_append_right _ ?_)
    simp [Item.aliasTarget?, ht.2.1]
  | ofTarget _ _ hd => exact mem_vocabulary_of_mentions (List.mem_append_left _ hd)

theorem Needed.mem_vocabulary (h : p.Needed l requested i) : i ∈ p.vocabulary requested := by
  cases h with
  | requested hi _ => exact List.mem_append_left _ hi
  | dependency _ hd _ => exact mem_vocabulary_of_needs hd

theorem Needed.congr {requested' : List Ident} (hr : ∀ j ∈ requested, j ∈ requested')
    (h : p.Needed l requested i) : p.Needed l requested' i := by
  induction h with
  | requested hi he => exact .requested (hr _ hi) he
  | dependency _ hd he ih => exact .dependency ih hd he

theorem isOpen_iff_expandable :
    (p.network ({ link := l } : Session).isClosed).isOpen i ↔ l.Expandable i := by
  simp [network, Session.isClosed, LinkState.Expandable]

theorem mem_expanded_iff_needed {closed : Name → Bool}
    (ho : ∀ i, (p.network closed).isOpen i ↔ l.Expandable i)
    (hinj : Set.InjOn Ident.finalName {i | i ∈ p.vocabulary requested}) :
    i ∈ expandedNodesAll ((p.network closed).visitAll [] requested) ↔ p.Needed l requested i := by
  have sound : ∀ a ∈ expandedNodesAll ((p.network closed).visitAll [] requested),
      p.Needed l requested a := by
    refine expanded_induction (fun a b ha hb hob => ?_) (fun a ha hoa => ?_)
    · exact .dependency ha (mem_deps_iff.1 hb) ((ho b).1 hob)
    · exact .requested ha ((ho a).1 hoa)
  -- Nothing else is expanded under the final name of an identifier that is needed.
  have expanded : ∀ a, p.Needed l requested a → a.finalName ∈ ([] : List Name) ∨
      a.finalName ∈ (p.network closed).expandedKeysAll ((p.network closed).visitAll [] requested) →
      a ∈ expandedNodesAll ((p.network closed).visitAll [] requested) := by
    intro a ha hkey
    obtain ⟨b, hb, hba⟩ := List.mem_map.1 (hkey.resolve_left List.not_mem_nil)
    have hab : b = a := hinj (sound b hb).mem_vocabulary ha.mem_vocabulary hba
    exact hab ▸ hb
  refine ⟨sound i, fun h => ?_⟩
  induction h with
  | requested hi he => exact expanded _ (.requested hi he) (key_mem_of_mem_roots hi ((ho _).2 he))
  | dependency ha hd he ih =>
    exact expanded _ (.dependency ha hd he) (key_mem_of_leads ih (mem_deps_iff.2 hd) ((ho _).2 he))

end Plan

namespace Session

variable {p : Plan} {l : LinkState} {rs : List Request} {s : Session} {i : Ident} {n : Name}

theorem began_iff_of_injOn
    (hinj : Set.InjOn Ident.finalName {i | i ∈ p.vocabulary (rs.map Request.ident)})
    (h : Session.requestAll p { link := l } rs = (s, .ok ())) :
    .began i n ∈ s.pass.trace ↔ p.Needed l (rs.map Request.ident) i ∧ n = i.finalName := by
  obtain ⟨ps, hps⟩ := serves_of_pass h
  rw [hps.began_iff, Plan.mem_expanded_iff_needed (fun _ => Plan.isOpen_iff_expandable) hinj]
  simp

/-- A pass begins to expand exactly what its requests need, in whatever order they are made. -/
theorem began_iff_needed
    (hinj : Set.InjOn Ident.finalName {i | i ∈ p.vocabulary (rs.map Request.ident)})
    (h : Session.requestAll p { link := l } rs = (s, .ok ())) :
    (∀ i n, .began i n ∈ s.pass.trace ↔
      p.Needed l (rs.map Request.ident) i ∧ n = i.finalName) ∧
    ∀ rs' s', (∀ i, i ∈ rs'.map Request.ident ↔ i ∈ rs.map Request.ident) →
      Session.requestAll p { link := l } rs' = (s', .ok ()) →
      ∀ i n, .began i n ∈ s'.pass.trace ↔ .began i n ∈ s.pass.trace := by
  refine ⟨fun i n => began_iff_of_injOn hinj h, fun rs' s' hrs h' i n => ?_⟩
  have hinj' : Set.InjOn Ident.finalName {i | i ∈ p.vocabulary (rs'.map Request.ident)} := by
    refine hinj.mono fun i hi => ?_
    exact (List.mem_append.1 hi).elim (fun hi => List.mem_append_left _ ((hrs i).1 hi))
      (List.mem_append_right _)
  rw [began_iff_of_injOn hinj h, began_iff_of_injOn hinj' h']
  exact and_congr_left fun _ => ⟨.congr fun j => (hrs j).1, .congr fun j => (hrs j).2⟩

/-- Two values that depend on each other, one nobody asks for, and a function of an earlier
pass. -/
def entangled : Plan where
  catalog := {
    items := [(⟨"u"⟩, { entry := some (.raw "1"), deps := [⟨"v"⟩, ⟨"g"⟩] }),
      (⟨"v"⟩, { entry := some (.raw "2"), deps := [⟨"u"⟩] }),
      (⟨"w"⟩, { entry := some (.raw "3"), deps := [⟨"u"⟩] }),
      (⟨"g"⟩, { entry := some (.body "function() {}"), deps := [⟨"w"⟩] })]
    order := [⟨"u"⟩, ⟨"v"⟩, ⟨"w"⟩, ⟨"g"⟩] }
  config := {}

def entangledLink : LinkState :=
  LinkState.implement {} ⟨"_g"⟩ "v"

theorem entangled_began :
    ∃ s, Session.requestAll entangled { link := entangledLink }
        [⟨⟨"v"⟩, none, none⟩] = (s, .ok ()) ∧
      (∀ i n, .began i n ∈ s.pass.trace ↔
        entangled.Needed entangledLink [⟨"v"⟩] i ∧ n = i.finalName) ∧
      s.pass.trace.length = 4 := by
  have hinj : Set.InjOn Ident.finalName {i | i ∈ entangled.vocabulary [⟨"v"⟩]} := by
    have hdec : ∀ i ∈ entangled.vocabulary [⟨"v"⟩], ∀ j ∈ entangled.vocabulary [⟨"v"⟩],
        i.finalName = j.finalName → i = j := by decide +kernel
    exact fun i hi j hj => hdec i hi j hj
  have h : Session.requestAll entangled { link := entangledLink }
      [⟨⟨"v"⟩, none, none⟩] = (_, .ok ()) := requestAll_eq_ok (by decide +kernel)
  exact ⟨_, h, (began_iff_needed hinj h).1, by decide +kernel⟩

end Session

end CatalogLinker
