import CatalogLinker.Proofs.Resolution.Progress

namespace CatalogLinker

open CatalogLinker.Graph Graph.Visit

def LinkState.unsigned (l : LinkState) : LinkState :=
  { l with requestSigs := [] }

theorem LinkState.eq_of_unsigned_eq {l l' : LinkState} (h : l.unsigned = l'.unsigned) :
    l = { l' with requestSigs := l.requestSigs } :=
  (congrArg (fun k : LinkState => { k with requestSigs := l.requestSigs }) h :)

theorem LinkState.unsigned_implement (l : LinkState) (n : Name) (sig : String) :
    (l.implement n sig).unsigned = l.unsigned.implement n sig := by
  by_cases hn : l.isImplemented n
  · have hn' : l.unsigned.isImplemented n := hn
    rw [implement, implement, if_pos hn, if_pos hn']
    rfl
  · have hn' : ¬l.unsigned.isImplemented n := hn
    rw [implement, implement, if_neg hn, if_neg hn']
    rfl

namespace Session

def unsigned (s : Session) : Session :=
  { s with link := s.link.unsigned }

variable {p : Plan} {s s' : Session} {i : Ident} {v : Visit Ident} {us vs : List (Visit Ident)}
  {r : Request} {rs : List Request}

section Steps

theorem unsigned_noted (s : Session) (r : Request) : (s.noted r).unsigned = s.unsigned := by
  rw [noted, unsigned, unsigned]
  dsimp only
  split <;> rfl

theorem unsigned_delivered (s : Session) (n : Name) (t : String) :
    (s.delivered n t).unsigned = s.unsigned.delivered n t := by
  rw [delivered, delivered]
  split <;> rfl

theorem unsigned_turnBack (s : Session) (i : Ident) :
    (s.turnBack i).unsigned = s.unsigned.turnBack i := by
  rw [turnBack, turnBack, apply_ite unsigned, apply_ite unsigned]
  rfl

theorem unsigned_start (s : Session) (i : Ident) :
    (s.start p i).unsigned = s.unsigned.start p i := rfl

theorem unsigned_announce (s : Session) (i : Ident) :
    (s.announce p i).unsigned = s.unsigned.announce p i := by
  have hmark : (s.link.markLibraryFn i.finalName).unsigned =
      s.link.unsigned.markLibraryFn i.finalName := by
    rw [LinkState.markLibraryFn, LinkState.markLibraryFn, apply_ite LinkState.unsigned]
    rfl
  rw [announce, announce]
  split
  · rw [unsigned, unsigned, ← hmark]
    rfl
  · rfl

theorem unsigned_addPostset (s : Session) (i : Ident) :
    (s.addPostset p i).unsigned = s.unsigned.addPostset p i := by
  rw [addPostset, addPostset]
  split
  · rfl
  · rw [apply_ite unsigned]
    rfl

theorem place_unsigned (s : Session) (i : Ident) (own : Option String) :
    own.elim (s.unsigned, .ok "") (s.unsigned.place p i) =
      Prod.map unsigned id (own.elim (s, .ok "") (s.place p i)) := by
  cases own with
  | none => rfl
  | some own =>
    have hproxies : s.unsigned.link.proxies = s.link.proxies := rfl
    rw [Option.elim_some, Option.elim_some, place, place, hproxies]
    obtain ⟨proxies, e | text⟩ := proxied p i own s.link.proxies
    · rfl
    · dsimp only
      cases p.compiledSig? i with
      | none => rfl
      | some sig =>
        have himplement := LinkState.unsigned_implement { s.link with proxies } i.finalName sig
        exact Prod.ext (congrArg (Session.mk · _) himplement.symm) rfl

end Steps

theorem followAll_cons_unsigned (hv : s.unsigned.follow p v = Prod.map unsigned id (s.follow p v))
    (hvs : ∀ s : Session, s.unsigned.followAll p vs = Prod.map unsigned id (s.followAll p vs)) :
    s.unsigned.followAll p (v :: vs) = Prod.map unsigned id (s.followAll p (v :: vs)) := by
  rw [followAll, followAll, hv]
  cases s.follow p v with
  | mk s₁ res =>
    cases res with
    | error e => rfl
    | ok t =>
      simp only [Prod.map_apply, id_eq, hvs]
      cases s₁.followAll p vs with
      | mk s₂ res => cases res <;> rfl

theorem follow_expanded_unsigned
    (hus : ∀ s : Session, s.unsigned.followAll p us = Prod.map unsigned id (s.followAll p us)) :
    s.unsigned.follow p (.expanded i us) = Prod.map unsigned id (s.follow p (.expanded i us)) := by
  rw [follow, follow]
  dsimp only
  rw [← unsigned_start]
  cases p.ownText i with
  | error e => rfl
  | ok own =>
    dsimp only
    rw [← unsigned_announce, hus]
    cases ((s.start p i).announce p i).followAll p us with
    | mk s₁ res =>
      cases res with
      | error e => rfl
      | ok ts =>
        simp only [Prod.map_apply, id_eq, ← unsigned_addPostset, place_unsigned]
        cases own.elim (s₁.addPostset p i, .ok "") ((s₁.addPostset p i).place p i) with
        | mk s₂ res => cases res <;> rfl

theorem followAll_unsigned (s : Session) (vs : List (Visit Ident)) :
    s.unsigned.followAll p vs = Prod.map unsigned id (s.followAll p vs) := by
  induction vs using visits_induction generalizing s with
  | nil => rfl
  | turnedBack i vs ih =>
    refine followAll_cons_unsigned ?_ ih
    rw [follow, follow, ← unsigned_turnBack]
    rfl
  | expanded i us vs ihu ihv => exact followAll_cons_unsigned (follow_expanded_unsigned ihu) ihv

theorem resolve_unsigned (s : Session) (i : Ident) :
    s.unsigned.resolve p i = Prod.map unsigned id (s.resolve p i) := by
  have hwalk : s.unsigned.walk p i = s.walk p i := rfl
  rw [resolve, resolve, hwalk]
  cases s.walk p i with
  | turnedBack i =>
    rw [follow, follow, ← unsigned_turnBack]
    rfl
  | expanded i us => exact follow_expanded_unsigned fun s => followAll_unsigned s us

theorem exists_of_unsigned_eq {α : Type} {x y : Session × Except LinkError α}
    (h : Prod.map unsigned id x = Prod.map unsigned id y) :
    ∃ s s' res, x = (s, res) ∧ y = (s', res) ∧ s.unsigned = s'.unsigned := by
  obtain ⟨s, res⟩ := x
  obtain ⟨s', res'⟩ := y
  obtain ⟨hs, rfl⟩ : s.unsigned = s'.unsigned ∧ res = res' := Prod.mk.inj h
  exact ⟨s, s', res, rfl, rfl, hs⟩

theorem request_congr (h : s.unsigned = s'.unsigned) :
    Prod.map unsigned id (s.request p r) = Prod.map unsigned id (s'.request p r) := by
  have hres : Prod.map unsigned id ((s.noted r).resolve p r.ident) =
      Prod.map unsigned id ((s'.noted r).resolve p r.ident) := by
    rw [← resolve_unsigned, ← resolve_unsigned, unsigned_noted, unsigned_noted, h]
  obtain ⟨s₁, s₁', res, hr, hr', hs₁⟩ := exists_of_unsigned_eq hres
  rw [request_eq, request_eq, hr, hr']
  cases res with
  | error e => simpa using hs₁
  | ok t => simp only [Prod.map_apply, id_eq, unsigned_delivered, hs₁]

theorem requestAll_congr (h : s.unsigned = s'.unsigned) :
    Prod.map unsigned id (s.requestAll p rs) = Prod.map unsigned id (s'.requestAll p rs) := by
  induction rs generalizing s s' with
  | nil => simpa [requestAll] using h
  | cons r rs ih =>
    have hres : Prod.map unsigned id (s.request p r) = Prod.map unsigned id (s'.request p r) :=
      request_congr h
    obtain ⟨s₁, s₁', res, hr, hr', hs₁⟩ := exists_of_unsigned_eq hres
    rw [requestAll, requestAll, hr, hr']
    cases res with
    | error e => simpa using hs₁
    | ok _ => exact ih hs₁

end Session

end CatalogLinker
