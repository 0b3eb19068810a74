import CatalogLinker.Proofs.Resolution.Calls

namespace CatalogLinker

open CatalogLinker.Graph Graph.Visit Graph.Network

namespace Session

inductive Step where
  | resolve (ident : Ident)
  | request (request : Request)

variable (p : Plan)

def perform (s : Session) : Step → Session × Except LinkError Unit
  | .resolve i =>
    match s.resolve p i with
    | (s, .error e) => (s, .error e)
    | (s, .ok _) => (s, .ok ())
  | .request r => s.request p r

def performAll (s : Session) (steps : List Step) : Session :=
  steps.foldl (fun s step => (s.perform p step).1) s

/-- What the parts of a resolution maintain. It can speak of the identifiers that are being
resolved, the innermost first; a failure abandons them. -/
structure Maintains (J : List Ident → Session → Prop) : Prop where
  noted : ∀ {s} r, J [] s → J [] (s.noted r)
  delivered : ∀ {s} n t, J [] s → J [] (s.delivered n t)
  turnBack : ∀ {under s} i, J under s → J under (s.turnBack i)
  start : ∀ {under s i}, ¬s.TurnsBack i → J under s → J under (s.start p i)
  announce : ∀ {under s i}, ¬s.TurnsBack i → J under s →
    J (i :: under) ((s.start p i).announce p i)
  addPostset : ∀ {under s} i, J under s → J under (s.addPostset p i)
  finish : ∀ {under s s' i t} u, J (i :: under) s → Places p s i s' t →
    J under (s'.conclude p i u)
  abandon : ∀ {under s i}, J (i :: under) s → J under s

variable {p} {s s' : Session} {r : Request}

theorem request_eq (s : Session) (r : Request) :
    s.request p r =
      match (s.noted r).resolve p r.ident with
      | (s, .error e) => (s, .error e)
      | (s, .ok t) => (s.delivered r.ident.finalName t, .ok ()) := by
  rw [request]
  generalize hr : resolve p _ r.ident = x
  change (s.noted r).resolve p r.ident = x at hr
  rw [hr]
  obtain ⟨s₁, res⟩ := x
  cases res with
  | error e => rfl
  | ok t =>
    dsimp only
    rw [delivered]
    split <;> rfl

namespace Maintains

variable {J : List Ident → Session → Prop}

theorem resolve (h : Maintains p J) (x : Session × Ident) (under : List Ident)
    (hs : J under x.1) : J under (x.1.resolve p x.2).1 := by
  induction x using (wellFounded_calls p).induction generalizing under with
  | _ x ih =>
    obtain ⟨s, i⟩ := x
    -- The dependencies are resolved while the identifier itself is under way.
    have hdeps : ∀ own, ¬s.TurnsBack i → p.ownText i = .ok own →
        J (i :: under) (((s.start p i).announce p i).resolveAll p (p.deps i)).1 := by
      intro own ht ho
      refine resolveAll_keeps (h.announce ht hs) fun before d after s₁ ts hd hb hs₁ => ?_
      exact ih (s₁, d) (.dependency ht ho hd hb) _ hs₁
    cases hr : s.resolve p i with
    | mk s' r =>
      cases resolves s i hr with
      | turnedBack _ => exact h.turnBack i hs
      | unreadable ht _ => exact h.start ht hs
      | interrupted ht ho hd =>
        have hd' := hdeps _ ht ho
        rw [hd] at hd'
        exact h.abandon hd'
      | unplaced ht ho hd =>
        have hd' := hdeps _ ht ho
        rw [hd] at hd'
        exact h.abandon (h.addPostset i hd')
      | completed ht ho hd hp =>
        have hd' := hdeps _ ht ho
        rw [hd] at hd'
        exact h.finish _ (h.addPostset i hd') hp

theorem perform (h : Maintains p J) (hs : J [] s) (step : Step) : J [] (s.perform p step).1 := by
  cases step with
  | resolve i =>
    have hi := h.resolve (s, i) [] hs
    rw [Session.perform]
    cases hr : s.resolve p i with
    | mk s₁ r =>
      rw [hr] at hi
      cases r <;> exact hi
  | request r =>
    have hi := h.resolve (s.noted r, r.ident) [] (h.noted r hs)
    rw [Session.perform, request_eq]
    cases hr : (s.noted r).resolve p r.ident with
    | mk s₁ res =>
      rw [hr] at hi
      cases res with
      | error e => exact hi
      | ok t => exact h.delivered _ t hi

theorem performAll (h : Maintains p J) (hs : J [] s) (steps : List Step) :
    J [] (s.performAll p steps) := by
  induction steps generalizing s with
  | nil => exact hs
  | cons step steps ih => exact ih (h.perform hs step)

theorem requestAll (h : Maintains p J) (hs : J [] s) (rs : List Request) :
    J [] (s.requestAll p rs).1 := by
  induction rs generalizing s with
  | nil => exact hs
  | cons r rs ih =>
    have hr : J [] (s.request p r).1 := h.perform hs (.request r)
    rw [Session.requestAll]
    cases hres : s.request p r with
    | mk s₁ res =>
      rw [hres] at hr
      cases res with
      | error e => exact hr
      | ok _ => exact ih hr

end Maintains

/-- An identifier is under way from when it is announced until its text is placed. By then its name
is resolved, and nothing else provides it. -/
structure UnderWay (p : Plan) (under : List Ident) (s : Session) : Prop where
  distinct : (under.map Ident.finalName).Nodup
  resolved : ∀ i ∈ under, i.finalName ∈ s.pass.resolved
  free : ∀ i ∈ under, ¬s.isClosed i.finalName
  announced : ∀ i ∈ under, p.isLibraryFn i → s.link.isLibraryFn i.finalName

namespace UnderWay

variable {under : List Ident} {i : Ident} {t : String}

theorem nil (s : Session) : UnderWay p [] s := by
  constructor <;> simp

theorem tail (h : UnderWay p (i :: under) s) : UnderWay p under s where
  distinct := (List.nodup_cons.1 h.distinct).2
  resolved j hj := h.resolved j (List.mem_cons_of_mem i hj)
  free j hj := h.free j (List.mem_cons_of_mem i hj)
  announced j hj := h.announced j (List.mem_cons_of_mem i hj)

theorem frame (h : UnderWay p under s)
    (hr : ∀ n, n ∈ s.pass.resolved → n ∈ s'.pass.resolved)
    (hc : ∀ i ∈ under, s'.isClosed i.finalName → s.isClosed i.finalName)
    (hl : ∀ n, s.link.isLibraryFn n → s'.link.isLibraryFn n) : UnderWay p under s' where
  distinct := h.distinct
  resolved i hi := hr _ (h.resolved i hi)
  free i hi hs := h.free i hi (hc i hi hs)
  announced i hi hf := hl _ (h.announced i hi hf)

theorem turnBack (h : UnderWay p under s) (i : Ident) : UnderWay p under (s.turnBack i) := by
  refine h.frame (fun n hn => ?_) (fun j _ hs => ?_) fun n hn => ?_
  · exact (mem_turnBack_resolved s i).2 (.inl hn)
  · exact (isClosed_congr (turnBack_compiled s i) (turnBack_isImplemented s i) _).1 hs
  · rwa [turnBack_isLibraryFn]

theorem start (h : UnderWay p under s) (i : Ident) : UnderWay p under (s.start p i) := by
  refine h.frame (fun n hn => ?_) (fun j _ hs => ?_) fun n hn => hn
  · exact (mem_start_resolved p s i).2 (.inl hn)
  · exact hs

theorem announce (ht : ¬s.TurnsBack i) (h : UnderWay p under s) :
    UnderWay p (i :: under) ((s.start p i).announce p i) := by
  have hclosed : ∀ n, ((s.start p i).announce p i).isClosed n ↔ s.isClosed n :=
    isClosed_congr (announce_compiled p _ i) (announce_isImplemented p _ i)
  have hunder : UnderWay p under ((s.start p i).announce p i) := by
    refine (h.start i).frame (fun n hn => hn) (fun j _ hs => ?_) fun n hn => ?_
    · exact (hclosed _).1 hs
    · exact (isLibraryFn_announce p _ i).2 (.inl hn)
  constructor
  · rw [List.map_cons, List.nodup_cons]
    refine ⟨fun hi => ht (.inr (.inr ?_)), h.distinct⟩
    obtain ⟨j, hj, hji⟩ := List.mem_map.1 hi
    exact hji ▸ h.resolved j hj
  · rw [List.forall_mem_cons, announce_resolved, mem_start_resolved]
    exact ⟨.inr rfl, hunder.resolved⟩
  · rw [List.forall_mem_cons, hclosed]
    exact ⟨fun hc => ht (.inr (.inl hc)), hunder.free⟩
  · rw [List.forall_mem_cons]
    exact ⟨fun hi => (isLibraryFn_announce p _ i).2 (.inr ⟨hi, rfl⟩), hunder.announced⟩

theorem addPostset (h : UnderWay p under s) (i : Ident) : UnderWay p under (s.addPostset p i) := by
  refine h.frame (fun n hn => ?_) (fun j _ hs => ?_) fun n hn => ?_
  · rwa [addPostset_resolved]
  · rwa [isClosed, addPostset_link] at hs
  · rwa [addPostset_link]

theorem finish (h : UnderWay p (i :: under) s) (hp : Places p s i s' t) (u : String) :
    UnderWay p under (s'.conclude p i u) := by
  refine h.tail.frame (fun n hn => ?_) (fun j hj hs => ?_) fun n hn => ?_
  · rwa [conclude_resolved, hp.resolved_eq]
  · have hne : j.finalName ≠ i.finalName := fun hji =>
      (List.nodup_cons.1 h.distinct).1 (hji ▸ List.mem_map_of_mem hj)
    rw [isClosed_iff, conclude_compiled, conclude_isImplemented, hp.compiled_eq,
      hp.isImplemented] at hs
    rw [isClosed_iff]
    exact hs.imp_right fun hs => hs.resolve_right fun hi => hne hi.1
  · exact hp.isLibraryFn hn

/-- What the parts of a resolution preserve, given what is under way, they maintain. -/
theorem maintains {K : Session → Prop} (noted : ∀ {s} r, K s → K (s.noted r))
    (delivered : ∀ {s} n t, K s → K (s.delivered n t))
    (turnBack : ∀ {s} i, K s → K (s.turnBack i)) (start : ∀ {s} i, K s → K (s.start p i))
    (announce : ∀ {s} i, K s → K (s.announce p i))
    (addPostset : ∀ {s} i, K s → K (s.addPostset p i))
    (finish : ∀ {under s s' i t} u, UnderWay p (i :: under) s → K s → Places p s i s' t →
      K (s'.conclude p i u)) :
    Maintains p fun under s => UnderWay p under s ∧ K s where
  noted r h := ⟨nil _, noted r h.2⟩
  delivered n t h := ⟨nil _, delivered n t h.2⟩
  turnBack i h := ⟨h.1.turnBack i, turnBack i h.2⟩
  start _ h := ⟨h.1.start _, start _ h.2⟩
  announce ht h := ⟨h.1.announce ht, announce _ (start _ h.2)⟩
  addPostset i h := ⟨h.1.addPostset i, addPostset i h.2⟩
  finish u h hp := ⟨h.1.finish hp u, finish u h.1 h.2 hp⟩
  abandon h := ⟨h.1.tail, h.2⟩

end UnderWay

end Session

structure Progress where
  past : List Pass := []
  session : Session

namespace Progress

variable (p : Plan)

inductive Advances : Progress → Progress → Prop
  | step (x : Progress) (step : Session.Step) :
      Advances x { x with session := (x.session.perform p step).1 }
  | nextPass (x : Progress) :
      Advances x { past := x.past ++ [x.session.pass], session := { link := x.session.link } }

def Reaches : Progress → Progress → Prop :=
  Relation.ReflTransGen (Advances p)

variable {p} {x y : Progress}

/-- What the parts of a resolution maintain, given the passes made so far, and what carries over to
a new pass holds throughout a link. -/
theorem Reaches.maintained {J : List Pass → List Ident → Session → Prop}
    (step : ∀ past, Session.Maintains p (J past))
    (nextPass : ∀ past s, J past [] s → J (past ++ [s.pass]) [] { link := s.link })
    (h : Reaches p x y) (hx : J x.past [] x.session) : J y.past [] y.session := by
  induction h with
  | refl => exact hx
  | tail _ hadv ih =>
    cases hadv with
    | step st => exact (step _).perform ih st
    | nextPass => exact nextPass _ _ ih

theorem Reaches.preserved {K : List Pass → Session → Prop}
    (step : ∀ past, Session.Maintains p fun under s => Session.UnderWay p under s ∧ K past s)
    (nextPass : ∀ past s, K past s → K (past ++ [s.pass]) { link := s.link })
    (h : Reaches p x y) (hx : K x.past x.session) : K y.past y.session :=
  (h.maintained step (fun past s hs => ⟨.nil _, nextPass past s hs.2⟩) ⟨.nil _, hx⟩).2

end Progress

end CatalogLinker
