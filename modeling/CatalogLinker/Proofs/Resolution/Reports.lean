import CatalogLinker.Proofs.Resolution.Lockstep

namespace CatalogLinker

open CatalogLinker.Graph

def Plan.notes (p : Plan) (isCompiled : Name → Bool) (i : Ident) : List LinkNotice :=
  p.openingNotices i isCompiled ++ p.addingNotices i

namespace Session

variable (p : Plan)

structure Reports (compiled : List Name) (s : Session) : Prop where
  compiled_eq : s.link.compiled = compiled
  undefined_eq : s.pass.undefined = s.pass.begun.filter p.isUndefined
  notices_eq : s.pass.notices = s.pass.begun.flatMap (p.notes compiled.contains)

variable {p} {q : Plan} {M : Set Ident} {compiled : List Name} {s s' : Session} {i : Ident}
  {l : LinkState} {rs : List Request} {t : String}

namespace Reports

theorem frame (h : Reports p compiled s) (hc : s'.link.compiled = s.link.compiled)
    (hu : s'.pass.undefined = s.pass.undefined) (hn : s'.pass.notices = s.pass.notices)
    (hb : s'.pass.begun = s.pass.begun) : Reports p compiled s' where
  compiled_eq := hc.trans h.compiled_eq
  undefined_eq := by rw [hu, hb, h.undefined_eq]
  notices_eq := by rw [hn, hb, h.notices_eq]

theorem delivered (h : Reports p compiled s) (n : Name) (t : String) :
    Reports p compiled (s.delivered n t) := by
  refine h.frame (by rw [delivered_link]) ?_ ?_ (by rw [Pass.begun, delivered_trace]; rfl)
  all_goals
    rw [Session.delivered]
    split <;> rfl

theorem turnBack (h : Reports p compiled s) (i : Ident) : Reports p compiled (s.turnBack i) := by
  refine h.frame (turnBack_compiled s i) ?_ ?_ (by rw [Pass.begun, turnBack_trace]; rfl)
  all_goals
    rw [Session.turnBack]
    split_ifs <;> simp

theorem addPostset (h : Reports p compiled s) (i : Ident) :
    Reports p compiled (s.addPostset p i) := by
  refine h.frame (by rw [addPostset_link]) ?_ ?_ (by rw [Pass.begun, addPostset_trace]; rfl)
  all_goals
    rw [Session.addPostset, Pass.markPostset]
    split
    · rfl
    · split_ifs <;> rfl

theorem finish (h : Reports p compiled s) (hp : Places p s i s' t) (u : String) :
    Reports p compiled (s'.conclude p i u) := by
  have hs' : Reports p compiled s' := by
    refine h.frame hp.compiled_eq ?_ ?_ (by rw [Pass.begun, hp.trace_eq]; rfl)
    all_goals cases hp <;> rfl
  refine hs'.frame rfl rfl rfl ?_
  rw [Pass.begun, conclude_trace, List.filterMap_append, List.filterMap_cons_none rfl,
    List.filterMap_nil, List.append_nil]
  rfl

theorem announce (h : Reports p compiled s) (i : Ident) :
    Reports p compiled ((s.start p i).announce p i) := by
  have hbegun : ((s.start p i).announce p i).pass.begun = s.pass.begun ++ [i] := by
    rw [Pass.begun, announce_trace, start_trace, List.filterMap_append]
    rfl
  constructor
  · rw [announce_compiled, start_link, h.compiled_eq]
  · rw [hbegun, List.filter_append, ← h.undefined_eq]
    exact start_undefined p s i
  · have hnotices : ((s.start p i).announce p i).pass.notices =
        s.pass.notices ++ p.openingNotices i s.link.isCompiled ++ p.addingNotices i :=
      congrArg (· ++ p.addingNotices i) (start_notices p s i)
    have hcompiled : s.link.isCompiled = compiled.contains :=
      congrArg List.contains h.compiled_eq
    rw [hnotices, hbegun, List.flatMap_append, List.flatMap_singleton, ← h.notices_eq, Plan.notes,
      hcompiled, List.append_assoc]

end Reports

theorem reports_of_requestAll (h : Session.requestAll p { link := l } rs = (s, .ok ())) :
    Reports p l.compiled s := by
  obtain ⟨ps, hps⟩ := serves_of_pass h
  refine (hps.invariant (I := fun _ => Reports p l.compiled) ?_ ?_ ?_ ?_ ?_ ?_ [] ?_).1
  · exact fun _ s r hs => hs.frame noted_compiled rfl rfl rfl
  · exact fun _ s n t hs => hs.delivered n t
  · exact fun _ s i hs => hs.turnBack i
  · exact fun _ s i hs => hs.announce i
  · exact fun _ s i hs => hs.addPostset i
  · exact fun _ s s' i t u hs hp => hs.finish hp u
  · exact ⟨rfl, rfl, rfl⟩

theorem requestAll_eq_of_reportAlike (hpq : p.EmitAlike q M) (hrs : ∀ r ∈ rs, r.ident ∈ M)
    (h : Session.requestAll p { link := l } rs = (s, .ok ()))
    (hundefined : ∀ i ∈ s.pass.begun, p.isUndefined i = q.isUndefined i)
    (hnotes : ∀ i ∈ s.pass.begun,
      p.notes l.compiled.contains i = q.notes l.compiled.contains i) :
    Session.requestAll q { link := l } rs = (s, .ok ()) := by
  obtain ⟨heq, hstep⟩ := concur_requestAll hpq (.refl_of_fresh M l) hrs
  rw [h] at heq hstep
  cases h' : Session.requestAll q { link := l } rs with
  | mk s' r =>
    rw [h'] at heq hstep
    obtain rfl : .ok () = r := heq
    have hs := reports_of_requestAll h
    have hs' := reports_of_requestAll h'
    have hu : s.pass.undefined = s'.pass.undefined := by
      rw [hs.undefined_eq, hs'.undefined_eq, ← hstep.begun_eq]
      exact List.filter_congr hundefined
    have hn : s.pass.notices = s'.pass.notices := by
      rw [hs.notices_eq, hs'.notices_eq, ← hstep.begun_eq]
      exact List.flatMap_congr hnotes
    have hpass := Pass.eq_of_silent_eq hstep.silent_eq hu hn
    obtain ⟨link, pass⟩ := s
    obtain ⟨link', pass'⟩ := s'
    obtain rfl : link = link' := hstep.link_eq
    obtain rfl : pass = pass' := hpass
    rfl

end Session

end CatalogLinker
