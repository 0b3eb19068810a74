import CatalogLinker.Proofs.Resolution.Execution

namespace CatalogLinker

open CatalogLinker.Graph Graph.Visit Graph.Network

namespace Session

variable (p : Plan)

/-- A session can expand the same names as a walk that has come as far as `seen`. -/
def Aligned (closed : Name → Bool) (seen : List Name) (s : Session) : Prop :=
  ∀ n, closed n ∨ n ∈ seen ↔ s.isClosed n ∨ n ∈ s.pass.resolved

theorem isClosed_iff (s : Session) (n : Name) :
    s.isClosed n ↔ n ∈ s.link.compiled ∨ s.link.isImplemented n := by
  rw [isClosed, Bool.or_eq_true, LinkState.isCompiled, List.contains_iff_mem]

theorem isClosed_congr {s s' : Session} (hc : s'.link.compiled = s.link.compiled)
    (hi : ∀ n, s'.link.isImplemented n = s.link.isImplemented n) (n : Name) :
    s'.isClosed n ↔ s.isClosed n := by
  rw [isClosed_iff, isClosed_iff, hc, hi]

theorem isOpen_network_iff {closed : Name → Bool} {seen : List Name} {i : Ident} :
    ((p.network closed).isOpen i ∧ (p.network closed).key i ∉ seen) ↔
      ¬i.isMetadataKey ∧ ¬(closed i.finalName ∨ i.finalName ∈ seen) := by
  simp only [Plan.network, Bool.and_eq_true, Bool.not_eq_true', Bool.not_eq_true, not_or, and_assoc]

variable {p} {closed : Name → Bool} {seen seen' : List Name} {s s' s₁ : Session} {i : Ident}
  {is : List Ident} {t : String} {ts : List String} {ps : List Placement}

namespace Aligned

theorem refl (s : Session) : Aligned s.isClosed s.pass.resolved s :=
  fun _ => Iff.rfl

theorem congr (h : Aligned closed seen s) (hs : ∀ n, n ∈ seen' ↔ n ∈ seen) :
    Aligned closed seen' s := by
  intro n
  rw [hs n]
  exact h n

theorem of_eq (h : Aligned closed seen s) (hc : s'.link.compiled = s.link.compiled)
    (hi : ∀ n, s'.link.isImplemented n = s.link.isImplemented n)
    (hr : s'.pass.resolved = s.pass.resolved) : Aligned closed seen s' := by
  intro n
  rw [isClosed_congr hc hi, hr]
  exact h n

theorem walk_eq (h : Aligned closed seen s) (is : List Ident) :
    (p.network s.isClosed).visitAll s.pass.resolved is = (p.network closed).visitAll seen is := by
  refine visitAll_congr (g := p.network s.isClosed) (h := p.network closed) rfl rfl (fun i => ?_) is
  rw [isOpen_network_iff, isOpen_network_iff, h i.finalName]

theorem turnBack (h : Aligned closed seen s)
    (hi : ¬((p.network closed).isOpen i ∧ (p.network closed).key i ∉ seen)) :
    Aligned closed seen (s.turnBack i) := by
  intro n
  rw [isClosed_congr (turnBack_compiled s i) (turnBack_isImplemented s i), mem_turnBack_resolved,
    ← or_assoc, ← h n]
  refine ⟨.inl, fun hn => hn.elim id ?_⟩
  rintro ⟨hm, -, rfl⟩
  by_contra hn
  exact hi ((isOpen_network_iff p).2 ⟨hm, hn⟩)

theorem start (h : Aligned closed seen s) (i : Ident) :
    Aligned closed (i.finalName :: seen) ((s.start p i).announce p i) := by
  intro n
  rw [isClosed_congr (s := s) (by simp) (by simp), announce_resolved, mem_start_resolved,
    List.mem_cons, or_left_comm, h n, or_comm, or_assoc]

theorem finish {below : List Name} (h : Aligned closed (below ++ i.finalName :: seen) s₁)
    (hp : Places p (s₁.addPostset p i) i s t) (u : String) :
    Aligned closed (i.finalName :: (below ++ seen)) (s.conclude p i u) := by
  intro n
  have hleft : closed n ∨ n ∈ i.finalName :: (below ++ seen) ↔
      closed n ∨ n ∈ below ++ i.finalName :: seen := by
    simp only [List.mem_cons, List.mem_append, or_left_comm]
  have hname : n = i.finalName → s₁.isClosed n ∨ n ∈ s₁.pass.resolved :=
    fun hn => (h n).1 (.inr (by simp [hn]))
  rw [hleft, h n, isClosed_iff s₁, isClosed_iff, conclude_compiled, conclude_isImplemented,
    conclude_resolved, hp.compiled_eq, hp.isImplemented, hp.resolved_eq, addPostset_link,
    addPostset_resolved]
  rw [isClosed_iff] at hname
  constructor
  · rintro ((hc | hc) | hr)
    · exact .inl (.inl hc)
    · exact .inl (.inr (.inl hc))
    · exact .inr hr
  · rintro ((hc | hc | ⟨hn, -⟩) | hr)
    · exact .inl (.inl hc)
    · exact .inl (.inr hc)
    · exact hname hn
    · exact .inr hr

end Aligned

theorem Executes.aligned (ha : Aligned closed seen s)
    (h : Executes p s ((p.network closed).visitAll seen is) s' ts ps) :
    Aligned closed ((p.network closed).expandedKeysAll ((p.network closed).visitAll seen is) ++ seen)
      s' := by
  -- The walk decides the steps, so the induction is on the walk and inverts the execution.
  induction seen, is using (p.network closed).walk_induction generalizing s s' ts ps with
  | nil =>
    cases h
    exact ha
  | turnedBack seen i is hi ih =>
    rw [visitAll_turnedBack _ hi] at h ⊢
    cases h with
    | turnedBack h => simpa using ih (ha.turnBack hi) h
  | expanded seen i is ho hk ihn ihs =>
    rw [visitAll_expanded _ ho hk] at h ⊢
    cases h with
    | expanded hu hp hv =>
      have hn := ihn (ha.start i) hu
      refine (ihs (hn.finish hp _) hv).congr fun n => ?_
      simp only [expandedKeysAll_expanded, List.mem_cons, List.mem_append]
      tauto

theorem resolve_eq_follow (ha : Aligned closed seen s) (i : Ident) :
    s.resolve p i = s.follow p ((p.network closed).visit seen i) := by
  have h : [s.walk p i] = [(p.network closed).visit seen i] := ha.walk_eq [i]
  rw [resolve, List.head_eq_of_cons_eq h]

theorem executes_of_resolve (ha : Aligned closed seen s) (h : s.resolve p i = (s', .ok t)) :
    ∃ ps, Executes p s ((p.network closed).visitAll seen [i]) s' [t] ps :=
  executes_of_follow (resolve_eq_follow ha i ▸ h)

variable (p)

def resolveAll (s : Session) : List Ident → Session × Except LinkError (List String)
  | [] => (s, .ok [])
  | i :: is =>
    match s.resolve p i with
    | (s, .error e) => (s, .error e)
    | (s, .ok text) =>
      match resolveAll s is with
      | (s, .error e) => (s, .error e)
      | (s, .ok texts) => (s, .ok (text :: texts))

variable {p}

theorem followAll_eq_resolveAll (ha : Aligned closed seen s) (is : List Ident) :
    s.followAll p ((p.network closed).visitAll seen is) = s.resolveAll p is := by
  induction is generalizing seen s with
  | nil => rfl
  | cons i is ih =>
    rw [visitAll, followAll, resolveAll, ← resolve_eq_follow ha i]
    cases h : s.resolve p i with
    | mk s₁ r =>
      cases r with
      | error e => rfl
      | ok t =>
        obtain ⟨ps, hps⟩ := executes_of_resolve ha h
        have ha' : Aligned closed ((p.network closed).expandedKeys
            ((p.network closed).visit seen i) ++ seen) s₁ := hps.aligned ha
        have hrest := ih ha'
        cases hs : s₁.resolveAll p is with
        | mk s₂ r =>
          rw [hs] at hrest
          cases r with
          | error e => simp only [hrest, hs]
          | ok ts => simp only [hrest, hs]

/-- Resolving an identifier resolves its dependencies in turn, unless it is a metadata key, provided
by compiled code, resolved before or in the compiled section. -/
theorem resolve_eq (s : Session) (i : Ident) :
    s.resolve p i =
      if i.isMetadataKey ∨ s.isClosed i.finalName ∨ i.finalName ∈ s.pass.resolved then
        (s.turnBack i, .ok "")
      else
        match p.ownText i with
        | .error e => (s.start p i, .error e)
        | .ok own =>
          match ((s.start p i).announce p i).resolveAll p (p.deps i) with
          | (s, .error e) => (s, .error e)
          | (s, .ok texts) =>
            match own.elim (s.addPostset p i, .ok "") ((s.addPostset p i).place p i) with
            | (s, .error e) => (s, .error e)
            | (s, .ok text) =>
              (s.conclude p i (joinTexts (texts ++ [text])), .ok (joinTexts (texts ++ [text]))) := by
  have hopen : ((p.network s.isClosed).isOpen i ∧
      (p.network s.isClosed).key i ∉ s.pass.resolved) ↔
        ¬(i.isMetadataKey ∨ s.isClosed i.finalName ∨ i.finalName ∈ s.pass.resolved) :=
    (isOpen_network_iff p).trans not_or.symm
  by_cases h : i.isMetadataKey ∨ s.isClosed i.finalName ∨ i.finalName ∈ s.pass.resolved
  · rw [if_pos h, resolve, walk, visit_eq, if_neg fun ho => hopen.1 ho h, follow]
  · rw [if_neg h, resolve, walk, visit_eq, if_pos (hopen.2 h), follow]
    have ha : Aligned s.isClosed (i.finalName :: s.pass.resolved) ((s.start p i).announce p i) :=
      (Aligned.refl s).start i
    have hf := followAll_eq_resolveAll (p := p) ha (p.deps i)
    cases p.ownText i with
    | error e => rfl
    | ok own =>
      dsimp only
      rw [← hf]
      rfl

end Session

end CatalogLinker
