import CatalogLinker.Proofs.Resolution.Progress
import Mathlib.Logic.Relation

namespace CatalogLinker

namespace Plan

variable (p : Plan) (l : LinkState)

/-- The item of an identifier mentions another identifier, and compiled code does not provide the
first. -/
def LeadsTo (i d : Ident) : Prop :=
  ¬l.isCompiled i.finalName ∧ d ∈ mentions (p.item i)

/-- What an identifier brings along: what its item mentions, the general helper of a numbered catch
helper, and what the target of an alias declares if compiled code provides the target. -/
inductive Draws (i : Ident) : Ident → Prop
  | mentioned {d : Ident} : d ∈ mentions (p.item i) → Draws i d
  | general : isNumberedCatch i → p.catalog.isDefined generalCatch → Draws i generalCatch
  | ofTarget {t d : Ident} : (p.item i).entry = some (.aliasOf t) → l.isCompiled t.finalName →
      d ∈ (p.item t).deps → Draws i d

/-- A path of identifiers, each of which brings the next along. Compiled code provides none of them
but the last, at most. -/
def DrawnFrom : Ident → Ident → Prop :=
  Relation.ReflTransGen fun i d => ¬l.isCompiled i.finalName ∧ p.Draws l i d

variable {p l} {i j d t : Ident}

theorem mem_mentions_of_assignsFrom (h : p.AssignsFrom i t) : t ∈ mentions (p.item i) := by
  refine List.mem_append_right _ ?_
  simp [Item.aliasTarget?, h.2.1]

theorem DrawnFrom.needs (h : p.DrawnFrom l i j) (hc : ¬l.isCompiled j.finalName)
    (hd : p.Needs j d) : p.DrawnFrom l i d := by
  cases hd with
  | declared _ hd => exact h.tail ⟨hc, .mentioned (List.mem_append_left _ hd)⟩
  | general _ hn hg => exact h.tail ⟨hc, .general hn hg⟩
  | target _ ht => exact h.tail ⟨hc, .mentioned (mem_mentions_of_assignsFrom ht)⟩
  | @ofTarget t d _ ht hd =>
    -- The path goes through the target, unless compiled code provides the target.
    by_cases htc : l.isCompiled t.finalName
    · exact h.tail ⟨hc, .ofTarget ht.2.1 htc hd⟩
    · have hpath : p.DrawnFrom l i t := h.tail ⟨hc, .mentioned (mem_mentions_of_assignsFrom ht)⟩
      exact hpath.tail ⟨htc, .mentioned (List.mem_append_left _ hd)⟩

end Plan

namespace Session

structure Within (l : LinkState) (R : Ident → Prop) (s : Session) : Prop where
  compiled_eq : s.link.compiled = l.compiled
  resolved : ∀ n ∈ s.pass.resolved, ∃ i, R i ∧ i.finalName = n ∧ ¬l.isCompiled n

variable {p : Plan} {l : LinkState} {R : Ident → Prop} {s s' : Session} {i d : Ident} {n : Name}

namespace Within

theorem isCompiled_eq (h : Within l R s) (n : Name) : s.link.isCompiled n = l.isCompiled n := by
  rw [LinkState.isCompiled, h.compiled_eq]
  rfl

theorem frame (h : Within l R s) (hc : s'.link.compiled = s.link.compiled)
    (hr : s'.pass.resolved = s.pass.resolved) : Within l R s' :=
  ⟨hc.trans h.compiled_eq, by rw [hr]; exact h.resolved⟩

theorem turnBack (h : Within l R s) (hi : R i) : Within l R (s.turnBack i) where
  compiled_eq := by rw [turnBack_compiled, h.compiled_eq]
  resolved n hn := by
    obtain hn | ⟨-, hc, rfl⟩ := (mem_turnBack_resolved s i).1 hn
    · exact h.resolved n hn
    · exact ⟨i, hi, rfl, by rwa [← h.isCompiled_eq]⟩

theorem not_isCompiled (h : Within l R s) (ht : ¬s.TurnsBack i) : ¬l.isCompiled i.finalName := by
  rw [← h.isCompiled_eq]
  exact fun hc => ht (.inr (.inl (by rw [isClosed, hc, Bool.true_or])))

theorem start (h : Within l R s) (hi : R i) (ht : ¬s.TurnsBack i) : Within l R (s.start p i) where
  compiled_eq := by rw [start_link, h.compiled_eq]
  resolved n hn := by
    obtain hn | rfl := (mem_start_resolved p s i).1 hn
    · exact h.resolved n hn
    · exact ⟨i, hi, rfl, h.not_isCompiled ht⟩

/-- A resolution stays within a set that holds what its members need, except for those that compiled
code provides. -/
theorem resolve (hR : ∀ {i d}, R i → ¬l.isCompiled i.finalName → p.Needs i d → R d)
    (x : Session × Ident) (h : Within l R x.1) (hi : R x.2) :
    Within l R (x.1.resolve p x.2).1 := by
  induction x using (wellFounded_calls p).induction with
  | _ x ih =>
    obtain ⟨s, i⟩ := x
    have hdeps : ∀ own, ¬s.TurnsBack i → p.ownText i = .ok own →
        Within l R (((s.start p i).announce p i).resolveAll p (p.deps i)).1 := by
      intro own ht ho
      have hstart : Within l R (s.start p i) := h.start hi ht
      refine resolveAll_keeps (hstart.frame (announce_compiled ..) rfl) ?_
      intro before d after s₁ ts hd hb hs₁
      have hmem : d ∈ p.deps i := hd ▸ List.mem_append_right _ List.mem_cons_self
      have hRd : R d := hR hi (h.not_isCompiled ht) (Plan.mem_deps_iff.1 hmem)
      exact ih (s₁, d) (.dependency ht ho hd hb) hs₁ hRd
    have hpostset : ∀ {s : Session}, Within l R s → Within l R (s.addPostset p i) := fun h =>
      h.frame (by rw [addPostset_link]) (addPostset_resolved ..)
    cases hr : s.resolve p i with
    | mk s' r =>
      cases resolves s i hr with
      | turnedBack _ => exact h.turnBack hi
      | unreadable ht _ => exact h.start hi ht
      | interrupted ht ho hd =>
        have hd' := hdeps _ ht ho
        rwa [hd] at hd'
      | unplaced ht ho hd =>
        have hd' := hdeps _ ht ho
        rw [hd] at hd'
        exact hpostset hd'
      | completed ht ho hd hp =>
        have hd' := hdeps _ ht ho
        rw [hd] at hd'
        exact (hpostset hd').frame ((conclude_compiled ..).trans hp.compiled_eq)
          ((conclude_resolved ..).trans hp.resolved_eq)

theorem requestAll (hR : ∀ {i d}, R i → ¬l.isCompiled i.finalName → p.Needs i d → R d)
    {rs : List Request} (h : Within l R s) (hrs : ∀ r ∈ rs, R r.ident) :
    Within l R (s.requestAll p rs).1 := by
  induction rs generalizing s with
  | nil => exact h
  | cons r rs ih =>
    have hnoted : Within l R (s.noted r) := h.frame noted_compiled (by rw [noted_pass])
    have hr : Within l R ((s.noted r).resolve p r.ident).1 :=
      resolve hR (s.noted r, r.ident) hnoted (hrs r List.mem_cons_self)
    rw [Session.requestAll, request_eq]
    cases hres : (s.noted r).resolve p r.ident with
    | mk s₁ res =>
      rw [hres] at hr
      cases res with
      | error e => exact hr
      | ok t =>
        refine ih (hr.frame (by rw [delivered_link]) delivered_resolved) fun r' hr' => ?_
        exact hrs r' (List.mem_cons_of_mem r hr')

end Within

theorem not_calls_of_isCompiled (hc : s.link.isCompiled i.finalName) (y : Session × Ident) :
    ¬Calls p (s, i) y := by
  rintro ⟨ht, -⟩
  exact ht (.inr (.inl (by rw [isClosed, hc, Bool.true_or])))

/-- Whatever is requested, in whatever order and whether it succeeds or not, a pass resolves names
only at the ends of paths from the requests, none of which compiled code provides. What compiled
code provides is not begun and its dependencies are not resolved, wherever it is met. -/
theorem resolved_short_of_compiled (p : Plan) (l : LinkState) (rs : List Request) :
    (∀ n ∈ (Session.requestAll p { link := l } rs).1.pass.resolved,
      ∃ r ∈ rs, ∃ i, p.DrawnFrom l r.ident i ∧ i.finalName = n ∧ ¬l.isCompiled n) ∧
    ∀ (s : Session) (i : Ident), s.link.isCompiled i.finalName →
      s.resolve p i = (s.turnBack i, .ok "") ∧ (s.turnBack i).pass = s.pass ∧
        ∀ y, ¬Calls p (s, i) y := by
  refine ⟨fun n hn => ?_, fun s i hc => ⟨?_, ?_, not_calls_of_isCompiled hc⟩⟩
  · have hwithin : Within l (fun i => ∃ r ∈ rs, p.DrawnFrom l r.ident i)
        (Session.requestAll p { link := l } rs).1 := by
      refine .requestAll ?_ ⟨rfl, fun _ hn => absurd hn List.not_mem_nil⟩ ?_
      · rintro i d ⟨r, hr, hpath⟩ hc hd
        exact ⟨r, hr, hpath.needs hc hd⟩
      · exact fun r hr => ⟨r, hr, .refl⟩
    obtain ⟨i, ⟨r, hr, hpath⟩, hi, hc⟩ := hwithin.resolved n hn
    exact ⟨r, hr, i, hpath, hi, hc⟩
  · exact resolve_of_turnsBack (.inr (.inl (by rw [isClosed, hc, Bool.true_or])))
  · rw [turnBack]
    split_ifs <;> rfl

def mirrored : Plan where
  catalog := {
    items := [(⟨"A"⟩, { entry := some (.aliasOf ⟨"T"⟩) }),
      (⟨"T"⟩, { entry := some (.raw "1"), deps := [⟨"D"⟩] }),
      (⟨"D"⟩, { entry := some (.raw "2") }),
      (⟨"f"⟩, { entry := some (.body "function() {}"), deps := [⟨"T"⟩] }),
      (⟨"__cxa_find_matching_catch"⟩, { entry := some (.body "function() {}") })]
    order := [⟨"A"⟩, ⟨"T"⟩, ⟨"D"⟩, ⟨"f"⟩, ⟨"__cxa_find_matching_catch"⟩] }
  config := {}

def mirroredLink : LinkState where
  compiled := [⟨"_T"⟩]

theorem mirrored_short_of_compiled :
    (∃ i, mirrored.DrawnFrom mirroredLink ⟨"f"⟩ i ∧ i.finalName = ⟨"_f"⟩) ∧
      Session.resolve mirrored { link := mirroredLink } ⟨"T"⟩ =
        (Session.turnBack { link := mirroredLink } ⟨"T"⟩, .ok "") ∧
      (Session.requestAll mirrored { link := mirroredLink }
        [⟨⟨"f"⟩, none, none⟩]).1.pass.resolved = [⟨"_f"⟩] := by
  have h := resolved_short_of_compiled mirrored mirroredLink [⟨⟨"f"⟩, none, none⟩]
  obtain ⟨r, hr, i, hpath, hi, -⟩ := h.1 ⟨"_f"⟩ (by decide +kernel)
  obtain rfl := List.mem_singleton.1 hr
  exact ⟨⟨i, hpath, hi⟩, (h.2 _ _ (by decide +kernel)).1, by decide +kernel⟩

/-- The dependency of the compiled value and the general catch helper are resolved, although the
paths from the requests along what items mention lead to neither. -/
theorem mirrored_beyond_compiled :
    let rs : List Request := [⟨⟨"A"⟩, none, none⟩, ⟨⟨"__cxa_find_matching_catch_2"⟩, none, none⟩]
    (Session.requestAll mirrored { link := mirroredLink } rs).2.isOk ∧
      ⟨"_D"⟩ ∈ (Session.requestAll mirrored { link := mirroredLink } rs).1.pass.resolved ∧
      ⟨"___cxa_find_matching_catch"⟩ ∈
        (Session.requestAll mirrored { link := mirroredLink } rs).1.pass.resolved ∧
      ∀ r ∈ rs, ¬mirroredLink.isCompiled r.ident.finalName ∧
        ∀ i, Relation.ReflTransGen (mirrored.LeadsTo mirroredLink) r.ident i →
          i.finalName ≠ ⟨"_D"⟩ ∧ i.finalName ≠ ⟨"___cxa_find_matching_catch"⟩ := by
  intro rs
  have hstep : ∀ i ∈ [Ident.mk "A", ⟨"__cxa_find_matching_catch_2"⟩, ⟨"T"⟩],
      ¬mirroredLink.isCompiled i.finalName → ∀ d ∈ Plan.mentions (mirrored.item i),
        d ∈ [Ident.mk "A", ⟨"__cxa_find_matching_catch_2"⟩, ⟨"T"⟩] := by
    decide +kernel
  have hend : ∀ i ∈ [Ident.mk "A", ⟨"__cxa_find_matching_catch_2"⟩, ⟨"T"⟩],
      i.finalName ≠ ⟨"_D"⟩ ∧ i.finalName ≠ ⟨"___cxa_find_matching_catch"⟩ := by
    decide +kernel
  refine ⟨by decide +kernel, by decide +kernel, by decide +kernel, fun r hr => ⟨?_, ?_⟩⟩
  · have hrs : ∀ r ∈ rs, ¬mirroredLink.isCompiled r.ident.finalName := by decide +kernel
    exact hrs r hr
  · intro i hpath
    refine hend i ?_
    induction hpath with
    | refl =>
      have hrs : ∀ r ∈ rs, r.ident ∈ [Ident.mk "A", ⟨"__cxa_find_matching_catch_2"⟩, ⟨"T"⟩] := by
        decide +kernel
      exact hrs r hr
    | tail _ hlead ih => exact hstep _ ih hlead.1 _ hlead.2

end Session

end CatalogLinker
