import CatalogLinker.Proofs.Proxy.Table
import CatalogLinker.Proofs.Resolution.Progress

namespace CatalogLinker

namespace Session

variable {p : Plan} {s s' : Session} {under : List Ident} {i : Ident} {t : String} {l : LinkState}
  {new : List Name}

theorem Places.after_call (h : Places p s i s' t) :
    s'.link.proxies = s.link.proxies ∨
      ∃ c, p.Proxies i c ∧ s'.link.proxies = s.link.proxies.after c := by
  have hcases : ∀ {own text x}, p.ownText i = .ok (some own) →
      proxied p i own s.link.proxies = (x, .ok text) →
      x = s.link.proxies ∨ ∃ c, p.Proxies i c ∧ x = s.link.proxies.after c := by
    intro own text x ho hx
    obtain ⟨-, -, rfl⟩ | ⟨c, hc, hcall⟩ := call_of_proxied ho hx
    · exact .inl rfl
    · exact .inr ⟨c, hc, by rw [ProxyTable.after, hcall]⟩
  cases h with
  | nothing _ => exact .inl rfl
  | declared ho hx _ => exact hcases ho hx
  | moved ho hx _ =>
    rw [LinkState.implement_proxies]
    exact hcases ho hx

theorem maintains_calls (x : ProxyTable) : Maintains p fun _ s =>
    ∃ cs, (∀ c ∈ cs, ∃ i, p.Proxies i c) ∧ s.link.proxies = x.callAll cs where
  noted r h := by rwa [noted_proxies]
  delivered n t h := by rwa [delivered_link]
  turnBack i h := by rwa [turnBack_proxies]
  start _ h := h
  announce _ h := by rwa [announce_proxies]
  addPostset i h := by rwa [addPostset_link]
  finish u h hp := by
    obtain ⟨cs, hcs, htable⟩ := h
    rw [conclude_proxies]
    obtain heq | ⟨c, hc, hcall⟩ := hp.after_call
    · exact ⟨cs, hcs, heq.trans htable⟩
    · refine ⟨cs ++ [c], fun d hd => ?_, by rw [hcall, htable, ProxyTable.callAll_concat]⟩
      obtain hd | hd := List.mem_append.1 hd
      · exact hcs d hd
      · exact ⟨_, List.mem_singleton.1 hd ▸ hc⟩
  abandon h := h

section Once

/-- The names that a pass has added to the table are resolved, and what is under way is not among
them. -/
structure AddsOnce (l : LinkState) (new : List Name) (under : List Ident) (s : Session) : Prop where
  names : s.link.proxies.names = l.proxies.names ++ new
  nodup : new.Nodup
  resolved : ∀ n ∈ new, n ∈ s.pass.resolved
  placed : ∀ i ∈ under, i.finalName ∉ new

theorem AddsOnce.frame (h : AddsOnce l new under s) (hp : s'.link.proxies = s.link.proxies)
    (hr : ∀ n, n ∈ s.pass.resolved → n ∈ s'.pass.resolved) : AddsOnce l new under s' where
  names := hp ▸ h.names
  nodup := h.nodup
  resolved n hn := hr n (h.resolved n hn)
  placed := h.placed

theorem AddsOnce.announce (ht : ¬s.TurnsBack i) (h : AddsOnce l new under s) :
    AddsOnce l new (i :: under) ((s.start p i).announce p i) := by
  have hframe : AddsOnce l new under ((s.start p i).announce p i) := by
    refine h.frame (by rw [announce_proxies, start_link]) fun n hn => ?_
    rw [announce_resolved, mem_start_resolved]
    exact .inl hn
  refine { hframe with placed := ?_ }
  rw [List.forall_mem_cons]
  exact ⟨fun hi => ht (.inr (.inr (h.resolved _ hi))), hframe.placed⟩

/-- What is placed has been under way, so its name is new to the table. -/
theorem AddsOnce.finish (hu : UnderWay p (i :: under) s) (h : AddsOnce l new (i :: under) s)
    (hp : Places p s i s' t) (u : String) : ∃ new', AddsOnce l new' under (s'.conclude p i u) := by
  have hresolved : ∀ n, n ∈ s.pass.resolved → n ∈ (s'.conclude p i u).pass.resolved := by
    intro n hn
    rwa [conclude_resolved, hp.resolved_eq]
  have hunder : ∀ j ∈ under, j.finalName ∉ new := fun j hj => h.placed j (List.mem_cons_of_mem i hj)
  obtain heq | ⟨c, hc, hcall⟩ := hp.after_call
  · have hsame : (s'.conclude p i u).link.proxies = s.link.proxies := heq
    exact ⟨new, { (h.frame hsame hresolved) with placed := hunder }⟩
  · by_cases hsucceeds : c.succeeds
    · have hnames : (s'.conclude p i u).link.proxies.names =
          l.proxies.names ++ (new ++ [i.finalName]) := by
        rw [conclude_proxies, hcall, ProxyTable.names_after, h.names, ← hc.1]
        simp [hsucceeds]
      have hnew : i.finalName ∉ new := h.placed i List.mem_cons_self
      refine ⟨new ++ [i.finalName], hnames, ?_, fun n hn => ?_, fun j hj => ?_⟩
      · exact List.nodup_append_comm.2 (List.nodup_cons.2 ⟨hnew, h.nodup⟩)
      · obtain hn | hn := List.mem_append.1 hn
        · exact hresolved n (h.resolved n hn)
        · rw [List.mem_singleton.1 hn]
          exact hresolved _ (hu.resolved i List.mem_cons_self)
      · have hne : j.finalName ≠ i.finalName := fun hji =>
          (List.nodup_cons.1 hu.distinct).1 (hji ▸ List.mem_map_of_mem hj)
        rw [List.mem_append, List.mem_singleton, not_or]
        exact ⟨hunder j hj, hne⟩
    · have hsame : (s'.conclude p i u).link.proxies = s.link.proxies := by
        rw [conclude_proxies, hcall, ProxyTable.after_of_not_succeeds hsucceeds]
      exact ⟨new, { (h.frame hsame hresolved) with placed := hunder }⟩

theorem maintains_addsOnce (l : LinkState) :
    Maintains p fun under s => UnderWay p under s ∧ ∃ new, AddsOnce l new under s where
  noted r h := ⟨.nil _, h.2.imp fun _ hn => hn.frame noted_proxies fun _ h => h⟩
  delivered n t h := ⟨.nil _, h.2.imp fun _ hn => hn.frame (by rw [delivered_link]) fun _ h => by
    rwa [delivered_resolved]⟩
  turnBack i h := ⟨h.1.turnBack i, h.2.imp fun _ hn => hn.frame (turnBack_proxies _ i) fun _ h =>
    (mem_turnBack_resolved _ i).2 (.inl h)⟩
  start _ h := ⟨h.1.start _, h.2.imp fun _ hn => hn.frame rfl fun _ h =>
    (mem_start_resolved _ _ _).2 (.inl h)⟩
  announce ht h := ⟨h.1.announce ht, h.2.imp fun _ hn => hn.announce ht⟩
  addPostset i h := ⟨h.1.addPostset i, h.2.imp fun _ hn => hn.frame (by rw [addPostset_link])
    fun _ h => by rwa [addPostset_resolved]⟩
  finish u h hp := ⟨h.1.finish hp u, h.2.elim fun _ hn => hn.finish h.1 hp u⟩
  abandon h := ⟨h.1.tail, h.2.imp fun _ hn =>
    { hn with placed := fun j hj => hn.placed j (List.mem_cons_of_mem _ hj) }⟩

end Once

end Session

open Session

/-- Every sequence of calls on an empty table gives each call that succeeds the next index, in its
text as well as in the table and its declaration. The table of a link changes by such calls only,
whatever steps its passes take; and a pass gives no name two indexes. -/
theorem proxies_indexed (p : Plan) :
    (∀ cs, ProxyTable.Indexed cs) ∧
    (∀ x y, Progress.Reaches p x y → ∃ cs, (∀ c ∈ cs, ∃ i, p.Proxies i c) ∧
      y.session.link.proxies = x.session.link.proxies.callAll cs) ∧
    ∀ (l : LinkState) steps, ∃ new,
      (Session.performAll p { link := l } steps).link.proxies.names = l.proxies.names ++ new ∧
        new.Nodup := by
  refine ⟨ProxyTable.indexed, fun x y h => ?_, fun l steps => ?_⟩
  · exact h.maintained (J := fun _ _ s => ∃ cs, (∀ c ∈ cs, ∃ i, p.Proxies i c) ∧
      s.link.proxies = x.session.link.proxies.callAll cs) (fun _ => maintains_calls _)
      (fun _ _ hs => hs) ⟨[], by simp, rfl⟩
  · have hempty : AddsOnce l [] [] { link := l } := by
      constructor <;> simp
    obtain ⟨-, new, hnew⟩ := (maintains_addsOnce (p := p) l).performAll
      (s := { link := l }) ⟨.nil _, [], hempty⟩ steps
    exact ⟨new, hnew.names, hnew.nodup⟩

end CatalogLinker
