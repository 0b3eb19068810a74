import CatalogLinker.Proofs.Link.Assembly
import CatalogLinker.Proofs.Resolution.Progress

namespace CatalogLinker

open Relation (ReflTransGen)

open LinkState

theorem Plan.isLibraryFn_of_isFunction {p : Plan} {i : Ident} (h : p.isFunction i) :
    p.isLibraryFn i := by
  rw [isFunction] at h
  rw [isLibraryFn]
  split at h <;> simp_all

theorem ProxyTable.rewrite_ok {t t' : ProxyTable} {n : Name} {body text : String}
    {mode : ProxyMode} (h : t.rewrite n body mode = (t', .ok text)) : t' = t.push n := by
  rw [rewrite] at h
  split at h
  · simp at h
  · exact (Prod.mk.inj h).1.symm

namespace Session

variable {p : Plan} {s s' : Session} {under : List Ident} {i : Ident} {t : String} {l : LinkState}

theorem proxied_ok {own text : String} {x y : ProxyTable} (h : proxied p i own x = (y, .ok text)) :
    y = x ∨ p.isFunction i ∧ y = x.push i.finalName := by
  rw [proxied] at h
  split at h
  · exact .inl (Prod.mk.inj h).1.symm
  · rename_i mode hm
    have hf : p.isFunction i := by
      rw [Plan.proxyMode?] at hm
      split at hm
      · rename_i hc
        simp only [Bool.and_eq_true] at hc
        exact hc.1.1
      · simp at hm
    split at h
    · simp at h
    · exact .inr ⟨hf, ProxyTable.rewrite_ok h⟩

theorem gathers_noted (s : Session) (r : Request) :
    ReflTransGen Gathers s.link (s.noted r).link := by
  rw [noted]
  dsimp only
  split
  · exact .single (.signature s.link _ _)
  · exact .refl

theorem gathers_turnBack (s : Session) (i : Ident) :
    ReflTransGen Gathers s.link (s.turnBack i).link := by
  rw [turnBack]
  split_ifs
  · exact .refl
  · exact .single (.exports s.link [i.finalName])
  · exact .refl

theorem gathers_announce (s : Session) (i : Ident) :
    ReflTransGen Gathers s.link (s.announce p i).link := by
  rw [announce]
  dsimp only
  split
  · exact .tail (.single (.libraryFn s.link i.finalName)) (.exports _ _)
  · exact .single (.exports s.link _)

/-- What is under way is free to be proxied and to go to the compiled section. -/
theorem Places.gathers (hp : Places p s i s' t) (h : UnderWay p (i :: under) s) :
    ReflTransGen Gathers s.link s'.link := by
  have hfree := h.free i List.mem_cons_self
  rw [isClosed, Bool.or_eq_true, not_or] at hfree
  have hproxied : ∀ {own text x}, proxied p i own s.link.proxies = (x, .ok text) →
      ReflTransGen Gathers s.link { s.link with proxies := x } := by
    intro own text x hx
    obtain rfl | ⟨hf, rfl⟩ := proxied_ok hx
    · exact .refl
    · have hl := h.announced i List.mem_cons_self (Plan.isLibraryFn_of_isFunction hf)
      exact .single (.proxy hl hfree.1)
  cases hp with
  | nothing _ => exact .refl
  | declared _ hx _ => exact hproxied hx
  | @moved own text sig x _ hx _ =>
    exact .tail (hproxied hx) (.implement sig hfree.1 hfree.2)

theorem maintains_gathers (l : LinkState) :
    Maintains p fun under s => UnderWay p under s ∧ ReflTransGen Gathers l s.link := by
  refine UnderWay.maintains (fun r h => ?_) (fun n t h => ?_) (fun i h => ?_) (fun i h => ?_)
    (fun i h => ?_) (fun i h => ?_) fun u hu h hp => ?_
  · exact h.trans (gathers_noted _ r)
  · rwa [delivered_link]
  · exact h.trans (gathers_turnBack _ i)
  · rwa [start_link]
  · exact h.trans (gathers_announce _ i)
  · rwa [addPostset_link]
  · exact .tail (h.trans (hp.gathers hu)) (.exports _ _)

end Session

namespace Progress

variable {p : Plan} {x y : Progress}

theorem Reaches.gathers (h : Reaches p x y) :
    ReflTransGen Gathers x.session.link y.session.link :=
  h.preserved (K := fun _ s => ReflTransGen Gathers x.session.link s.link)
    (fun _ => Session.maintains_gathers _) (fun _ _ hs => hs) .refl

theorem Reaches.requestAll (past : List Pass) (s : Session) (rs : List Request) :
    Reaches p ⟨past, s⟩ ⟨past, (s.requestAll p rs).1⟩ := by
  induction rs generalizing s with
  | nil => exact .refl
  | cons r rs ih =>
    have hr : Advances p ⟨past, s⟩ ⟨past, (s.request p r).1⟩ := .step _ (.request r)
    rw [Session.requestAll]
    cases h : s.request p r with
    | mk s₁ res =>
      rw [h] at hr
      cases res with
      | error e => exact .single hr
      | ok _ => exact .head hr (ih s₁)

theorem Reaches.sound {l : LinkState} (h : Reaches p { session := { link := l } } x) (hl : l.Sound) :
    x.session.link.Sound :=
  hl.of_gathers h.gathers

/-- Whatever steps the passes of a link take, and whether they fail or not, the state of the link is
sound and grows. -/
theorem link_sound_and_grows {compiled exports : List Name}
    (h : Reaches p { session := { link := .ofLists compiled exports } } x) :
    (∀ n, x.session.link.isCompiled n ↔ n ∈ compiled) ∧ x.session.link.Sound ∧
      ∀ y, Reaches p x y → x.session.link.Grows y.session.link := by
  refine ⟨fun n => ?_, h.sound (.ofLists compiled exports),
    fun y hy => grows_of_gathers hy.gathers⟩
  rw [isCompiled, (grows_of_gathers h.gathers).compiled, List.contains_iff_mem]
  exact List.mem_eraseDups

/-- A function of the compiled section, a proxied function that calls it, and one that calls the
proxied function but cannot be proxied itself. -/
def threaded : Plan where
  catalog := {
    items := [
      (⟨"add"⟩, {
        entry := some (.body "function(x) \x7b return x; \x7d")
        sig := some "ii"
        inCompiledSection := true }),
      (⟨"wait"⟩, {
        entry := some (.body "function() \x7b\x7d")
        deps := [⟨"add"⟩]
        proxy := some "sync" }),
      (⟨"hang"⟩, {
        entry := some (.body "function() \x7b\x7d")
        deps := [⟨"wait"⟩]
        proxy := some "never" })]
    order := [⟨"add"⟩, ⟨"wait"⟩, ⟨"hang"⟩] }
  config := { threadProxying := true }

def failedPass : Progress where
  session := (Session.perform threaded { link := .ofLists [⟨"_main"⟩] [⟨"_hang"⟩] }
    (.request ⟨⟨"hang"⟩, some .void, some []⟩)).1

/-- A second pass serves the proxied function again. -/
theorem failedPass_sound_and_grows :
    Reaches threaded { session := { link := .ofLists [⟨"_main"⟩] [⟨"_hang"⟩] } } failedPass ∧
      failedPass.session.link.Sound ∧ failedPass.session.link.implemented = [(⟨"_add"⟩, "ii")] ∧
      failedPass.session.link.proxies.names = [⟨"_wait"⟩] ∧
      ∃ y, Reaches threaded failedPass y ∧ failedPass.session.link.Grows y.session.link ∧
        y.session.link.requestSigs = [(⟨"_hang"⟩, "v")] ∧
        y.session.link.exports.names = [⟨"_hang"⟩, ⟨"_add"⟩] ∧
        y.session.link.implemented = [(⟨"_add"⟩, "ii")] ∧
        y.session.link.proxies.names = [⟨"_wait"⟩, ⟨"_wait"⟩] ∧
        y.session.link.libraryFns =
          [(⟨"_hang"⟩, .declared), (⟨"_wait"⟩, .declared), (⟨"_add"⟩, .compiled)] := by
  have hfirst : Reaches threaded { session := { link := .ofLists [⟨"_main"⟩] [⟨"_hang"⟩] } }
      failedPass := .single (.step _ (.request ⟨⟨"hang"⟩, some .void, some []⟩))
  have hsecond : Reaches threaded failedPass _ :=
    .tail (.single (.nextPass failedPass)) (.step _ (.request ⟨⟨"wait"⟩, none, none⟩))
  obtain ⟨-, hsound, hgrows⟩ := link_sound_and_grows hfirst
  refine ⟨hfirst, hsound, by decide +kernel, by decide +kernel, _, hsecond, hgrows _ hsecond, ?_⟩
  decide +kernel

end Progress

end CatalogLinker
