import CatalogLinker.Proofs.Proxy.Header
import CatalogLinker.Resolution.Session

namespace CatalogLinker

structure ProxyCall where
  name : Name
  body : String
  mode : ProxyMode

namespace ProxyCall

def succeeds (c : ProxyCall) : Bool :=
  (FunctionHeader.find? c.body.toList).isSome

theorem succeeds_iff {c : ProxyCall} : c.succeeds ↔ ∃ h : FunctionHeader, h.Cuts c.body.toList := by
  simp only [succeeds, Option.isSome_iff_exists, FunctionHeader.find?_eq_some_iff]

end ProxyCall

namespace ProxyTable

def after (t : ProxyTable) (c : ProxyCall) : ProxyTable :=
  (t.rewrite c.name c.body c.mode).1

def callAll (t : ProxyTable) (cs : List ProxyCall) : ProxyTable :=
  cs.foldl after t

def arguments (index : Nat) (mode : ProxyMode) (params : List Char) : List (List Char) :=
  [(Nat.repr index).toList, (Nat.repr mode.flag).toList] ++ if params = [] then [] else [params]

def Dispatches (index : Nat) (mode : ProxyMode) (h : FunctionHeader) (text : String) : Prop :=
  text.toList = h.before ++ "function ".toList ++ h.name ++ '(' :: h.params ++ ") \x7b\n".toList ++
    ("if (ENVIRONMENT_IS_PTHREAD) return _emscripten_proxy_to_main_thread_js(".toList ++
      ", ".toList.intercalate (arguments index mode h.params) ++ ");".toList) ++ h.after

def entries (cs : List ProxyCall) : List String :=
  "null" :: (cs.filter ProxyCall.succeeds).map fun c => c.name.text

/-- What calls on an empty table return and leave behind. A call that succeeds gets the next
number. -/
structure Indexed (cs : List ProxyCall) : Prop where
  failed : ∀ before c rest, cs = before ++ c :: rest →
    (∀ h : FunctionHeader, ¬h.Cuts c.body.toList) →
    (callAll {} before).proxy c.name c.body c.mode =
        .error (.malformedBody c.name.text .proxyEntry) ∧
      callAll {} (before ++ [c]) = callAll {} before
  succeeded : ∀ before c rest (h : FunctionHeader), cs = before ++ c :: rest →
    h.Cuts c.body.toList →
    ∃ text, (callAll {} before).proxy c.name c.body c.mode =
        .ok (text, callAll {} (before ++ [c])) ∧
      Dispatches (before.countP ProxyCall.succeeds + 1) c.mode h text ∧
      (callAll {} cs).name? (before.countP ProxyCall.succeeds + 1) = some c.name
  reserved : (callAll {} cs).name? 0 = none
  names : ∀ k, (callAll {} cs).name? (k + 1) =
    (cs.filter ProxyCall.succeeds)[k]?.map ProxyCall.name
  declared : (callAll {} cs).declaration =
    "var proxiedFunctionTable = [" ++ String.intercalate "," (entries cs) ++ "];"
  readable : (∀ c ∈ cs, ',' ∉ c.name.text.toList) →
    (String.intercalate "," (entries cs)).toList.splitOn ',' = (entries cs).map String.toList

variable {t : ProxyTable} {c : ProxyCall} {cs before rest : List ProxyCall} {h : FunctionHeader}

theorem intercalate_arguments (index : Nat) (mode : ProxyMode) (params sep : List Char) :
    sep.intercalate (arguments index mode params) =
      (Nat.repr index).toList ++ sep ++ (Nat.repr mode.flag).toList ++
        if params.isEmpty then [] else sep ++ params := by
  by_cases hp : params = []
  · simp only [arguments, hp, ↓reduceIte, List.append_nil, List.intercalate_cons_cons,
      List.intercalate_singleton, List.isEmpty_nil]
  · have hne : params.isEmpty = false := by simpa using hp
    simp only [arguments, hp, hne, ↓reduceIte, Bool.false_eq_true, List.cons_append, List.nil_append,
      List.intercalate_cons_cons, List.intercalate_singleton, List.append_assoc]

theorem dispatches_inject (index : Nat) (mode : ProxyMode) (h : FunctionHeader) :
    Dispatches index mode h (String.ofList (inject index mode h)) := by
  unfold Dispatches inject dispatch
  rw [intercalate_arguments, String.toList_ofList]
  simp only [List.append_assoc, List.cons_append]

theorem rewrite_of_cuts (hc : h.Cuts c.body.toList) :
    t.rewrite c.name c.body c.mode =
      (t.push c.name, .ok (String.ofList (inject t.nextIndex c.mode h))) := by
  rw [rewrite, FunctionHeader.find?_eq_some_iff.2 hc]

theorem rewrite_of_not_cuts (hc : ∀ h : FunctionHeader, ¬h.Cuts c.body.toList) :
    t.rewrite c.name c.body c.mode = (t, .error (.malformedBody c.name.text .proxyEntry)) := by
  have hnone : FunctionHeader.find? c.body.toList = none := by
    rw [Option.eq_none_iff_forall_ne_some]
    exact fun h hh => hc h (FunctionHeader.find?_eq_some_iff.1 hh)
  rw [rewrite, hnone]

theorem rewrite_error {n : Name} {body : String} {mode : ProxyMode} {t' : ProxyTable} {e : LinkError}
    (hr : t.rewrite n body mode = (t', .error e)) : t' = t := by
  rw [rewrite] at hr
  split at hr
  · exact (Prod.mk.inj hr).1.symm
  · simp at hr

theorem proxy_eq_ok_iff_rewrite {n : Name} {body text : String} {mode : ProxyMode}
    {t' : ProxyTable} :
    t.proxy n body mode = .ok (text, t') ↔ t.rewrite n body mode = (t', .ok text) := by
  rw [proxy]
  obtain ⟨t₁, e | s⟩ := t.rewrite n body mode
  · simp [Except.map]
  · simp [Except.map, and_comm]

theorem proxy_of_cuts (hc : h.Cuts c.body.toList) :
    t.proxy c.name c.body c.mode =
      .ok (String.ofList (inject t.nextIndex c.mode h), t.push c.name) :=
  proxy_eq_ok_iff_rewrite.2 (rewrite_of_cuts hc)

theorem proxy_of_not_cuts (hc : ∀ h : FunctionHeader, ¬h.Cuts c.body.toList) :
    t.proxy c.name c.body c.mode = .error (.malformedBody c.name.text .proxyEntry) := by
  rw [proxy, rewrite_of_not_cuts hc]
  rfl

theorem exists_cuts_of_proxy {n : Name} {body text : String} {mode : ProxyMode} {t' : ProxyTable}
    (hp : t.proxy n body mode = .ok (text, t')) :
    ∃ h : FunctionHeader, h.Cuts body.toList ∧ text = String.ofList (inject t.nextIndex mode h) := by
  rw [proxy_eq_ok_iff_rewrite, rewrite] at hp
  split at hp
  · simp at hp
  · rename_i h hh
    exact ⟨h, FunctionHeader.find?_eq_some_iff.1 hh, (Except.ok.inj (Prod.mk.inj hp).2).symm⟩

theorem after_of_not_succeeds (hc : ¬c.succeeds) : t.after c = t := by
  have hno : ∀ h : FunctionHeader, ¬h.Cuts c.body.toList := fun h hh =>
    hc (ProxyCall.succeeds_iff.2 ⟨h, hh⟩)
  rw [after, rewrite_of_not_cuts hno]

theorem names_after (t : ProxyTable) (c : ProxyCall) :
    (t.after c).names = t.names ++ ([c].filter ProxyCall.succeeds).map ProxyCall.name := by
  by_cases hc : c.succeeds
  · obtain ⟨h, hh⟩ := ProxyCall.succeeds_iff.1 hc
    simp [after, rewrite_of_cuts hh, push, hc]
  · simp [after_of_not_succeeds hc, hc]

theorem names_callAll (t : ProxyTable) (cs : List ProxyCall) :
    (t.callAll cs).names = t.names ++ (cs.filter ProxyCall.succeeds).map ProxyCall.name := by
  induction cs generalizing t with
  | nil => simp [callAll]
  | cons c cs ih =>
    have hstep : t.callAll (c :: cs) = (t.after c).callAll cs := rfl
    rw [hstep, ih, names_after, List.append_assoc, ← List.map_append, ← List.filter_append]
    rfl

theorem names_inj {u : ProxyTable} : t.names = u.names ↔ t = u := by
  cases t
  cases u
  simp

theorem callAll_concat (t : ProxyTable) (cs : List ProxyCall) (c : ProxyCall) :
    t.callAll (cs ++ [c]) = (t.callAll cs).after c := by
  simp [callAll]

theorem splitOn_intercalate {ts : List String} (hne : ts ≠ []) (h : ∀ t ∈ ts, ',' ∉ t.toList) :
    (String.intercalate "," ts).toList.splitOn ',' = ts.map String.toList := by
  have hsep : ",".toList = [','] := rfl
  rw [String.toList_intercalate, hsep]
  refine List.splitOn_intercalate ',' (fun s hs => ?_) (by simpa using hne)
  obtain ⟨t, ht, rfl⟩ := List.mem_map.1 hs
  exact h t ht

/-- Every sequence of calls keeps the indexes of texts and table in step. -/
theorem indexed (cs : List ProxyCall) : Indexed cs := by
  have hnames : (callAll {} cs).names = (cs.filter ProxyCall.succeeds).map ProxyCall.name :=
    names_callAll {} cs
  exact {
    failed := by
      intro before c rest _ hc
      have hfail := proxy_of_not_cuts (t := callAll {} before) hc
      refine ⟨hfail, ?_⟩
      rw [callAll_concat, after, rewrite_of_not_cuts hc]
    succeeded := by
      intro before c rest h hcs hc
      have hok := proxy_of_cuts (t := callAll {} before) hc
      have hindex : (callAll {} before).nextIndex = before.countP ProxyCall.succeeds + 1 := by
        rw [nextIndex, names_callAll, List.countP_eq_length_filter]
        simp
      have hsucceeds : c.succeeds := ProxyCall.succeeds_iff.2 ⟨h, hc⟩
      rw [hindex] at hok
      refine ⟨_, by rw [callAll_concat, after, rewrite_of_cuts hc, hok], dispatches_inject _ _ _, ?_⟩
      rw [name?, hnames, hcs, List.filter_append, List.filter_cons_of_pos hsucceeds,
        List.countP_eq_length_filter]
      simp
    reserved := rfl
    names := by
      intro k
      rw [name?, hnames, List.getElem?_map]
    declared := by
      have hentries : "null" :: (callAll {} cs).names.map Name.text = entries cs := by
        rw [hnames, List.map_map]
        rfl
      unfold declaration
      rw [hentries]
    readable := by
      intro hcomma
      refine splitOn_intercalate (by simp [entries]) fun s hs => ?_
      obtain rfl | hs := List.mem_cons.1 hs
      · decide
      · obtain ⟨c, hc, rfl⟩ := List.mem_map.1 hs
        exact hcomma c (List.mem_filter.1 hc).1 }

/-- A call that fails leaves no gap. -/
example :
    (callAll {} [⟨⟨"_f"⟩, "function _f(g(a), b) \x7b\x7d", .sync⟩, ⟨⟨"_g"⟩, "var _g = 1;", .sync⟩,
      ⟨⟨"_h"⟩, "function _h( ) \x7b\x7d", .async⟩]).declaration =
      "var proxiedFunctionTable = [null,_f,_h];" := by
  decide +kernel

end ProxyTable

def Plan.Proxies (p : Plan) (i : Ident) (c : ProxyCall) : Prop :=
  c.name = i.finalName ∧ p.ownText i = .ok (some c.body) ∧
    ∃ mode, p.proxyMode? i = some mode ∧ ProxyMode.ofText i mode = .ok c.mode

namespace Session

variable {p : Plan} {i : Ident} {own text : String} {x y : ProxyTable} {e : LinkError}

theorem call_of_proxied (ho : p.ownText i = .ok (some own))
    (h : proxied p i own x = (y, .ok text)) :
    p.proxyMode? i = none ∧ text = own ∧ y = x ∨
      ∃ c, p.Proxies i c ∧ x.rewrite c.name c.body c.mode = (y, .ok text) := by
  cases hmode : p.proxyMode? i with
  | none =>
    obtain ⟨rfl, rfl⟩ : x = y ∧ own = text := by simpa [proxied, hmode] using h
    exact .inl ⟨rfl, rfl, rfl⟩
  | some mode =>
    cases hm : ProxyMode.ofText i mode with
    | error e => simp [proxied, hmode, hm] at h
    | ok m =>
      simp only [proxied, hmode, hm] at h
      exact .inr ⟨⟨i.finalName, own, m⟩, ⟨rfl, ho, mode, hmode, hm⟩, h⟩

theorem proxied_error (h : proxied p i own x = (y, .error e)) : y = x := by
  rw [proxied] at h
  split at h
  · simp at h
  · split at h
    · exact (Prod.mk.inj h).1.symm
    · exact ProxyTable.rewrite_error h

theorem call_of_proxied_error (ho : p.ownText i = .ok (some own))
    (h : (proxied p i own x).2 = .error e) :
    (∃ mode, p.proxyMode? i = some mode ∧ ProxyMode.ofText i mode = .error e) ∨
      ∃ c, p.Proxies i c ∧ ¬c.succeeds := by
  cases hmode : p.proxyMode? i with
  | none => simp [proxied, hmode] at h
  | some mode =>
    cases hm : ProxyMode.ofText i mode with
    | error e' =>
      obtain rfl : e' = e := by simpa [proxied, hmode, hm] using h
      exact .inl ⟨mode, rfl, hm⟩
    | ok m =>
      refine .inr ⟨⟨i.finalName, own, m⟩, ⟨rfl, ho, mode, hmode, hm⟩, fun hc => ?_⟩
      obtain ⟨header, hheader⟩ := ProxyCall.succeeds_iff.1 hc
      simp only [proxied, hmode, hm] at h
      have hok := congrArg Prod.snd (ProxyTable.rewrite_of_cuts (t := x) hheader)
      exact absurd (h.symm.trans hok) (by simp)

end Session

end CatalogLinker
