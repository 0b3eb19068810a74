import CatalogLinker.Graph.Directed
import CatalogLinker.Proofs.Graph.DepthFirst
import Mathlib.Data.List.Nodup

namespace CatalogLinker.Graph

open Visit
open Relation (ReflTransGen)

def Directed.Strong (g : Directed) (v w : Nat) : Prop :=
  g.network.Reaches v w ∧ g.network.Reaches w v

theorem Directed.Strong.refl (g : Directed) (v : Nat) : g.Strong v v :=
  ⟨.refl, .refl⟩

theorem Directed.Strong.symm {g : Directed} {v w : Nat} (h : g.Strong v w) : g.Strong w v :=
  ⟨h.2, h.1⟩

theorem Directed.Strong.trans {g : Directed} {u v w : Nat} (h : g.Strong u v) (h' : g.Strong v w) :
    g.Strong u w :=
  ⟨h.1.trans h'.1, h'.2.trans h.2⟩

variable {g : Directed} {s s' s'' : Tarjan} {as seen : List Nat} {us vs : List (Visit Nat)}
  {new rest : List (Nat × Nat)} {f : Nat × Nat} {a least low low' low'' n v w : Nat}

namespace Tarjan

def nodes (s : Tarjan) : List Nat :=
  s.stack.map Prod.fst

def done (s : Tarjan) : List Nat :=
  s.components.flatten

/-- The invariant: visited nodes are on the stack or in a complete component, complete components
lead to complete ones only, and none leads to one that was completed later. -/
structure Sound (g : Directed) (s : Tarjan) : Prop where
  nodup : (s.nodes ++ s.done).Nodup
  mem_visited : ∀ v, v ∈ s.visited ↔ v ∈ s.nodes ∨ v ∈ s.done
  numbered : ∀ e ∈ s.stack, e.2 < s.visited.length
  descending : s.stack.Pairwise fun e f => f.2 < e.2
  closed : ∀ v ∈ s.done, ∀ w, g.network.Leads v w → w ∈ s.done
  strong : ∀ c ∈ s.components, ∃ v, ∀ w, w ∈ c ↔ g.Strong v w
  order : s.components.Pairwise fun c d => ∀ v ∈ c, ∀ w ∈ d, ¬g.network.Reaches v w

/-- What following visits from roots `as` does to the stack and to the least number. The nodes that
stay on the stack reach one that was on it before, whose number the least number does not exceed. -/
structure Follows (g : Directed) (as : List Nat) (vs : List (Visit Nat)) (low : Nat) (s : Tarjan)
    (low' : Nat) (s' : Tarjan) : Prop where
  sound : s'.Sound g
  stack : ∃ new, s'.stack = new ++ s.stack ∧ (∀ e ∈ new, e.1 ∈ expandedNodesAll vs) ∧
    ∀ e ∈ new, ∃ f ∈ s.stack, low' ≤ f.2 ∧ g.network.Reaches e.1 f.1
  met : ∀ f ∈ s.stack, (f.1 ∈ as ∨ ∃ v ∈ expandedNodesAll vs, g.network.Leads v f.1) → low' ≤ f.2
  least : low' = low ∨
    low' < low ∧ ∃ f ∈ s.stack, f.2 = low' ∧ ∃ a ∈ as, g.network.Reaches a f.1
  visited : s'.visited = (expandedNodesAll vs).reverse ++ s.visited

section Sound

theorem Sound.initial (g : Directed) : Sound g {} where
  nodup := List.nodup_nil
  mem_visited v := by simp [nodes, done]
  numbered e he := absurd he List.not_mem_nil
  descending := List.Pairwise.nil
  closed v hv := absurd hv List.not_mem_nil
  strong c hc := absurd hc List.not_mem_nil
  order := List.Pairwise.nil

theorem Sound.not_mem_done (h : s.Sound g) (hv : v ∈ s.nodes) : v ∉ s.done :=
  fun hd => (List.nodup_append.1 h.nodup).2.2 v hv v hd rfl

theorem Sound.mem_done_of_reaches (h : s.Sound g) (hv : v ∈ s.done) (hvw : g.network.Reaches v w) :
    w ∈ s.done :=
  Network.Reaches.of_closed h.closed hvw hv

theorem Sound.enter (h : s.Sound g) (hv : v ∉ s.visited) : (s.enter v).Sound g where
  nodup := by
    rw [h.mem_visited, ← List.mem_append] at hv
    exact List.nodup_cons.2 ⟨hv, h.nodup⟩
  mem_visited w := by
    simp only [Tarjan.enter, nodes, List.map_cons, List.mem_cons, or_assoc]
    exact or_congr_right (h.mem_visited w)
  numbered e he := by
    obtain rfl | he := List.mem_cons.1 he
    · exact Nat.lt_succ_self _
    · exact Nat.lt_succ_of_lt (h.numbered e he)
  descending := List.pairwise_cons.2 ⟨fun f hf => h.numbered f hf, h.descending⟩
  closed := h.closed
  strong := h.strong
  order := h.order

theorem Sound.ne_of_above (h : s.Sound g) (hstack : s.stack = new ++ f :: rest) :
    ∀ e ∈ new, e.1 ≠ f.1 := by
  intro e he
  have hnodup := (List.nodup_append.1 h.nodup).1
  rw [nodes, hstack, List.map_append] at hnodup
  exact (List.nodup_append.1 hnodup).2.2 e.1 (List.mem_map_of_mem he) f.1 List.mem_cons_self

theorem Sound.lowered_of_mem (h : s.Sound g) (hf : f ∈ s.stack) :
    s.lowered low f.1 = min low f.2 := by
  have hlookup : s.stack.lookup f.1 = some f.2 := by
    obtain ⟨above, below, hstack⟩ := List.mem_iff_append.1 hf
    refine List.lookup_eq_some_iff.2 ⟨above, below, hstack, fun e he => bne_iff_ne.2 ?_⟩
    exact Ne.symm (h.ne_of_above hstack e he)
  rw [lowered, hlookup]

theorem lowered_of_not_mem (hv : v ∉ s.nodes) : s.lowered low v = low := by
  have hlookup : s.stack.lookup v = none :=
    List.lookup_eq_none_iff.2 fun e he => bne_iff_ne.2 fun heq => hv (heq ▸ List.mem_map_of_mem he)
  rw [lowered, hlookup]

end Sound

namespace Follows

theorem low_le (h : Follows g as vs low s low' s') : low' ≤ low := by
  obtain heq | ⟨hlt, -⟩ := h.least
  · exact Nat.le_of_eq heq
  · exact Nat.le_of_lt hlt

theorem length_visited_le (h : Follows g as vs low s low' s') :
    s.visited.length ≤ s'.visited.length := by
  rw [h.visited, List.length_append]
  exact Nat.le_add_left _ _

theorem nil (h : s.Sound g) (low : Nat) : Follows g [] [] low s low s where
  sound := h
  stack := ⟨[], rfl, by simp, by simp⟩
  met f _ hf := by simp at hf
  least := .inl rfl
  visited := rfl

theorem cons {x : Visit Nat} (h : Follows g [a] [x] low s low' s')
    (h' : Follows g as vs low' s' low'' s'') : Follows g (a :: as) (x :: vs) low s low'' s'' := by
  obtain ⟨new, hstack, hnew, hreach⟩ := h.stack
  obtain ⟨new', hstack', hnew', hreach'⟩ := h'.stack
  have hexpanded : expandedNodesAll (x :: vs) = expandedNodesAll [x] ++ expandedNodesAll vs := by
    simp
  have hle : low'' ≤ low' := h'.low_le
  refine ⟨h'.sound, ⟨new' ++ new, by rw [hstack', hstack, List.append_assoc], ?_, ?_⟩, ?_, ?_, ?_⟩
  · intro e he
    rw [hexpanded, List.mem_append]
    exact (List.mem_append.1 he).symm.imp (hnew e) (hnew' e)
  · intro e he
    obtain he | he := List.mem_append.1 he
    · obtain ⟨f, hf, hlow, hef⟩ := hreach' e he
      rw [hstack, List.mem_append] at hf
      obtain hf | hf := hf
      · obtain ⟨f', hf', hlow', hff'⟩ := hreach f hf
        exact ⟨f', hf', Nat.le_trans hle hlow', hef.trans hff'⟩
      · exact ⟨f, hf, hlow, hef⟩
    · obtain ⟨f, hf, hlow, hef⟩ := hreach e he
      exact ⟨f, hf, Nat.le_trans hle hlow, hef⟩
  · intro f hf hmet
    have hf' : f ∈ s'.stack := hstack ▸ List.mem_append_right new hf
    rw [hexpanded] at hmet
    simp only [List.mem_cons, List.mem_append, or_and_right, exists_or] at hmet
    obtain (ha | has) | hx | hvs := hmet
    · exact Nat.le_trans hle (h.met f hf (.inl (by simp [ha])))
    · exact h'.met f hf' (.inl has)
    · exact Nat.le_trans hle (h.met f hf (.inr hx))
    · exact h'.met f hf' (.inr hvs)
  · obtain rfl | ⟨hlt, f, hf, hlow, b, hb, hbf⟩ := h'.least
    · obtain heq | ⟨hlt, f, hf, hlow, b, hb, hbf⟩ := h.least
      · exact .inl heq
      · exact .inr ⟨hlt, f, hf, hlow, b, by simp_all, hbf⟩
    · rw [hstack, List.mem_append] at hf
      obtain hf | hf := hf
      · -- What the first visit left on the stack has a greater number than it met.
        obtain ⟨f', hf', hlow', -⟩ := hreach f hf
        have hdescending := h.sound.descending
        rw [hstack] at hdescending
        have := (List.pairwise_append.1 hdescending).2.2 f hf f' hf'
        omega
      · exact .inr ⟨Nat.lt_of_lt_of_le hlt h.low_le, f, hf, hlow, b, List.mem_cons_of_mem a hb, hbf⟩
  · rw [h'.visited, h.visited, hexpanded, List.reverse_append, List.append_assoc]

theorem least_min (low : Nat) (hf : f ∈ s.stack) (haf : g.network.Reaches a f.1) :
    min low f.2 = low ∨ min low f.2 < low ∧
      ∃ e ∈ s.stack, e.2 = min low f.2 ∧ ∃ b ∈ [a], g.network.Reaches b e.1 := by
  by_cases hlt : f.2 < low
  · rw [Nat.min_eq_right (Nat.le_of_lt hlt)]
    exact .inr ⟨hlt, f, hf, rfl, a, List.mem_singleton.2 rfl, haf⟩
  · exact .inl (Nat.min_eq_left (Nat.not_lt.1 hlt))

theorem turnedBack (h : s.Sound g) (low a : Nat) :
    Follows g [a] [.turnedBack a] low s (s.lowered low a) s where
  sound := h
  stack := ⟨[], rfl, by simp, by simp⟩
  met f hf hmet := by
    obtain rfl : f.1 = a := by simpa using hmet
    rw [h.lowered_of_mem hf]
    exact Nat.min_le_right _ _
  least := by
    by_cases ha : a ∈ s.nodes
    · obtain ⟨f, hf, rfl⟩ := List.mem_map.1 ha
      rw [h.lowered_of_mem hf]
      exact least_min low hf .refl
    · exact .inl (lowered_of_not_mem ha)
  visited := rfl

end Follows

theorem Sound.complete_eq (h : s.Sound g) (hstack : s.stack = new ++ (a, n) :: rest) :
    s.complete a =
      { s with stack := rest, components := s.components ++ [new.map Prod.fst ++ [a]] } := by
  have habove : (s.stack.map Prod.fst).takeWhile (· != a) = new.map Prod.fst := by
    rw [hstack, List.map_append, List.map_cons, List.takeWhile_append_of_pos]
    · simp
    · simpa using h.ne_of_above hstack
  have hdrop : s.stack.drop ((new.map Prod.fst).length + 1) = rest := by
    rw [hstack, List.append_cons]
    exact List.drop_left' (by simp)
  rw [complete, habove]
  simp only [hdrop]

theorem Sound.closed_append {c : List Nat} (h : s.Sound g)
    (hclosed : ∀ v ∈ c, ∀ w, g.network.Leads v w → w ∈ s.done ∨ w ∈ c) :
    ∀ v ∈ s.done ++ c, ∀ w, g.network.Leads v w → w ∈ s.done ++ c := by
  intro v hv w hvw
  obtain hv | hv := List.mem_append.1 hv
  · exact List.mem_append_left _ (h.closed v hv w hvw)
  · exact List.mem_append.2 (hclosed v hv w hvw)

/-- A component can be taken off the stack if its nodes reach each other and lead to complete ones
otherwise. -/
theorem Sound.take {c : List Nat} (h : s.Sound g) (hstack : s.stack = new ++ rest)
    (hc : new.map Prod.fst = c) (hac : a ∈ c) (hstrong : ∀ v ∈ c, g.Strong a v)
    (hclosed : ∀ v ∈ c, ∀ w, g.network.Leads v w → w ∈ s.done ∨ w ∈ c) :
    ({ s with stack := rest, components := s.components ++ [c] } : Tarjan).Sound g := by
  have hnodes : s.nodes = c ++ rest.map Prod.fst := by
    rw [nodes, hstack, List.map_append, hc]
  have hsub : ∀ v ∈ c, v ∉ s.done := fun v hv =>
    h.not_mem_done (hnodes ▸ List.mem_append_left _ hv)
  have hperm : (rest.map Prod.fst ++ (s.done ++ c)).Perm (s.nodes ++ s.done) := by
    rw [hnodes, List.append_assoc, ← List.append_assoc]
    exact List.perm_append_comm
  have hdone : (s.components ++ [c]).flatten = s.done ++ c := by
    rw [List.flatten_append, List.flatten_singleton, done]
  have hmore := h.closed_append hclosed
  refine ⟨?_, fun v => ?_, fun e he => h.numbered e ?_, ?_, ?_, fun d hd => ?_, ?_⟩
  · simp only [nodes, done, hdone]
    exact hperm.nodup_iff.2 h.nodup
  · simp only [nodes, done, hdone]
    rw [h.mem_visited, ← List.mem_append, ← List.mem_append]
    exact hperm.symm.mem_iff
  · exact hstack ▸ List.mem_append_right _ he
  · exact h.descending.sublist (hstack ▸ List.sublist_append_right _ _)
  · simp only [done, hdone]
    exact hmore
  · obtain hd | hd := List.mem_append.1 hd
    · exact h.strong d hd
    · obtain rfl := List.mem_singleton.1 hd
      refine ⟨a, fun w => ⟨hstrong w, fun haw => ?_⟩⟩
      have hw : w ∈ s.done ++ d :=
        Network.Reaches.of_closed hmore haw.1 (List.mem_append_right _ hac)
      exact (List.mem_append.1 hw).resolve_left fun hw =>
        hsub a hac (h.mem_done_of_reaches hw haw.2)
  · refine List.pairwise_append.2 ⟨h.order, List.pairwise_singleton _ _, ?_⟩
    intro d hd e he v hv w hw hvw
    obtain rfl := List.mem_singleton.1 he
    exact hsub w hw (h.mem_done_of_reaches (List.mem_flatten.2 ⟨d, hd, hv⟩) hvw)

theorem Sound.complete (h : s.Sound g) (hstack : s.stack = new ++ (a, n) :: rest)
    (hstrong : ∀ v ∈ new.map Prod.fst ++ [a], g.Strong a v)
    (hclosed : ∀ v ∈ new.map Prod.fst ++ [a], ∀ w, g.network.Leads v w →
      w ∈ s.done ∨ w ∈ new.map Prod.fst ++ [a]) : (s.complete a).Sound g := by
  rw [h.complete_eq hstack]
  rw [List.append_cons] at hstack
  exact h.take hstack (by simp) (by simp) hstrong hclosed

section Follow

theorem mem_expandedNodesAll_singleton :
    v ∈ expandedNodesAll [.expanded a us] ↔ v = a ∨ v ∈ expandedNodesAll us := by
  simp

/-- What the visit of a node leaves on the stack above the node is its component if the visit met no
number that is less than that of the node. -/
theorem Follows.complete (hs : s.Sound g)
    (h : Follows g (g.outgoing a) us s.visited.length (s.enter a) s.visited.length s')
    (hfrom : ∀ v ∈ expandedNodesAll us, g.network.Reaches a v)
    (hnext : ∀ v, v = a ∨ v ∈ expandedNodesAll us → ∀ w, g.network.Leads v w → w ∈ s'.visited) :
    (s'.complete a).Sound g ∧ (s'.complete a).stack = s.stack := by
  obtain ⟨new, hstack, hnew, hback⟩ := h.stack
  have hnodes : s'.nodes = new.map Prod.fst ++ a :: s.nodes := by
    rw [nodes, hstack, List.map_append]
    rfl
  have hexpanded : ∀ v ∈ new.map Prod.fst ++ [a], v = a ∨ v ∈ expandedNodesAll us := by
    intro v hv
    obtain hv | hv := List.mem_append.1 hv
    · obtain ⟨e, he, rfl⟩ := List.mem_map.1 hv
      exact .inr (hnew e he)
    · exact .inl (List.mem_singleton.1 hv)
  refine ⟨h.sound.complete hstack (fun v hv => ?_) (fun v hv w hvw => ?_), ?_⟩
  · obtain rfl | hva := hexpanded v hv
    · exact .refl g v
    · refine ⟨hfrom v hva, ?_⟩
      obtain hv | hv := List.mem_append.1 hv
      · -- No number on the stack below the node is as great as its own.
        obtain ⟨e, he, rfl⟩ := List.mem_map.1 hv
        obtain ⟨f, hf, hlow, hef⟩ := hback e he
        obtain rfl | hf := List.mem_cons.1 hf
        · exact hef
        · exact absurd (hs.numbered f hf) (Nat.not_lt.2 hlow)
      · exact List.mem_singleton.1 hv ▸ .refl
  · have hw := (h.sound.mem_visited w).1 (hnext v (hexpanded v hv) w hvw)
    rw [hnodes, List.append_cons, List.mem_append, or_assoc] at hw
    obtain hw | hw | hw := hw
    · exact .inr hw
    · obtain ⟨f, hf, rfl⟩ := List.mem_map.1 hw
      refine absurd (hs.numbered f hf) (Nat.not_lt.2 (h.met f (List.mem_cons_of_mem _ hf) ?_))
      obtain rfl | hv := hexpanded v hv
      · exact .inl hvw
      · exact .inr ⟨v, hv, hvw⟩
    · exact .inl hw
  · rw [h.sound.complete_eq hstack]

theorem Follows.met_expanded (hs : s.Sound g) (ha : a ∉ s.visited)
    (h : Follows g (g.outgoing a) us s.visited.length (s.enter a) least s') (hf : f ∈ s.stack)
    (hmet : f.1 ∈ [a] ∨ ∃ v ∈ expandedNodesAll [.expanded a us], g.network.Leads v f.1) :
    least ≤ f.2 := by
  refine h.met f (List.mem_cons_of_mem _ hf) ?_
  obtain hfa | ⟨v, hv, hvf⟩ := hmet
  · refine absurd ((hs.mem_visited _).2 (.inl (List.mem_map_of_mem hf))) ?_
    rwa [List.mem_singleton.1 hfa]
  · obtain rfl | hv := mem_expandedNodesAll_singleton.1 hv
    · exact .inl hvf
    · exact .inr ⟨v, hv, hvf⟩

theorem Follows.visited_expanded
    (h : Follows g (g.outgoing a) us s.visited.length (s.enter a) least s') :
    s'.visited = (expandedNodesAll [.expanded a us]).reverse ++ s.visited := by
  rw [h.visited]
  simp [enter]

/-- A node that is no root of a component stays on the stack, with what it left there. -/
theorem Follows.stay (hs : s.Sound g) (ha : a ∉ s.visited) (hroot : least ≠ s.visited.length)
    (h : Follows g (g.outgoing a) us s.visited.length (s.enter a) least s') :
    Follows g [a] [.expanded a us] low s (min low least) s' := by
  obtain ⟨new, hstack, hnew, hback⟩ := h.stack
  obtain ⟨-, f, hf, rfl, b, hb, hbf⟩ := h.least.resolve_left hroot
  have hf : f ∈ s.stack := by
    obtain rfl | hf := List.mem_cons.1 hf
    · exact absurd rfl hroot
    · exact hf
  have haf : g.network.Reaches a f.1 := .head hb hbf
  have hle : min low f.2 ≤ f.2 := Nat.min_le_right _ _
  refine ⟨h.sound, ⟨new ++ [(a, s.visited.length)], ?_, ?_, ?_⟩, ?_, least_min low hf haf,
    h.visited_expanded⟩
  · rw [hstack, List.append_assoc]
    rfl
  · intro e he
    rw [mem_expandedNodesAll_singleton]
    obtain he | he := List.mem_append.1 he
    · exact .inr (hnew e he)
    · exact .inl (congrArg Prod.fst (List.mem_singleton.1 he))
  · intro e he
    obtain he | he := List.mem_append.1 he
    · obtain ⟨f', hf', hlow', hef'⟩ := hback e he
      obtain rfl | hf' := List.mem_cons.1 hf'
      · exact ⟨f, hf, hle, hef'.trans haf⟩
      · exact ⟨f', hf', Nat.le_trans hle hlow', hef'⟩
    · obtain rfl := List.mem_singleton.1 he
      exact ⟨f, hf, hle, haf⟩
  · exact fun f' hf' hmet => Nat.le_trans hle (h.met_expanded hs ha hf' hmet)

theorem Follows.expanded (hs : s.Sound g) (ha : a ∉ s.visited) (hlow : low ≤ s.visited.length)
    (h : Follows g (g.outgoing a) us s.visited.length (s.enter a) least s')
    (hfrom : ∀ v ∈ expandedNodesAll us, g.network.Reaches a v)
    (hnext : ∀ v, v = a ∨ v ∈ expandedNodesAll us → ∀ w, g.network.Leads v w → w ∈ s'.visited) :
    Follows g [a] [.expanded a us] low s (min low least)
      (if least = s.visited.length then s'.complete a else s') := by
  by_cases hroot : least = s.visited.length
  · subst hroot
    rw [if_pos rfl, Nat.min_eq_left hlow]
    obtain ⟨hsound, hrest⟩ := h.complete hs hfrom hnext
    exact
      { sound := hsound
        stack := ⟨[], hrest, by simp, by simp⟩
        met := fun f hf hmet => Nat.le_trans hlow (h.met_expanded hs ha hf hmet)
        least := .inl rfl
        visited := h.visited_expanded }
  · rw [if_neg hroot]
    exact h.stay hs ha hroot

@[simp] theorem network_key (v : Nat) : g.network.key v = v := rfl

@[simp] theorem network_next (v : Nat) : g.network.next v = g.outgoing v := rfl

@[simp] theorem expandedKeysAll_network (vs : List (Visit Nat)) :
    g.network.expandedKeysAll vs = expandedNodesAll vs :=
  List.map_id _

theorem follows_visitAll (seen as : List Nat) (hs : s.Sound g)
    (hseen : ∀ v, v ∈ seen ↔ v ∈ s.visited) (hlow : low ≤ s.visited.length) :
    Follows g as (g.network.visitAll seen as) low s
      (followAll low s (g.network.visitAll seen as)).1
      (followAll low s (g.network.visitAll seen as)).2 := by
  -- Behind an expanded node the walk goes on twice, to the successors and to the other roots.
  induction seen, as using g.network.walk_induction generalizing s low with
  | nil seen => exact Follows.nil hs low
  | turnedBack seen a as h ih =>
    rw [g.network.visitAll_turnedBack h]
    have hfirst := Follows.turnedBack hs low a
    exact hfirst.cons (ih hs hseen (Nat.le_trans hfirst.low_le hlow))
  | expanded seen a as ho hk ihn ihs =>
    rw [g.network.visitAll_expanded ho hk]
    simp only [network_key, network_next, expandedKeysAll_network] at hk ihn ihs ⊢
    have ha : a ∉ s.visited := fun h => hk ((hseen a).2 h)
    have hentered : ∀ v, v ∈ a :: seen ↔ v ∈ (s.enter a).visited := by
      intro v
      rw [enter, List.mem_cons, List.mem_cons, hseen]
    have hbelow := ihn (hs.enter ha) hentered (Nat.le_succ s.visited.length)
    set us := g.network.visitAll (a :: seen) (g.outgoing a)
    have hnext : ∀ v, v = a ∨ v ∈ expandedNodesAll us → ∀ w, g.network.Leads v w →
        w ∈ (followAll s.visited.length (s.enter a) us).2.visited := by
      intro v hv w hvw
      have hopen : g.network.isOpen w := rfl
      have hw : w ∈ a :: seen ∨ w ∈ expandedNodesAll us := by
        rw [← expandedKeysAll_network (g := g)]
        obtain rfl | hv := hv
        · exact Network.key_mem_of_mem_roots hvw hopen
        · exact Network.key_mem_of_leads hv hvw hopen
      rw [hbelow.visited, List.mem_append, List.mem_reverse, ← hentered w]
      exact hw.symm
    have hfirst := Follows.expanded hs ha hlow hbelow
      (fun v hv => Network.reaches_of_mem_expanded_next hv) hnext
    refine hfirst.cons (ihs hfirst.sound (fun v => ?_) (Nat.le_trans hfirst.low_le
      (Nat.le_trans hlow hfirst.length_visited_le)))
    rw [hfirst.visited]
    simp [hseen, or_left_comm]

end Follow

end Tarjan

namespace Directed

open Tarjan

theorem follows_strongConnect (hs : s.Sound g) (hlow : low ≤ s.visited.length) (as : List Nat) :
    Follows g as (g.network.visitAll s.visited as) low s (g.strongConnect low s as).1
      (g.strongConnect low s as).2 :=
  follows_visitAll s.visited as hs (fun _ => Iff.rfl) hlow

theorem strongConnect_nil : g.strongConnect low s [] = (low, s) := rfl

theorem strongConnect_visited (ha : a ∈ s.visited) :
    g.strongConnect low s (a :: as) = g.strongConnect (s.lowered low a) s as := by
  rw [strongConnect, g.network.visitAll_turnedBack fun h => h.2 ha]
  rfl

/-- A node is given its number, its successors are visited, and its component is completed if none
of them met a number that is less. -/
theorem strongConnect_fresh (hs : s.Sound g) (ha : a ∉ s.visited) :
    g.strongConnect low s (a :: as) =
      let (least, s') := g.strongConnect s.visited.length (s.enter a) (g.outgoing a)
      g.strongConnect (min low least) (if least = s.visited.length then s'.complete a else s')
        as := by
  have hbelow := follows_strongConnect (hs.enter ha) (Nat.le_succ s.visited.length) (g.outgoing a)
  rw [strongConnect, g.network.visitAll_expanded (a := a) rfl ha]
  set us := g.network.visitAll (g.network.key a :: s.visited) (g.network.next a) with hus
  set r := g.strongConnect s.visited.length (s.enter a) (g.outgoing a) with hr
  have hvisited : (if r.1 = s.visited.length then r.2.complete a else r.2).visited =
      (expandedNodesAll us).reverse ++ a :: s.visited := by
    split <;> exact hbelow.visited
  have hrest : g.network.visitAll (g.network.key a :: (g.network.expandedKeysAll us ++ s.visited))
      as = g.network.visitAll
        (if r.1 = s.visited.length then r.2.complete a else r.2).visited as := by
    refine Network.visitAll_congr rfl rfl (fun b => ?_) as
    rw [hvisited]
    simp [or_left_comm]
  rw [hrest]
  rfl

theorem sound_components (g : Directed) : (g.strongConnect 0 {} (List.range g.size)).2.Sound g :=
  (follows_strongConnect (Sound.initial g) (Nat.le_refl 0) _).sound

theorem strong_of_mem_components {c : List Nat} (hc : c ∈ g.components) :
    ∃ v, ∀ w, w ∈ c ↔ g.Strong v w :=
  (sound_components g).strong c hc

theorem pairwise_components (g : Directed) :
    g.components.Pairwise fun c d => ∀ v ∈ c, ∀ w ∈ d, ¬g.network.Reaches v w :=
  (sound_components g).order

theorem nodup_of_mem_components {c : List Nat} (hc : c ∈ g.components) : c.Nodup :=
  (List.nodup_flatten.1 (List.nodup_append.1 (sound_components g).nodup).2.1).1 c hc

theorem lt_size_of_mem_components {c : List Nat} (hedges : ∀ e ∈ g.edges, e.2 < g.size)
    (hc : c ∈ g.components) (hv : v ∈ c) : v < g.size := by
  have hv : v ∈ g.components.flatten := List.mem_flatten_of_mem hc hv
  have h := follows_strongConnect (Sound.initial g) (Nat.le_refl 0) (List.range g.size)
  have hvisited := (h.sound.mem_visited v).2 (.inr hv)
  rw [h.visited, List.append_nil, List.mem_reverse] at hvisited
  obtain ⟨r, hr, hrv⟩ := Network.reaches_of_mem_expanded hvisited
  refine hrv.of_closed (P := (· < g.size)) (fun a _ b hab => ?_) (List.mem_range.1 hr)
  exact hedges (a, b) (g.mem_outgoing.1 hab)

theorem exists_mem_components (hv : v < g.size) : ∃ c ∈ g.components, v ∈ c := by
  rw [← List.mem_flatten]
  have h := follows_strongConnect (Sound.initial g) (Nat.le_refl 0) (List.range g.size)
  obtain ⟨new, hstack, -, hnew⟩ := h.stack
  have hvisited : v ∈ (g.strongConnect 0 {} (List.range g.size)).2.visited := by
    have hkey : g.network.key v ∈ [] ∨ g.network.key v ∈
        g.network.expandedKeysAll (g.network.visitAll [] (List.range g.size)) :=
      Network.key_mem_of_mem_roots (List.mem_range.2 hv) rfl
    rw [h.visited]
    simpa using hkey
  refine ((h.sound.mem_visited v).1 hvisited).resolve_left fun hv => ?_
  -- What stays on the stack would reach what was on it at first.
  obtain ⟨e, he, -⟩ := List.mem_map.1 hv
  rw [hstack, List.append_nil] at he
  obtain ⟨f, hf, -⟩ := hnew e he
  exact absurd hf List.not_mem_nil

end Directed

end CatalogLinker.Graph
