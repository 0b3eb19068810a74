namespace CatalogLinker.Graph

inductive Visit (α : Type) where
  | turnedBack (node : α)
  | expanded (node : α) (visits : List (Visit α))

namespace Visit

variable {α : Type}

mutual

def expandedOnto : Visit α → (rest : List α) → List α
  | turnedBack _, rest => rest
  | expanded a vs, rest => a :: expandedOntoAll vs rest

def expandedOntoAll : List (Visit α) → (rest : List α) → List α
  | [], rest => rest
  | v :: vs, rest => v.expandedOnto (expandedOntoAll vs rest)

end

mutual

def finishedOnto : Visit α → (rest : List α) → List α
  | turnedBack _, rest => rest
  | expanded a vs, rest => finishedOntoAll vs (a :: rest)

def finishedOntoAll : List (Visit α) → (rest : List α) → List α
  | [], rest => rest
  | v :: vs, rest => v.finishedOnto (finishedOntoAll vs rest)

end

def expandedNodes (v : Visit α) : List α :=
  v.expandedOnto []

def expandedNodesAll (vs : List (Visit α)) : List α :=
  expandedOntoAll vs []

def finishedNodes (v : Visit α) : List α :=
  v.finishedOnto []

def finishedNodesAll (vs : List (Visit α)) : List α :=
  finishedOntoAll vs []

mutual

theorem expandedOnto_eq (v : Visit α) (rest : List α) :
    v.expandedOnto rest = v.expandedNodes ++ rest := by
  cases v with
  | turnedBack => rfl
  | expanded a vs => exact congrArg (a :: ·) (expandedOntoAll_eq vs rest)

theorem expandedOntoAll_eq (vs : List (Visit α)) (rest : List α) :
    expandedOntoAll vs rest = expandedNodesAll vs ++ rest := by
  cases vs with
  | nil => rfl
  | cons v vs =>
    change v.expandedOnto (expandedOntoAll vs rest) = v.expandedOnto (expandedOntoAll vs []) ++ rest
    rw [expandedOntoAll_eq vs rest, expandedOnto_eq v (_ ++ rest),
      expandedOnto_eq v (expandedOntoAll vs [])]
    simp [expandedNodesAll]

end

mutual

theorem finishedOnto_eq (v : Visit α) (rest : List α) :
    v.finishedOnto rest = v.finishedNodes ++ rest := by
  cases v with
  | turnedBack => rfl
  | expanded a vs =>
    change finishedOntoAll vs (a :: rest) = finishedOntoAll vs [a] ++ rest
    rw [finishedOntoAll_eq vs (a :: rest), finishedOntoAll_eq vs [a]]
    simp

theorem finishedOntoAll_eq (vs : List (Visit α)) (rest : List α) :
    finishedOntoAll vs rest = finishedNodesAll vs ++ rest := by
  cases vs with
  | nil => rfl
  | cons v vs =>
    change v.finishedOnto (finishedOntoAll vs rest) = v.finishedOnto (finishedOntoAll vs []) ++ rest
    rw [finishedOntoAll_eq vs rest, finishedOnto_eq v (_ ++ rest),
      finishedOnto_eq v (finishedOntoAll vs [])]
    simp [finishedNodesAll]

end

@[simp] theorem expandedNodes_turnedBack (a : α) : (turnedBack a).expandedNodes = [] := rfl

@[simp] theorem expandedNodes_expanded (a : α) (vs : List (Visit α)) :
    (expanded a vs).expandedNodes = a :: expandedNodesAll vs := rfl

@[simp] theorem expandedNodesAll_nil : expandedNodesAll ([] : List (Visit α)) = [] := rfl

@[simp] theorem expandedNodesAll_cons (v : Visit α) (vs : List (Visit α)) :
    expandedNodesAll (v :: vs) = v.expandedNodes ++ expandedNodesAll vs :=
  expandedOnto_eq v _

@[simp] theorem finishedNodes_turnedBack (a : α) : (turnedBack a).finishedNodes = [] := rfl

@[simp] theorem finishedNodes_expanded (a : α) (vs : List (Visit α)) :
    (expanded a vs).finishedNodes = finishedNodesAll vs ++ [a] :=
  finishedOntoAll_eq vs [a]

@[simp] theorem finishedNodesAll_nil : finishedNodesAll ([] : List (Visit α)) = [] := rfl

@[simp] theorem finishedNodesAll_cons (v : Visit α) (vs : List (Visit α)) :
    finishedNodesAll (v :: vs) = v.finishedNodes ++ finishedNodesAll vs :=
  finishedOnto_eq v _

end Visit

theorem filter_sublist_filter {β : Type} {p q : β → Bool} (h : ∀ x, p x → q x) (l : List β) :
    (l.filter p).Sublist (l.filter q) := by
  have heq : l.filter p = (l.filter q).filter p := by
    rw [List.filter_filter]
    refine List.filter_congr fun x _ => ?_
    cases hp : p x <;> simp_all
  exact heq ▸ List.filter_sublist

/-- A graph to walk. A walk expands a node if the node is open and no node with its key has been
expanded before, and turns back otherwise; it is finite because the keys of successors lie in a
finite list. -/
structure Network (α β : Type) where
  key : α → β
  isOpen : α → Bool
  next : α → List α
  keys : List β
  key_mem : ∀ {a b}, b ∈ next a → key b ∈ keys

namespace Network

variable {α β : Type} [DecidableEq β] (g : Network α β)

def expandedKeys (v : Visit α) : List β :=
  v.expandedNodes.map g.key

def budget (seen : List β) (a : α) : Nat :=
  (g.keys.filter (· ∉ seen)).length + if g.key a ∈ g.keys then 0 else 1

/-- Visits nodes one after another, each with the keys that are expanded by then. -/
def visitEach : (seen : List β) → (as : List α) →
    ((a : α) → a ∈ as → (seen' : List β) → seen ⊆ seen' → Visit α) → List (Visit α)
  | _, [], _ => []
  | seen, [a], visit => [visit a List.mem_cons_self seen fun _ h => h]
  | seen, a :: b :: as, visit =>
    let v := visit a List.mem_cons_self seen fun _ h => h
    v :: visitEach (g.expandedKeys v ++ seen) (b :: as) fun c hc seen' hs =>
      visit c (List.mem_cons_of_mem a hc) seen' fun _ h => hs (List.mem_append_right _ h)

theorem budget_lt {seen seen' : List β} {a b : α} (ha : g.key a ∉ seen) (hb : b ∈ g.next a)
    (hs : g.key a :: seen ⊆ seen') : g.budget seen' b < g.budget seen a := by
  have hmono : ∀ x, decide (x ∉ seen') → decide (x ∉ seen) := by
    intro x hx
    simp only [decide_eq_true_eq] at hx ⊢
    exact fun h => hx (hs (List.mem_cons_of_mem _ h))
  have hsub := filter_sublist_filter hmono g.keys
  simp only [budget, if_pos (g.key_mem hb), Nat.add_zero]
  by_cases hk : g.key a ∈ g.keys
  · simp only [hk, if_true, Nat.add_zero]
    refine Nat.lt_of_le_of_ne hsub.length_le fun heq => ?_
    have hmem : g.key a ∈ g.keys.filter (· ∉ seen) := List.mem_filter.2 ⟨hk, by simpa using ha⟩
    rw [← hsub.eq_of_length heq] at hmem
    simp only [List.mem_filter, decide_eq_true_eq] at hmem
    exact hmem.2 (hs List.mem_cons_self)
  · simp only [hk, if_false]
    exact Nat.lt_succ_of_le hsub.length_le

def visit (seen : List β) (a : α) : Visit α :=
  if h : g.isOpen a ∧ g.key a ∉ seen then
    .expanded a (g.visitEach (g.key a :: seen) (g.next a) fun b hb seen' hs =>
      have := g.budget_lt h.2 hb hs
      visit seen' b)
  else .turnedBack a
termination_by g.budget seen a

def visitAll (seen : List β) : List α → List (Visit α)
  | [] => []
  | a :: as => g.visit seen a :: visitAll (g.expandedKeys (g.visit seen a) ++ seen) as

theorem visitEach_visit (seen : List β) (as : List α) :
    g.visitEach seen as (fun b _ seen' _ => g.visit seen' b) = g.visitAll seen as := by
  induction as generalizing seen with
  | nil => rfl
  | cons a as ih =>
    cases as with
    | nil => rfl
    | cons b as => simp only [visitEach, visitAll, ih]

theorem visit_eq (seen : List β) (a : α) :
    g.visit seen a =
      if g.isOpen a ∧ g.key a ∉ seen then .expanded a (g.visitAll (g.key a :: seen) (g.next a))
      else .turnedBack a := by
  rw [visit]
  by_cases h : g.isOpen a ∧ g.key a ∉ seen
  · rw [dif_pos h, if_pos h, visitEach_visit]
  · rw [dif_neg h, if_neg h]

end Network

end CatalogLinker.Graph
