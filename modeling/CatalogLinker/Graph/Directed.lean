import CatalogLinker.Graph.Walk

namespace CatalogLinker.Graph

structure Directed where
  size : Nat
  edges : List (Nat × Nat)
deriving DecidableEq, Repr

namespace Directed

variable (g : Directed)

def outgoing (i : Nat) : List Nat :=
  (g.edges.filter (·.1 == i)).map Prod.snd

def incoming (j : Nat) : List Nat :=
  (g.edges.filter (·.2 == j)).map Prod.fst

theorem mem_outgoing {i j : Nat} : j ∈ g.outgoing i ↔ (i, j) ∈ g.edges := by
  simp [outgoing]

theorem mem_incoming {i j : Nat} : i ∈ g.incoming j ↔ (i, j) ∈ g.edges := by
  simp [incoming]

def network : Network Nat Nat where
  key := id
  isOpen _ := true
  next := g.outgoing
  keys := g.edges.map Prod.snd
  key_mem h := List.mem_map.2 ⟨_, g.mem_outgoing.1 h, rfl⟩

end Directed

/-- Where Tarjan's algorithm has come to. A node gets the number of nodes that were visited before
it; it is on the stack, with its number, until its component is complete. -/
structure Tarjan where
  visited : List Nat := []
  stack : List (Nat × Nat) := []
  components : List (List Nat) := []
deriving DecidableEq, Repr

namespace Tarjan

variable (s : Tarjan) (low v : Nat)

def enter : Tarjan :=
  { s with visited := v :: s.visited, stack := (v, s.visited.length) :: s.stack }

def lowered : Nat :=
  match s.stack.lookup v with
  | some n => min low n
  | none => low

/-- Takes a component off the stack, down to its root. -/
def complete : Tarjan :=
  let above := (s.stack.map Prod.fst).takeWhile (· != v)
  { s with
    stack := s.stack.drop (above.length + 1)
    components := s.components ++ [above ++ [v]] }

mutual

/-- Completes the components whose roots lie on a visit; `low` is lowered to the least number on the
stack that the visit meets. -/
def follow (low : Nat) (s : Tarjan) : Visit Nat → Nat × Tarjan
  | .turnedBack v => (s.lowered low v, s)
  | .expanded v visits =>
    let n := s.visited.length
    let (least, s) := followAll n (s.enter v) visits
    (min low least, if least = n then s.complete v else s)

def followAll (low : Nat) (s : Tarjan) : List (Visit Nat) → Nat × Tarjan
  | [] => (low, s)
  | v :: vs =>
    let (low, s) := follow low s v
    followAll low s vs

end

end Tarjan

def Directed.strongConnect (g : Directed) (low : Nat) (s : Tarjan) (as : List Nat) : Nat × Tarjan :=
  Tarjan.followAll low s (g.network.visitAll s.visited as)

def Directed.components (g : Directed) : List (List Nat) :=
  (g.strongConnect 0 {} (List.range g.size)).2.components

end CatalogLinker.Graph
