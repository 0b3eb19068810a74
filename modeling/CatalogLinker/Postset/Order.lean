import CatalogLinker.Graph.Directed
import CatalogLinker.Postset

namespace CatalogLinker.Postset

def graph (os : List Postset) : Graph.Directed where
  size := os.length
  edges := os.zipIdx.flatMap fun (q, j) =>
    os.zipIdx.filterMap fun (p, i) => if i ≠ j ∧ q.needs p then some (i, j) else none

/-- The identifiers of the postsets that depend on one another, for each component of several. -/
def cycles (os : List Postset) : List (List Ident) :=
  ((graph os).components.filter (1 < ·.length)).map fun c =>
    (c.mergeSort fun i j => i ≤ j).filterMap fun i => os[i]?.bind ident

def checkCycles (os : List Postset) : Except (List (List Ident)) Unit :=
  let cs := cycles os
  if cs.isEmpty then .ok () else .error cs

structure MinHeap where
  items : List Nat

namespace MinHeap

def push (h : MinHeap) (i : Nat) : MinHeap :=
  ⟨i :: h.items⟩

def pop? (h : MinHeap) : Option (Nat × MinHeap) :=
  h.items.min?.map fun i => (i, ⟨h.items.erase i⟩)

theorem length_pop {h h' : MinHeap} {i : Nat} (hpop : h.pop? = some (i, h')) :
    h.items.length = h'.items.length + 1 := by
  obtain ⟨k, hk, heq⟩ := Option.map_eq_some_iff.1 hpop
  obtain ⟨rfl, rfl⟩ := Prod.mk.inj heq
  have hmem : k ∈ h.items := List.min?_mem hk
  have := List.length_pos_of_mem hmem
  rw [List.length_erase_of_mem hmem]
  omega

end MinHeap

/-- The number of those that each postset still has to wait for, and the postsets that wait for none
any more. -/
structure Waiting where
  indegree : List Nat
  ready : MinHeap

namespace Waiting

def start (g : Graph.Directed) : Waiting :=
  let indegree := (List.range g.size).map fun j => (g.incoming j).length
  { indegree, ready := ⟨(List.range g.size).filter fun j => indegree[j]? = some 0⟩ }

def release (w : Waiting) (j : Nat) : Waiting :=
  match w.indegree[j]? with
  | some (d + 1) => ⟨w.indegree.set j d, if d = 0 then w.ready.push j else w.ready⟩
  | _ => w

def total (ds : List Nat) : Nat :=
  ds.foldr (· + ·) 0

def budget (w : Waiting) : Nat :=
  total w.indegree + w.ready.items.length

theorem total_set {ds : List Nat} {j d : Nat} (h : ds[j]? = some (d + 1)) :
    total (ds.set j d) + 1 = total ds := by
  induction ds generalizing j with
  | nil => simp at h
  | cons a ds ih =>
    cases j with
    | zero =>
      obtain rfl : a = d + 1 := by simpa using h
      simp only [total, List.set_cons_zero, List.foldr_cons]
      omega
    | succ j =>
      have := ih (by simpa using h)
      simp only [total, List.set_cons_succ, List.foldr_cons] at *
      omega

theorem budget_release (w : Waiting) (j : Nat) : (w.release j).budget ≤ w.budget := by
  unfold release
  split
  · rename_i d hd
    have := total_set hd
    split
    · simp only [budget, MinHeap.push, List.length_cons]
      omega
    · simp only [budget]
      omega
  · exact Nat.le_refl _

theorem budget_foldl (w : Waiting) (js : List Nat) : (js.foldl release w).budget ≤ w.budget := by
  induction js generalizing w with
  | nil => exact Nat.le_refl _
  | cons j js ih => exact Nat.le_trans (ih (w.release j)) (w.budget_release j)

/-- Emits the least position that is ready, as long as there is one. -/
def emit (w : Waiting) (g : Graph.Directed) : List Nat :=
  match _h : w.ready.pop? with
  | none => []
  | some (i, ready) => i :: ((g.outgoing i).foldl release { w with ready }).emit g
termination_by w.budget
decreasing_by
  have := budget_foldl { w with ready } (g.outgoing i)
  have := MinHeap.length_pop _h
  simp only [budget] at *
  omega

end Waiting

def takeFrom (slots : List (Option Postset)) : List Nat → List Postset
  | [] => []
  | i :: is =>
    match slots[i]? with
    | some (some p) => p :: takeFrom (slots.set i none) is
    | _ => takeFrom slots is

/-- Orders postsets, or finds the cycles that prevent it. -/
def order (ps : List Postset) : Except (List (List Ident)) (List Postset) := do
  let orderable := ps.filter isOrderable
  checkCycles orderable
  let g := graph orderable
  return ps.filter (!·.isOrderable) ++ takeFrom (orderable.map some) ((Waiting.start g).emit g)

def cyclesMessage (cycles : List (List Ident)) : String :=
  Nat.repr cycles.length ++ " cyclic postset dependencies"

end CatalogLinker.Postset
