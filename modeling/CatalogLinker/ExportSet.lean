import CatalogLinker.Name

namespace CatalogLinker

/-- The names that an output has to make visible, in the order in which they were first requested,
and the set of them. -/
structure ExportSet where
  names : List Name := []
  members : List Name := []
deriving DecidableEq, Inhabited, Repr

namespace ExportSet

def empty : ExportSet := {}

def contains (e : ExportSet) (n : Name) : Bool :=
  e.members.contains n

def size (e : ExportSet) : Nat :=
  e.names.length

def isEmpty (e : ExportSet) : Bool :=
  e.names.isEmpty

def request (e : ExportSet) (n : Name) : ExportSet :=
  if e.contains n then e else { names := e.names ++ [n], members := n :: e.members }

def requestAll (e : ExportSet) (ns : List Name) : ExportSet :=
  ns.foldl request e

def ofList (ns : List Name) : ExportSet :=
  empty.requestAll ns

theorem contains_request {e : ExportSet} {m n : Name} :
    (e.request n).contains m ↔ e.contains m ∨ m = n := by
  unfold request
  split
  · rename_i h
    exact ⟨.inl, fun hm => hm.elim id fun hm => hm ▸ h⟩
  · simp [contains, or_comm]

theorem names_request {e : ExportSet} {n : Name} (h : ¬e.contains n) :
    (e.request n).names = e.names ++ [n] := by
  rw [request, if_neg h]

end ExportSet

end CatalogLinker
