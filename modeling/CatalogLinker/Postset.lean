import CatalogLinker.Heap.Store
import CatalogLinker.Name

namespace CatalogLinker

/-- A statement, the identifier that it initializes and the identifiers it has to follow. One that
has both is orderable; the others stand first. -/
structure Postset where
  ident : Option Ident
  deps : Option (List Ident)
  text : String
deriving DecidableEq, Inhabited, Repr

namespace Postset

def ofText (s : String) : Postset :=
  ⟨none, none, s⟩

def isOrderable (p : Postset) : Bool :=
  p.ident.isSome && p.deps.isSome

def needs (p q : Postset) : Bool :=
  match p.deps, q.ident with
  | some deps, some i => deps.contains i
  | _, _ => false

def store? (p : Postset) : Option Heap.Store :=
  Heap.Store.ofText? p.text

end Postset

end CatalogLinker
