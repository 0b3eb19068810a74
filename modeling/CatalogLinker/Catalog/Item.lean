import CatalogLinker.Catalog.Literal
import CatalogLinker.Name
import CatalogLinker.Postset

namespace CatalogLinker

inductive Entry where
  | aliasOf (target : Ident)
  | raw (code : String)
  | body (code : String)
  | structured (value : Literal)
deriving Inhabited

/-- A catalog item. `isInline` marks an item that compilers expand in place, and that is defined
even without an entry; `inCompiledSection` one whose function belongs to the compiled section. -/
structure Item where
  entry : Option Entry := none
  deps : List Ident := []
  sig : Option String := none
  proxy : Option String := none
  inCompiledSection : Bool := false
  isInline : Bool := false
  postset : Option Postset := none
deriving Inhabited

namespace Item

def isDefined (x : Item) : Bool :=
  x.entry.isSome || x.isInline

def aliasTarget? (x : Item) : Option Ident :=
  match x.entry with
  | some (.aliasOf t) => some t
  | _ => none

end Item

end CatalogLinker
