namespace CatalogLinker

structure Ident where
  text : String
deriving DecidableEq, Inhabited, Repr

structure Name where
  text : String
deriving DecidableEq, Inhabited, Repr

namespace Ident

def finalName (i : Ident) : Name :=
  match i.text.toList with
  | '$' :: rest => ⟨String.ofList rest⟩
  | _ => ⟨"_" ++ i.text⟩

def beginsWith (i : Ident) (s : String) : Bool :=
  s.toList.isPrefixOf i.text.toList

end Ident

end CatalogLinker
