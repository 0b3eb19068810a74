import CatalogLinker.Catalog.Item
import CatalogLinker.Request

namespace CatalogLinker

structure GlobalVariable where
  name : Name
  init : Option String
deriving DecidableEq, Inhabited, Repr

namespace GlobalVariable

def declaration (g : GlobalVariable) : String :=
  match g.init with
  | some v => "var " ++ g.name.text ++ "=" ++ v ++ ";"
  | none => "var " ++ g.name.text ++ ";"

end GlobalVariable

structure Program where
  requests : List Request := []
  globals : List Request := []
  compiled : List Name := []
  declarations : List GlobalVariable := []
  postsets : List Postset := []
  memory : List UInt8 := []
  staticSize : UInt32 := 0
deriving Inhabited

namespace Program

def staticAlign : UInt32 := 16

def divCeil (a b : UInt32) : UInt32 :=
  if a % b > 0 then a / b + 1 else a / b

/-- The size of the static area, rounded up to its alignment in 32 bits. -/
def staticTop (p : Program) : Nat :=
  (divCeil p.staticSize staticAlign * staticAlign).toNat

end Program

structure Shell where
  preamble : String := ""
  postamble : String := ""
deriving DecidableEq, Inhabited, Repr

end CatalogLinker
