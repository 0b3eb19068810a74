import CatalogLinker.Heap.Expression
import CatalogLinker.Heap.View

namespace CatalogLinker.Heap

structure Store where
  view : View
  index : Nat
  value : Int
deriving DecidableEq, Inhabited, Repr

namespace Store

def isIndexChar (c : Char) : Bool :=
  c.isDigit || c == '(' || c == ')' || c == '>'

def dropSemicolon (s : List Char) : List Char :=
  (Text.before? [';'] s).getD s

/-- Reads a statement that is a store of a constant. The index has neither spaces nor `|`. -/
def ofText? (statement : String) : Option Store := do
  let rest ← Text.after? "HEAP".toList statement.toList
  let (suffix, rest) ← Text.cutAt? '[' rest
  let view ← View.ofSuffix? (String.ofList suffix)
  let (index, rest) ← Text.cutAt? ']' rest
  let rest ← Text.after? ['='] (rest.dropWhile (· == ' '))
  guard (index.all isIndexChar)
  let index ← Expression.evaluate? index
  let value ← Expression.evaluate? (dropSemicolon (rest.dropWhile (· == ' ')))
  guard (0 ≤ index)
  some ⟨view, index.toNat, value⟩

def address (s : Store) : Nat :=
  s.index * s.view.width

def bytes (s : Store) : List UInt8 :=
  s.view.encode s.value

end Store

end CatalogLinker.Heap
