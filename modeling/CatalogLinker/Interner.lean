namespace CatalogLinker

structure Interner where
  /-- The strings by symbol. The first place is taken, so that no string has the symbol 0. -/
  strings : Array String := #[""]
  /-- The symbols by string. -/
  symbols : List (String × Nat) := []
deriving DecidableEq, Repr

namespace Interner

variable (t : Interner)

instance : Inhabited Interner := ⟨{}⟩

def size : Nat :=
  t.symbols.length

def symbol? (s : String) : Option Nat :=
  t.symbols.lookup s

def contains (s : String) : Bool :=
  (t.symbol? s).isSome

def intern (s : String) : Nat × Interner :=
  match t.symbol? s with
  | some k => (k, t)
  | none =>
    let k := t.strings.size
    (k, { strings := t.strings.push s, symbols := (s, k) :: t.symbols })

def lookup? (k : Nat) : Option String :=
  t.strings[k]?

end Interner

end CatalogLinker
