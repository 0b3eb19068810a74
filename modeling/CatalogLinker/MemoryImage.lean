import CatalogLinker.Heap.Store

namespace CatalogLinker

structure MemoryImage where
  bytes : List UInt8
  base : UInt32
deriving DecidableEq, Inhabited, Repr

namespace MemoryImage

def isEmpty (m : MemoryImage) : Bool :=
  m.bytes.isEmpty

def holds (m : MemoryImage) (s : Heap.Store) : Prop :=
  m.base.toNat ≤ s.address ∧ s.address + s.view.width ≤ m.base.toNat + m.bytes.length

instance (m : MemoryImage) (s : Heap.Store) : Decidable (m.holds s) :=
  inferInstanceAs (Decidable (_ ∧ _))

def overwrite (old : List UInt8) (k : Nat) (new : List UInt8) : List UInt8 :=
  old.take k ++ new ++ old.drop (k + new.length)

/-- Performs a store in the image, if the image holds all of it; and whether it has. -/
def fold (m : MemoryImage) (s : Heap.Store) : MemoryImage × Bool :=
  if m.holds s then
    ({ m with bytes := overwrite m.bytes (s.address - m.base.toNat) s.bytes }, true)
  else (m, false)

def fold? (m : MemoryImage) (s : Heap.Store) : Option MemoryImage :=
  let (m, isFolded) := m.fold s
  if isFolded then some m else none

section Words

def checkedMul (a b : UInt64) : Option UInt64 :=
  if a.toNat * b.toNat < UInt64.size then some (a * b) else none

def checkedSub (a b : UInt64) : Option UInt64 :=
  if b ≤ a then some (a - b) else none

def patch? (old : List UInt8) (k : Nat) (new : List UInt8) : Option (List UInt8) :=
  if k ≤ old.length ∧ new.length ≤ (old.drop k).length then some (overwrite old k new) else none

/-- Folds a store whose index is a word; the address is computed in words. -/
def foldWord? (m : MemoryImage) (view : Heap.View) (index : UInt64) (value : Int) :
    Option MemoryImage := do
  let address ← checkedMul index (.ofNat view.width)
  let offset ← checkedSub address m.base.toUInt64
  let bytes ← patch? m.bytes offset.toNat (view.encode value)
  some { m with bytes }

end Words

def byteText (b : UInt8) : String :=
  Nat.repr b.toNat

def initializer (m : MemoryImage) (side : Bool) : String :=
  "/* memory initializer */ allocate([" ++ String.intercalate "," (m.bytes.map byteText)
    ++ "], \"i8\", ALLOC_NONE, GLOBAL_BASE" ++ (if side then "+H_BASE" else "") ++ ");"

/-- The text that initializes memory. With proxying, threads share the memory and the main thread
alone writes it. -/
def text (m : MemoryImage) (side proxying : Bool) : String :=
  if m.isEmpty then "/* no memory initializer */"
  else if proxying then "if (!ENVIRONMENT_IS_PTHREAD) \x7b\n" ++ m.initializer side ++ "\n\x7d"
  else m.initializer side

end MemoryImage

end CatalogLinker
