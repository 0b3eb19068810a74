import CatalogLinker.Heap.FloatFormat

namespace CatalogLinker.Heap

inductive View where
  | i8
  | i16
  | i32
  | f32
  | f64
deriving DecidableEq, Inhabited, Repr

namespace View

/-- The view of the array `HEAP…` with a suffix. Signed and unsigned integers of one width share a
view, for their elements have the same bytes. -/
def ofSuffix? (s : String) : Option View :=
  if s = "8" ∨ s = "U8" then some i8
  else if s = "16" ∨ s = "U16" then some i16
  else if s = "32" ∨ s = "U32" then some i32
  else if s = "F32" then some f32
  else if s = "F64" then some f64
  else none

def width : View → Nat
  | i8 => 1
  | i16 => 2
  | i32 => 4
  | f32 => 4
  | f64 => 8

theorem width_pos (w : View) : 0 < w.width := by
  cases w <;> decide

end View

def littleEndian : Nat → Int → List UInt8
  | 0, _ => []
  | k + 1, v => UInt8.ofNat (v % 256).toNat :: littleEndian k (v / 256)

@[simp] theorem length_littleEndian (k : Nat) (v : Int) : (littleEndian k v).length = k := by
  induction k generalizing v with
  | zero => rfl
  | succ k ih => simp [littleEndian, ih]

def View.encode (w : View) (v : Int) : List UInt8 :=
  match w with
  | .f32 => littleEndian 4 (FloatFormat.single.intBits v)
  | .f64 => littleEndian 8 (FloatFormat.double.intBits v)
  | .i8 => littleEndian 1 v
  | .i16 => littleEndian 2 v
  | .i32 => littleEndian 4 v

@[simp] theorem View.length_encode (w : View) (v : Int) : (w.encode v).length = w.width := by
  cases w <;> simp [View.encode, View.width]

end CatalogLinker.Heap
