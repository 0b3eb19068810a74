namespace CatalogLinker.Text

/-- The property White_Space of Unicode. -/
def isBlank (c : Char) : Bool :=
  let n := c.toNat
  (0x09 ≤ n && n ≤ 0x0D) || n == 0x20 || n == 0x85 || n == 0xA0 || n == 0x1680
    || (0x2000 ≤ n && n ≤ 0x200A) || n == 0x2028 || n == 0x2029 || n == 0x202F
    || n == 0x205F || n == 0x3000

variable (p : Char → Bool)

def trimEndWhere (s : List Char) : List Char :=
  (s.reverse.dropWhile p).reverse

def trimWhere (s : List Char) : List Char :=
  trimEndWhere p (s.dropWhile p)

def trim (s : String) : String :=
  String.ofList (trimWhere isBlank s.toList)

/-- The maximal runs outside `p`; `run` is the run read so far, in reverse. -/
def wordsFrom : List Char → List Char → List (List Char)
  | [], [] => []
  | run, [] => [run.reverse]
  | run, c :: s =>
    if p c then
      if run.isEmpty then wordsFrom [] s else run.reverse :: wordsFrom [] s
    else wordsFrom (c :: run) s

def words (s : String) : List String :=
  (wordsFrom isBlank [] s.toList).map String.ofList

end CatalogLinker.Text
