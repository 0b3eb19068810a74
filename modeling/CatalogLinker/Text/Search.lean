namespace CatalogLinker.Text

def after? : (pattern s : List Char) → Option (List Char)
  | [], s => some s
  | _ :: _, [] => none
  | a :: pattern, c :: s => if a = c then after? pattern s else none

theorem after?_eq_some_iff {pattern s rest : List Char} :
    after? pattern s = some rest ↔ s = pattern ++ rest := by
  induction pattern generalizing s with
  | nil => simp [after?]
  | cons a pattern ih =>
    cases s with
    | nil => simp [after?]
    | cons c s => by_cases h : a = c <;> simp [after?, h, ih, eq_comm]

def before? (ending s : List Char) : Option (List Char) :=
  (after? ending.reverse s.reverse).map List.reverse

theorem before?_eq_some_iff {ending s rest : List Char} :
    before? ending s = some rest ↔ s = rest ++ ending := by
  simp only [before?, Option.map_eq_some_iff, after?_eq_some_iff]
  constructor
  · rintro ⟨r, h, rfl⟩
    simpa using congrArg List.reverse h
  · rintro rfl
    exact ⟨rest.reverse, by simp⟩

def cut? (pattern : List Char) : List Char → Option (List Char × List Char)
  | [] => (after? pattern []).map ([], ·)
  | c :: s =>
    match after? pattern (c :: s) with
    | some rest => some ([], rest)
    | none => (cut? pattern s).map fun (before, rest) => (c :: before, rest)

def occurs (pattern s : List Char) : Bool :=
  (cut? pattern s).isSome

def cutAt? (c : Char) (s : List Char) : Option (List Char × List Char) :=
  match s.span (· != c) with
  | (before, _ :: rest) => some (before, rest)
  | (_, []) => none

/-- The pieces between the characters `c`; there is always one more piece than there are such
characters. -/
def pieces (c : Char) : List Char → List (List Char)
  | [] => [[]]
  | a :: s =>
    if a = c then [] :: pieces c s
    else match pieces c s with
      | [] => [[a]]
      | p :: ps => (a :: p) :: ps

def beginsWithLetters (pattern s : List Char) : Bool :=
  s.length ≥ pattern.length && (s.take pattern.length).map Char.toLower == pattern.map Char.toLower

def decimal? (s : List Char) : Option Nat :=
  if s.isEmpty || !s.all Char.isDigit then none
  else some (s.foldl (fun n c => 10 * n + (c.toNat - '0'.toNat)) 0)

/-- The first byte that a character takes in UTF-8, as a character itself. -/
def leadByte (c : Char) : Char :=
  let n := c.toNat
  if n < 0x80 then c
  else if n < 0x800 then Char.ofNat (0xC0 + n / 0x40)
  else if n < 0x10000 then Char.ofNat (0xE0 + n / 0x1000)
  else Char.ofNat (0xF0 + n / 0x40000)

def byteLength : List Char → Nat
  | [] => 0
  | c :: s => c.utf8Size + byteLength s

/-- The texts around a byte offset that stands between two characters. -/
def splitAtByte? : Nat → List Char → Option (List Char × List Char)
  | 0, s => some ([], s)
  | _ + 1, [] => none
  | n + 1, c :: s =>
    if c.utf8Size ≤ n + 1 then
      (splitAtByte? (n + 1 - c.utf8Size) s).map fun (before, rest) => (c :: before, rest)
    else none

def sliceTo? (stop : Nat) (s : List Char) : Option (List Char) :=
  (splitAtByte? stop s).map Prod.fst

def sliceFrom? (start : Nat) (s : List Char) : Option (List Char) :=
  (splitAtByte? start s).map Prod.snd

def slice? (start stop : Nat) (s : List Char) : Option (List Char) :=
  (sliceTo? stop s).bind (sliceFrom? start)

def offsetOf? (c : Char) (position : Nat) : List Char → Option Nat
  | [] => none
  | a :: s => if a = c then some position else offsetOf? c (position + a.utf8Size) s

end CatalogLinker.Text
