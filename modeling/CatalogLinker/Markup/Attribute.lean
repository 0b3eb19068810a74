import CatalogLinker.Markup.Entity

namespace CatalogLinker.Markup

structure Tag where
  name : List Char
  rest : List Char
deriving DecidableEq, Inhabited, Repr

namespace Tag

def ofChars (s : List Char) : Tag :=
  ⟨s.takeWhile (!isBlank ·), s.dropWhile (!isBlank ·)⟩

/-- What has been read of an attribute: nothing, a part of its key, its key, its key and the equals
sign, or a part of its value as well. Parts are in reverse. -/
inductive Progress where
  | gap
  | key (start : Nat) (part : List Char)
  | afterKey (start : Nat) (key : List Char)
  | afterEquals (start : Nat) (key : List Char)
  | value (start : Nat) (key : List Char) (quote : Char) (part : List Char)

def afterEquals (seen : List (List Char × Nat)) (start : Nat) (key : List Char) :
    Except AttributeError Progress :=
  match seen.lookup key with
  | some earlier => .error (.duplicated start earlier)
  | none => .ok (.afterEquals start key)

/-- Reads on at a position until the wanted attribute is complete; `seen` holds the keys read before
it and where they start. -/
def findFrom (wanted : List Char) (seen : List (List Char × Nat)) (progress : Progress)
    (position : Nat) : List Char → Except AttributeError (Option (List Char))
  | [] =>
    match progress with
    | .gap => .ok none
    | .key _ _ => .error (.expectedEquals position)
    | .afterKey _ _ => .error (.expectedEquals position)
    | .afterEquals _ _ => .error (.expectedValue position)
    | .value _ _ quote _ => .error (.unclosedQuote position quote)
  | c :: s =>
    let next := position + c.utf8Size
    match progress with
    | .gap =>
      findFrom wanted seen (if isBlank c then .gap else .key position [c]) next s
    | .key start part =>
      if c = '=' then do
        findFrom wanted seen (← afterEquals seen start part.reverse) next s
      else
        findFrom wanted seen
          (if isBlank c then .afterKey start part.reverse else .key start (c :: part)) next s
    | .afterKey start key =>
      if c = '=' then do
        findFrom wanted seen (← afterEquals seen start key) next s
      else if isBlank c then findFrom wanted seen (.afterKey start key) next s
      else .error (.expectedEquals position)
    | .afterEquals start key =>
      if c = '"' ∨ c = '\'' then findFrom wanted seen (.value start key c []) next s
      else if isBlank c then findFrom wanted seen (.afterEquals start key) next s
      else .error (.unquotedValue position)
    | .value start key quote part =>
      if c ≠ quote then findFrom wanted seen (.value start key quote (c :: part)) next s
      else if key = wanted then .ok (some part.reverse)
      else findFrom wanted ((key, start) :: seen) .gap next s

def value (t : Tag) (key : String) : Except MarkupError (Option String) := do
  let found ← (findFrom key.toList [] .gap (Text.byteLength t.name) t.rest).mapError .badAttribute
  match found with
  | none => return none
  | some raw => return some (String.ofList (← (Entity.decode raw).mapError .badEntity))

end Tag

end CatalogLinker.Markup
