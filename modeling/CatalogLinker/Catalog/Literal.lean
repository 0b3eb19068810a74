namespace CatalogLinker

inductive Literal where
  | raw (code : String)
  | str (text : String)
  | function (code : String)
  | array (items : List Literal)
  | object (members : List (String × Literal))
deriving Inhabited

namespace Literal

def hexDigit (n : Nat) : Char :=
  if n < 10 then Char.ofNat ('0'.toNat + n) else Char.ofNat ('a'.toNat + (n - 10))

/-- Quotes, backslashes and control characters are escaped; anything else stands for itself. -/
def escape (c : Char) : List Char :=
  if c = '"' then ['\\', '"']
  else if c = '\\' then ['\\', '\\']
  else if c = '\n' then ['\\', 'n']
  else if c = '\r' then ['\\', 'r']
  else if c = '\t' then ['\\', 't']
  else if c.toNat < 0x20 then
    ['\\', 'u', '0', '0', hexDigit (c.toNat / 16), hexDigit (c.toNat % 16)]
  else [c]

def quote (s : List Char) : List Char :=
  '"' :: s.flatMap escape ++ ['"']

def isKeyStart (c : Char) : Bool :=
  c.isAlpha || c == '_' || c == '$'

def isKeyRest (c : Char) : Bool :=
  c.isAlphanum || c == '_' || c == '$'

def keyChars (k : List Char) : List Char :=
  match k with
  | [] => quote []
  | c :: rest => if isKeyStart c && rest.all isKeyRest then c :: rest else quote (c :: rest)

mutual

def chars : Literal → List Char
  | .raw code => code.toList
  | .str text => quote text.toList
  | .function code => code.toList
  | .array items => '[' :: itemChars items ++ [']']
  | .object members => '{' :: memberChars members ++ ['}']

def itemChars : List Literal → List Char
  | [] => []
  | [v] => v.chars
  | v :: w :: vs => v.chars ++ ',' :: itemChars (w :: vs)

def memberChars : List (String × Literal) → List Char
  | [] => []
  | [(k, v)] => keyChars k.toList ++ ':' :: v.chars
  | (k, v) :: m :: ms => keyChars k.toList ++ ':' :: v.chars ++ ',' :: memberChars (m :: ms)

end

def text (v : Literal) : String :=
  String.ofList v.chars

end Literal

end CatalogLinker
