import CatalogLinker.Text.Extender
import CatalogLinker.Text.Graphic
import CatalogLinker.Text.Ignorable

namespace CatalogLinker.Text

/-- Whether a character shows in a text as a sign of its own. -/
def isShown (c : Char) : Bool :=
  isGraphic c && !isExtender c && !isIgnorable c

def codeEscape (c : Char) : List Char :=
  ['\\', 'u', '{'] ++ Nat.toDigits 16 c.toNat ++ ['}']

def escapeChar (c : Char) : List Char :=
  if c = '"' then ['\\', '"']
  else if c = '\\' then ['\\', '\\']
  else if c = '\n' then ['\\', 'n']
  else if c = '\r' then ['\\', 'r']
  else if c = '\t' then ['\\', 't']
  else if c.toNat = 0 then ['\\', '0']
  else if isShown c then [c]
  else codeEscape c

def quote (s : List Char) : String :=
  "\"" ++ String.ofList (s.flatMap escapeChar) ++ "\""

end CatalogLinker.Text
