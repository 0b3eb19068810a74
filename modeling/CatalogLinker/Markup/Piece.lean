import CatalogLinker.Markup.Error

namespace CatalogLinker.Markup

inductive Piece where
  | text (content : List Char)
  | cdata (content : List Char)
  | skipped
  | tag (content : List Char)
  | closing (content : List Char)
deriving DecidableEq, Repr

structure Pieces where
  list : List Piece := []
  error : Option MarkupError := none
deriving DecidableEq, Repr

namespace Pieces

def cons (p : Piece) (ps : Pieces) : Pieces :=
  { ps with list := p :: ps.list }

def consText (content : List Char) (ps : Pieces) : Pieces :=
  if content.isEmpty then ps else ps.cons (.text content)

def failed (e : MarkupError) : Pieces :=
  { error := some e }

def cutOff (k : Construct) : Pieces :=
  failed (.unexpectedEnd k)

end Pieces

/-- Where in a piece the input stands. What has been read of the piece is kept in reverse; it
leaves out `<`, `<!` and `</`. -/
inductive Mode where
  | text (part : List Char)
  | opened
  | bang
  | cdata (part : List Char)
  | comment (part : List Char)
  | doctype (part : List Char) (depth : Nat)
  | instruction (part : List Char)
  | closing (part : List Char)
  | tag (part : List Char) (quote : Option Char)
deriving DecidableEq, Repr

def quoteAfter (quote : Option Char) (c : Char) : Option Char :=
  match quote with
  | some q => if c = q then none else some q
  | none => if c = '"' ∨ c = '\'' then some c else none

def cdataContent? (s : List Char) : Option (List Char) :=
  if Text.beginsWithLetters "[CDATA[".toList s then
    (Text.before? [']', ']'] s).map (·.drop 7)
  else none

def doctypeError? (s : List Char) : Option MarkupError :=
  if !Text.beginsWithLetters "DOCTYPE".toList s then some (.unexpectedEnd .doctype)
  else if (s.drop 7).all isBlank then some .emptyDoctype
  else none

def isInstruction (s : List Char) : Bool :=
  s.length > 2 && s.getLast? = some '?'

/-- Reads the pieces of a document from within a piece. The dashes at the ends of a comment do not
overlap. -/
def scan : Mode → List Char → Pieces
  | .text part, [] => .consText part.reverse {}
  | .text part, c :: s =>
    if c = '<' then .consText part.reverse (scan .opened s) else scan (.text (c :: part)) s
  | .opened, [] => {}
  | .opened, c :: s =>
    if c = '!' then scan .bang s
    else if c = '/' then scan (.closing []) s
    else if c = '?' then scan (.instruction [c]) s
    else if c = '>' then .cons (.tag []) (scan (.text []) s)
    else scan (.tag [c] (quoteAfter none c)) s
  | .bang, [] => .cutOff .bang
  | .bang, c :: s =>
    if c = '[' then scan (.cdata [c]) s
    else if c = '-' then scan (.comment [c]) s
    else if c = 'D' ∨ c = 'd' then scan (.doctype [c] 0) s
    else .failed (.unexpectedBang (Text.leadByte c))
  | .cdata _, [] => .cutOff .cdata
  | .cdata part, c :: s =>
    if c = '>' ∧ part.take 2 = [']', ']'] then
      match cdataContent? part.reverse with
      | some content => .cons (.cdata content) (scan (.text []) s)
      | none => .cutOff .cdata
    else scan (.cdata (c :: part)) s
  | .comment _, [] => .cutOff .comment
  | .comment part, c :: s =>
    if c = '>' ∧ part.take 2 = ['-', '-'] ∧ part.length ≥ 4 then
      if part.reverse.take 2 = ['-', '-'] then .cons .skipped (scan (.text []) s)
      else .cutOff .comment
    else scan (.comment (c :: part)) s
  | .doctype _ _, [] => .cutOff .doctype
  | .doctype part depth, c :: s =>
    if c = '>' then
      match depth with
      | 0 =>
        match doctypeError? part.reverse with
        | some e => .failed e
        | none => .cons .skipped (scan (.text []) s)
      | depth + 1 => scan (.doctype (c :: part) depth) s
    else scan (.doctype (c :: part) (if c = '<' then depth + 1 else depth)) s
  | .instruction part, [] =>
    if isInstruction part.reverse then .cons .skipped {} else .cutOff .instruction
  | .instruction part, c :: s =>
    if c = '>' then
      if isInstruction part.reverse then .cons .skipped (scan (.text []) s)
      else .cutOff .instruction
    else scan (.instruction (c :: part)) s
  | .closing part, [] => .cons (.closing part.reverse) {}
  | .closing part, c :: s =>
    if c = '>' then .cons (.closing part.reverse) (scan (.text []) s)
    else scan (.closing (c :: part)) s
  | .tag _ _, [] => .cutOff .tag
  | .tag part quote, c :: s =>
    if c = '>' ∧ quote = none then .cons (.tag part.reverse) (scan (.text []) s)
    else scan (.tag (c :: part) (quoteAfter quote c)) s

def Pieces.ofChars (s : List Char) : Pieces :=
  match s with
  | '\uFEFF' :: s => scan (.text []) s
  | s => scan (.text []) s

end CatalogLinker.Markup
