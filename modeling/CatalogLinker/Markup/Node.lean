import CatalogLinker.Markup.Attribute
import CatalogLinker.Markup.Piece

/-!
Documents as trees, as the event reader of quick-xml 0.31 reads them from a string. What is assumed
of it, here and in the modules below this one:

* White space is space, tab, carriage return and line feed. A byte order mark in front of a document
  does not count.
* What follows `<!` is told by its first byte. Character data ends at the first `]]>`, a comment at
  the first `-->` that does not overlap its start, a document type at the `>` that closes it, an
  instruction and a closing tag at the first `>`, and a tag at the first one outside of quotes.
  Comments, instructions and document types are passed over.
* Runs of text are trimmed one by one, and are not reported if nothing is left. Character data is
  neither trimmed nor has it entities.
* A tag that ends in a slash is an element. The name in a closing tag, without the white space
  behind it, has to be that of the innermost open element.
* Attributes are read in order, up to the one that is looked for. A key that has come before is
  refused, and so is a value without quotes.
* There are five named entities, and characters have entities of at most seven decimal or six
  hexadecimal digits.
* What is wrong with a document is reported where reading meets it, at a position in bytes.
-/

namespace CatalogLinker.Markup

inductive Ending where
  | closed
  | endOfInput
  | failed (e : MarkupError)
deriving DecidableEq, Inhabited, Repr

/-- A run of text is kept as it stands, with its entities and white space. -/
inductive Node where
  | text (raw : List Char)
  | cdata (content : List Char)
  | element (tag : Tag) (content : List Node) (ending : Ending)
deriving Inhabited

structure Document where
  nodes : List Node
  ending : Ending
deriving Inhabited

structure OpenElement where
  tag : Tag
  before : List Node

namespace Document

def endAll (ending : Ending) (content : List Node) : List OpenElement → Document
  | [] => ⟨content.reverse, ending⟩
  | o :: outer => endAll ending (.element o.tag content.reverse ending :: o.before) outer

/-- The name in a closing tag. White space may follow it, but does not make up the name of its
own. -/
def closingName (content : List Char) : List Char :=
  if content.all isBlank then content
  else (content.reverse.dropWhile isBlank).reverse

/-- Reads on inside open elements, innermost first; `content` is in reverse. -/
def build (outer : List OpenElement) (content : List Node) (ending : Ending) :
    List Piece → Document
  | [] => endAll ending content outer
  | .text s :: ps => build outer (.text s :: content) ending ps
  | .cdata s :: ps => build outer (.cdata s :: content) ending ps
  | .skipped :: ps => build outer content ending ps
  | .tag s :: ps =>
    match Text.before? ['/'] s with
    | some s => build outer (.element (.ofChars s) [] .closed :: content) ending ps
    | none => build (⟨.ofChars s, content⟩ :: outer) [] ending ps
  | .closing s :: ps =>
    match outer with
    | [] => endAll (.failed (.mismatchedClosing [] s)) content []
    | o :: rest =>
      if closingName s = o.tag.name then
        build rest (.element o.tag content.reverse .closed :: o.before) ending ps
      else endAll (.failed (.mismatchedClosing o.tag.name (closingName s))) content outer

def ofPieces (ps : Pieces) : Document :=
  build [] [] (ps.error.elim .endOfInput .failed) ps.list

def ofText (s : String) : Document :=
  ofPieces (.ofChars s.toList)

end Document

end CatalogLinker.Markup
