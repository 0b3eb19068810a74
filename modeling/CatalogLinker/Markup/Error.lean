import CatalogLinker.Text.Quoted
import CatalogLinker.Text.Search

namespace CatalogLinker.Markup

def isBlank (c : Char) : Bool :=
  c == ' ' || c == '\t' || c == '\r' || c == '\n'

def trim (s : List Char) : List Char :=
  ((s.dropWhile isBlank).reverse.dropWhile isBlank).reverse

inductive Construct where
  | bang
  | cdata
  | comment
  | doctype
  | instruction
  | tag
deriving DecidableEq, Repr

namespace Construct

def text : Construct → String
  | bang => "Bang"
  | cdata => "CData"
  | comment => "Comment"
  | doctype => "DOCTYPE"
  | instruction => "XmlDecl"
  | tag => "Element"

end Construct

inductive AttributeError where
  | expectedEquals (position : Nat)
  | duplicated (position earlier : Nat)
  | expectedValue (position : Nat)
  | unquotedValue (position : Nat)
  | unclosedQuote (position : Nat) (quote : Char)
deriving DecidableEq, Repr

namespace AttributeError

def located (position : Nat) (s : String) : String :=
  "position " ++ Nat.repr position ++ ": " ++ s

def message : AttributeError → String
  | expectedEquals p => located p "attribute key must be directly followed by `=` or space"
  | duplicated p q =>
    located p ("duplicated attribute, previous declaration at position " ++ Nat.repr q)
  | expectedValue p => located p "`=` must be followed by an attribute value"
  | unquotedValue p => located p "attribute value must be enclosed in `\"` or `'`"
  | unclosedQuote p q =>
    located p ("missing closing quote `" ++ String.singleton q ++ "` in attribute value")

end AttributeError

inductive EntityError where
  | unterminated (start stop : Nat)
  | unknown (start stop : Nat) (name : List Char)
  | tooLongDecimal
  | tooLongHexadecimal
  | invalidDecimal (byte : Char)
  | invalidHexadecimal (byte : Char)
  | null (start stop : Nat)
  | invalidCodepoint (code : Nat)
deriving DecidableEq, Repr

namespace EntityError

def inRange (start stop : Nat) (s : String) : String :=
  "Error while escaping character at range " ++ Nat.repr start ++ ".." ++ Nat.repr stop ++ ": " ++ s

def message : EntityError → String
  | unterminated a b => inRange a b "Cannot find ';' after '&'"
  | unknown a b name => inRange a b ("Unrecognized escape symbol: " ++ Text.quote name)
  | tooLongDecimal => "Cannot convert decimal to utf8"
  | tooLongHexadecimal => "Cannot convert hexadecimal to utf8"
  | invalidDecimal c => "'" ++ String.singleton c ++ "' is not a valid decimal character"
  | invalidHexadecimal c => "'" ++ String.singleton c ++ "' is not a valid hexadecimal character"
  | null a b => inRange a b "Null character entity not allowed"
  | invalidCodepoint n => "'" ++ Nat.repr n ++ "' is not a valid codepoint"

end EntityError

inductive MarkupError where
  | unexpectedEnd (construct : Construct)
  | unexpectedBang (byte : Char)
  | emptyDoctype
  | mismatchedClosing (expected found : List Char)
  | badAttribute (e : AttributeError)
  | badEntity (e : EntityError)
deriving DecidableEq, Repr

namespace MarkupError

def message : MarkupError → String
  | unexpectedEnd k => "Unexpected EOF during reading " ++ k.text
  | unexpectedBang c =>
    "Only Comment (`--`), CDATA (`[CDATA[`) and DOCTYPE (`DOCTYPE`) nodes can start with a '!', "
      ++ "but symbol `" ++ String.singleton c ++ "` found"
  | emptyDoctype => "DOCTYPE declaration must not be empty"
  | mismatchedClosing expected found =>
    "Expecting </" ++ String.ofList expected ++ "> found </" ++ String.ofList found ++ ">"
  | badAttribute e => "error while parsing attribute: " ++ e.message
  | badEntity e => e.message

end MarkupError

end CatalogLinker.Markup
