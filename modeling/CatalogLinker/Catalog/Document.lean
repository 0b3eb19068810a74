import CatalogLinker.Catalog.Basic
import CatalogLinker.Markup.Node

namespace CatalogLinker

open Markup (Node Tag Ending)

inductive DocumentError where
  | markup (e : Markup.MarkupError)
  | shape (e : ShapeError)
  | unexpectedRoot (name : String)
  | unexpectedElement (parent name : String)
  | unexpectedText (parent : String)
  | unexpectedEnd (parent : String)
  | missingKey (element : String)
  | invalidFlag (text : String)
deriving DecidableEq, Repr

namespace DocumentError

def message : DocumentError → String
  | markup e => "malformed catalog: " ++ e.message
  | shape e => e.message
  | unexpectedRoot name => "expected catalog root `library`, found `" ++ name ++ "`"
  | unexpectedElement parent name =>
    "unexpected element `" ++ name ++ "` within `" ++ parent ++ "`"
  | unexpectedText parent => "unexpected text within `" ++ parent ++ "`"
  | unexpectedEnd parent => "unexpected end of catalog within `" ++ parent ++ "`"
  | missingKey name => "element `" ++ name ++ "` is missing its `key` attribute"
  | invalidFlag t => "invalid flag value `" ++ t ++ "`; expected `true` or `false`"

end DocumentError

namespace Document

def nameOf (t : Tag) : String :=
  String.ofList t.name

def attribute? (t : Tag) (key : String) : Except DocumentError (Option String) :=
  (t.value key).mapError .markup

def requiredKey (t : Tag) : Except DocumentError String := do
  match ← attribute? t "key" with
  | some key => return key
  | none => throw (.missingKey (nameOf t))

def checkEnding (parent : String) : Ending → Except DocumentError Unit
  | .closed => .ok ()
  | .endOfInput => .error (.unexpectedEnd parent)
  | .failed e => .error (.markup e)

/-- The text of a run; unless it is verbatim, white space around it does not count. -/
def runText (verbatim : Bool) (raw : List Char) : Except DocumentError (List Char) :=
  (Markup.Entity.decode (if verbatim then raw else Markup.trim raw)).mapError (.markup ∘ .badEntity)

def textFrom (parent : String) (verbatim : Bool) (ending : Ending) :
    List Node → Except DocumentError (List Char)
  | [] => (checkEnding parent ending).map fun _ => []
  | .text raw :: ns => do
    let s ← runText verbatim raw
    return s ++ (← textFrom parent verbatim ending ns)
  | .cdata s :: ns => (textFrom parent verbatim ending ns).map (s ++ ·)
  | .element t _ _ :: _ => .error (.unexpectedElement parent (nameOf t))

def text (t : Tag) (verbatim : Bool) (content : List Node) (ending : Ending) :
    Except DocumentError String :=
  (textFrom (nameOf t) verbatim ending content).map String.ofList

mutual

def literal (parent : String) : Node → Except DocumentError Literal
  | .text _ => .error (.unexpectedText parent)
  | .cdata _ => .error (.unexpectedText parent)
  | .element t content e =>
    if nameOf t = "value" then (text t false content e).map .raw
    else if nameOf t = "string" then (text t true content e).map .str
    else if nameOf t = "function" then (text t false content e).map .function
    else if nameOf t = "object" then (members "object" e content).map .object
    else if nameOf t = "array" then (items "array" e content).map .array
    else .error (.unexpectedElement parent (nameOf t))

def members (parent : String) (ending : Ending) :
    List Node → Except DocumentError (List (String × Literal))
  | [] => (checkEnding parent ending).map fun _ => []
  | .text raw :: ns =>
    if (Markup.trim raw).isEmpty then members parent ending ns else .error (.unexpectedText parent)
  | .cdata _ :: _ => .error (.unexpectedText parent)
  | .element t content e :: ns => do
    let key ← requiredKey t
    let value ← literal parent (.element t content e)
    return (key, value) :: (← members parent ending ns)

def items (parent : String) (ending : Ending) : List Node → Except DocumentError (List Literal)
  | [] => (checkEnding parent ending).map fun _ => []
  | .text raw :: ns =>
    if (Markup.trim raw).isEmpty then items parent ending ns else .error (.unexpectedText parent)
  | .cdata _ :: _ => .error (.unexpectedText parent)
  | .element t content e :: ns => do
    let value ← literal parent (.element t content e)
    return value :: (← items parent ending ns)

end

def flag (s : String) : Except DocumentError Bool :=
  let s := Text.trim s
  if s = "" ∨ s = "true" ∨ s = "1" then .ok true
  else if s = "false" ∨ s = "0" then .ok false
  else .error (.invalidFlag s)

def idents (s : String) : List Ident :=
  (Text.words s).map Ident.mk

def value (t : Tag) (content : List Node) (e : Ending) : Except DocumentError CatalogValue := do
  let text := text t false content e
  match nameOf t with
  | "function" => return .function (← text)
  | "value" => return .text (← text)
  | "alias" => return .aliasOf ⟨Text.trim (← text)⟩
  | "list" => return .list (idents (← text))
  | "flag" => return .flag (← flag (← text))
  | "postset" =>
    let ident ← attribute? t "ident"
    let deps ← attribute? t "deps"
    return .postset ⟨ident.map fun s => ⟨Text.trim s⟩, deps.map idents, ← text⟩
  | "object" => return .structured (.object (← members "object" e content))
  | "array" => return .structured (.array (← items "array" e content))
  | name => throw (.unexpectedElement "library" name)

def pair (t : Tag) (content : List Node) (e : Ending) :
    Except DocumentError (String × CatalogValue) := do
  let key ← requiredKey t
  let value ← value t content e
  return (key, value)

def insert (c : Catalog) (t : Tag) (content : List Node) (e : Ending) :
    Catalog × Except DocumentError Unit :=
  match pair t content e with
  | .error e => (c, .error e)
  | .ok (key, value) =>
    let (c, result) := c.tryInsert key value
    (c, result.mapError .shape)

/-- Inserts the keys of the elements in a library, of which `count` have been inserted. -/
def insertAll (c : Catalog) (count : Nat) (ending : Ending) :
    List Node → Catalog × Except DocumentError Nat
  | [] => (c, (checkEnding "library" ending).map fun _ => count)
  | .text raw :: ns =>
    if (Markup.trim raw).isEmpty then insertAll c count ending ns
    else (c, .error (.unexpectedText "library"))
  | .cdata _ :: _ => (c, .error (.unexpectedText "library"))
  | .element t content e :: ns =>
    match insert c t content e with
    | (c, .ok ()) => insertAll c (count + 1) ending ns
    | (c, .error e) => (c, .error e)

def insertLibrary (c : Catalog) (ending : Ending) :
    List Node → Catalog × Except DocumentError Nat
  | [] => (c, (checkEnding "document" ending).map fun _ => 0)
  | .text raw :: ns =>
    if (Markup.trim raw).isEmpty then insertLibrary c ending ns
    else (c, .error (.unexpectedText "document"))
  | .cdata _ :: _ => (c, .error (.unexpectedText "document"))
  | .element t content e :: _ =>
    if nameOf t = "library" then insertAll c 0 e content
    else (c, .error (.unexpectedRoot (nameOf t)))

end Document

/-- Reads a document into a catalog: the number of keys read, or why reading stopped. The keys in
front of an error stay inserted. -/
def Catalog.read (c : Catalog) (document : String) : Catalog × Except DocumentError Nat :=
  let d := Markup.Document.ofText document
  Document.insertLibrary c d.ending d.nodes

end CatalogLinker
