import CatalogLinker.CommandLine.System
import CatalogLinker.Text.Search

namespace CatalogLinker.CommandLine

structure Workspace where
  system : System
  directory : Place
  entries : List (Place × Content)

namespace Workspace

def names (path : String) : List String :=
  (Text.pieces '/' path.toList).map String.ofList

def ofContents (contents : List (String × Content)) (system : System := .usual) : Workspace :=
  let directory := ["tmp", "workspace"]
  { system, directory, entries := contents.map fun (path, c) => (directory ++ names path, c) }

def contents (w : Workspace) : List (String × Content) :=
  w.entries.filterMap fun (place, c) =>
    if place.dropLast = w.directory then place.getLast?.map (·, c) else none

def content? (w : Workspace) (place : Place) : Option Content :=
  if place = [] ∨ place = w.directory then some .directory
  else (w.entries.lookup place).or (w.system.lookup place)

def enter (w : Workspace) (place : Place) : Except FileError Unit :=
  match w.content? place with
  | none => .error .notFound
  | some .directory => .ok ()
  | some _ => .error .notDirectory

/-- The place that a name leads to from another place. A name has at most 255 bytes; the root is its
own parent. -/
def step (w : Workspace) (place : Place) (name : String) : Except FileError Place := do
  w.enter place
  if name = "" ∨ name = "." then return place
  if name = ".." then return place.dropLast
  if 255 < name.utf8ByteSize then throw .nameTooLong
  return place ++ [name]

def origin (w : Workspace) (path : String) : Except FileError Place :=
  if path = "" then .error .notFound
  else if 4095 < path.utf8ByteSize then .error .nameTooLong
  else if (names path).head? = some "" then .ok []
  else .ok w.directory

def read (w : Workspace) (path : String) : Except FileError String := do
  let place ← (names path).foldlM w.step (← w.origin path)
  match w.content? place with
  | none => throw .notFound
  | some .directory => throw .isDirectory
  | some (.refusing e) => throw e
  | some (.stream _) | some .emptyDevice => return ""
  | some (.file bytes) =>
    match String.fromUTF8? bytes with
    | some s => return s
    | none => throw .notText

/-- The place where a file of a path can be written. A path that ends in a slash is one of a
directory. Whatever can be created can also be written: a device without space refuses to be created
already, and no file is too large. -/
def create (w : Workspace) (path : String) : Except FileError Place := do
  let start ← w.origin path
  let stem := ((names path).reverse.dropWhile (· = "")).reverse
  let parent ← stem.dropLast.foldlM w.step start
  w.enter parent
  if (names path).getLast? = some "" then throw .isDirectory
  let place ← w.step parent (stem.getLastD "")
  match w.content? place with
  | some .directory => throw .isDirectory
  | some (.refusing e) => throw e
  | _ => return place

/-- Writes a text at a place. Streams and the empty device do not keep it. -/
def write (w : Workspace) (place : Place) (text : String) : Workspace :=
  match w.content? place with
  | some (.stream _) | some .emptyDevice => w
  | _ => { w with entries := (place, .file text.toUTF8) :: w.entries.filter (·.1 ≠ place) }

def streamed (w : Workspace) (place : Place) (s : Stream) (text : String) : String :=
  match w.content? place with
  | some (.stream s') => if s' = s then text else ""
  | _ => ""

end Workspace

end CatalogLinker.CommandLine
