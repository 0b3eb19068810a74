import CatalogLinker.FunctionBody
import CatalogLinker.Text.Alphanumeric

namespace CatalogLinker

structure FunctionHeader where
  before : List Char
  name : List Char
  params : List Char
  after : List Char
deriving DecidableEq, Repr

namespace FunctionHeader

def isNameChar (c : Char) : Bool :=
  Text.isAlphanumeric c || c == '_' || c == '$'

def keyword? (before : List Char) : List Char → Option (List Char × List Char)
  | [] => none
  | c :: s =>
    let found := (Text.after? "function".toList (c :: s)).filter fun rest =>
      !before.head?.any isNameChar && rest.head?.any Text.isBlank
    match found with
    | some rest => some (before.reverse, rest)
    | none => keyword? (c :: before) s

def closing? (depth : Nat) : List Char → Option (List Char × List Char)
  | [] => none
  | c :: s =>
    if c = ')' then
      match depth with
      | 0 => none
      | 1 => some ([], s)
      | d + 2 => (closing? (d + 1) s).map fun (inner, rest) => (c :: inner, rest)
    else
      let depth := if c = '(' then depth + 1 else depth
      (closing? depth s).map fun (inner, rest) => (c :: inner, rest)

/-- Cuts a text at its first function header. Only the first keyword counts: later ones belong to
functions inside. -/
def find? (s : List Char) : Option FunctionHeader := do
  let (before, rest) ← keyword? [] s
  let (name, rest) ← Text.cutAt? '(' (rest.dropWhile Text.isBlank)
  let name := Text.trimEndWhere Text.isBlank name
  if name.all isNameChar then
    let (params, rest) ← closing? 1 rest
    let after ← Text.after? ['{'] (rest.dropWhile Text.isBlank)
    some ⟨before, name, Text.trimWhere Text.isBlank params, after⟩
  else none

section Offsets

open Text FunctionBody

/-- Whether the keyword at an offset of a text stands on its own; `none` if a slice has no
result. -/
def standsAt? (s : List Char) (start : Nat) : Option Bool := do
  let before ← sliceTo? start s
  let rest ← sliceFrom? (start + byteLength keyword) s
  return !before.getLast?.any isNameChar && rest.head?.any isBlank

def keywordOffset? (s : List Char) (position : Nat) : List Char → Option (Option Nat)
  | [] => some none
  | c :: rest => do
    let stands ← if (after? keyword (c :: rest)).isSome then standsAt? s position else some false
    if stands then some (some position) else keywordOffset? s (position + c.utf8Size) rest

def closingOffset? (depth position : Nat) : List Char → Option Nat
  | [] => none
  | c :: s =>
    if c = ')' then
      match depth with
      | 0 => none
      | 1 => some position
      | d + 2 => closingOffset? (d + 1) (position + c.utf8Size) s
    else
      closingOffset? (if c = '(' then depth + 1 else depth) (position + c.utf8Size) s

structure Place where
  start : Nat
  stop : Nat
  name : List Char
  params : List Char

/-- Locates the header behind a keyword; the outer `none` means that a slice has no result. -/
def locateBehind? (s : List Char) (start : Nat) : Option (Option Place) := do
  let behind ← sliceFrom? (start + byteLength keyword) s
  let trimmed := behind.dropWhile isBlank
  match offsetOf? '(' 0 trimmed with
  | none => return none
  | some opening =>
    let name ← sliceTo? opening trimmed
    if (trimEndWhere isBlank name).all isNameChar then
      let group ← sliceFrom? opening trimmed
      match closingOffset? 0 0 group with
      | none => return none
      | some length =>
        let closing := opening + length
        let params ← slice? (opening + 1) closing trimmed
        let rest ← sliceFrom? (closing + 1) trimmed
        match after? ['{'] (rest.dropWhile isBlank) with
        | none => return none
        | some after => return some ⟨start, byteLength s - byteLength after, name, params⟩
    else return none

def cutAtPlace? (s : List Char) (p : Place) : Option FunctionHeader := do
  let before ← sliceTo? p.start s
  let after ← sliceFrom? p.stop s
  return ⟨before, trimWhere isBlank p.name, trimWhere isBlank p.params, after⟩

def cutBehind? (s : List Char) (start : Nat) : Option (Option FunctionHeader) := do
  match ← locateBehind? s start with
  | none => return none
  | some p => (cutAtPlace? s p).map some

def findBySlices? (s : List Char) : Option (Option FunctionHeader) := do
  match ← keywordOffset? s 0 s with
  | none => return none
  | some start => cutBehind? s start

end Offsets

end FunctionHeader

end CatalogLinker
