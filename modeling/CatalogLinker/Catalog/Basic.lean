import CatalogLinker.Catalog.Item
import CatalogLinker.Catalog.Key
import CatalogLinker.Text.Blank

namespace CatalogLinker

inductive CatalogValue where
  | function (code : String)
  | text (code : String)
  | aliasOf (target : Ident)
  | structured (value : Literal)
  | list (idents : List Ident)
  | flag (isSet : Bool)
  | postset (value : Postset)
deriving Inhabited

namespace CatalogValue

def shape : CatalogValue → String
  | function _ => "function"
  | text _ => "text"
  | aliasOf _ => "alias"
  | structured _ => "structured value"
  | list _ => "list"
  | flag _ => "flag"
  | postset _ => "postset"

def entry? : CatalogValue → Option Entry
  | function code => some (.body code)
  | text code => some (.raw code)
  | aliasOf target => some (.aliasOf target)
  | structured value => some (.structured value)
  | list _ => none
  | flag _ => none
  | postset _ => none

end CatalogValue

namespace Slot

def accepts : Slot → String
  | deps => "list"
  | sig => "text"
  | proxy => "text"
  | asm => "flag"
  | inlined => "any value"
  | postset => "postset or text"

/-- Writes a value into the slot of an item, if the slot accepts its shape. Only a flag that is not
set clears the inline marker; every other value sets it. -/
def write? (s : Slot) (v : CatalogValue) (x : Item) : Option Item :=
  match s, v with
  | deps, .list is => some { x with deps := is }
  | sig, .text t => some { x with sig := some (Text.trim t) }
  | proxy, .text t => some { x with proxy := some (Text.trim t) }
  | asm, .flag b => some { x with inCompiledSection := b }
  | inlined, .flag b => some { x with isInline := b }
  | inlined, _ => some { x with isInline := true }
  | postset, .postset d => some { x with postset := some d }
  | postset, .text t => some { x with postset := some (.ofText t) }
  | _, _ => none

end Slot

structure ShapeError where
  key : String
  found : String
  expected : String
deriving DecidableEq, Repr

namespace ShapeError

def message (e : ShapeError) : String :=
  "catalog key `" ++ e.key ++ "` expects " ++ e.expected ++ ", but found " ++ e.found

end ShapeError

/-- Items under their identifiers. `order` records the identifiers that became defined, oldest
first. -/
structure Catalog where
  items : List (Ident × Item) := []
  order : List Ident := []
deriving Inhabited

namespace Catalog

def empty : Catalog := {}

def itemIn (i : Ident) : List (Ident × Item) → Option Item
  | [] => none
  | (j, x) :: rest => if j = i then some x else itemIn i rest

def get? (c : Catalog) (i : Ident) : Option Item :=
  itemIn i c.items

def item (c : Catalog) (i : Ident) : Item :=
  (c.get? i).getD {}

theorem mem_of_itemIn {i : Ident} {x : Item} {items : List (Ident × Item)}
    (h : itemIn i items = some x) : (i, x) ∈ items := by
  induction items with
  | nil => simp [itemIn] at h
  | cons p rest ih =>
    obtain ⟨j, y⟩ := p
    by_cases hj : j = i <;> simp_all [itemIn]

theorem mem_items_of_get? {c : Catalog} {i : Ident} {x : Item} (h : c.get? i = some x) :
    (i, x) ∈ c.items :=
  mem_of_itemIn h

def contains (c : Catalog) (i : Ident) : Bool :=
  (c.get? i).isSome

def isDefined (c : Catalog) (i : Ident) : Bool :=
  (c.item i).isDefined

def idents (c : Catalog) : List Ident :=
  c.order.filter c.isDefined

def size (c : Catalog) : Nat :=
  c.order.length

def isEmpty (c : Catalog) : Bool :=
  c.order.isEmpty

def putItem (i : Ident) (x : Item) : List (Ident × Item) → List (Ident × Item)
  | [] => [(i, x)]
  | (j, y) :: rest => if j = i then (i, x) :: rest else (j, y) :: putItem i x rest

def put (c : Catalog) (i : Ident) (x : Item) : Catalog :=
  { c with items := putItem i x c.items }

theorem itemIn_putItem (i j : Ident) (x : Item) (items : List (Ident × Item)) :
    itemIn j (putItem i x items) = if i = j then some x else itemIn j items := by
  induction items with
  | nil => simp [putItem, itemIn]
  | cons p rest ih =>
    obtain ⟨k, y⟩ := p
    by_cases hk : k = i <;> by_cases hi : i = j <;> by_cases hj : k = j <;>
      simp_all [putItem, itemIn]

theorem get?_put (c : Catalog) (i j : Ident) (x : Item) :
    (c.put i x).get? j = if i = j then some x else c.get? j :=
  itemIn_putItem i j x c.items

/-- Replaces the item of an identifier and appends the identifier to the order if it was not defined
before. -/
def define (c : Catalog) (i : Ident) (x : Item) : Catalog :=
  { c.put i x with order := if c.isDefined i then c.order else c.order ++ [i] }

def defineEntry (c : Catalog) (i : Ident) (e : Entry) : Catalog :=
  c.define i { c.item i with entry := some e }

def defineInline (c : Catalog) (i : Ident) : Catalog :=
  c.define i { c.item i with isInline := true }

/-- Inserts a value under a key, if the key accepts its shape; and what it is refused with. -/
def tryInsert (c : Catalog) (key : String) (v : CatalogValue) : Catalog × Except ShapeError Unit :=
  match CatalogKey.ofText key with
  | .entry i =>
    match v.entry? with
    | some e => (c.defineEntry i e, .ok ())
    | none => (c, .error ⟨key, v.shape, "function, text, alias, or structured value"⟩)
  | .metadata i s =>
    match s.write? v (c.item i) with
    | some x => (c.put i x, .ok ())
    | none => (c, .error ⟨key, v.shape, s.accepts⟩)

def insert (c : Catalog) (key : String) (v : CatalogValue) : Except ShapeError Catalog :=
  let (c, result) := c.tryInsert key v
  result.map fun _ => c

end Catalog

end CatalogLinker
