import CatalogLinker.Name
import CatalogLinker.Text.Search

namespace CatalogLinker

inductive Slot where
  | deps
  | sig
  | proxy
  | asm
  | inlined
  | postset
deriving DecidableEq, Repr

namespace Slot

def all : List Slot :=
  [deps, sig, proxy, asm, inlined, postset]

def suffixText : Slot → String
  | deps => "__deps"
  | sig => "__sig"
  | proxy => "__proxy"
  | asm => "__asm"
  | inlined => "__inline"
  | postset => "__postset"

/-- The identifier in front of the slot's suffix, if the key ends in it and the identifier is not
empty. -/
def ident? (s : Slot) (key : String) : Option Ident :=
  match Text.before? s.suffixText.toList key.toList with
  | some (c :: rest) => some ⟨String.ofList (c :: rest)⟩
  | _ => none

end Slot

inductive CatalogKey where
  | entry (ident : Ident)
  | metadata (ident : Ident) (slot : Slot)
deriving DecidableEq, Repr

namespace CatalogKey

def ofText (key : String) : CatalogKey :=
  match Slot.all.findSome? fun s => (s.ident? key).map (CatalogKey.metadata · s) with
  | some k => k
  | none => .entry ⟨key⟩

def ident : CatalogKey → Ident
  | .entry i => i
  | .metadata i _ => i

def slot? : CatalogKey → Option Slot
  | .entry _ => none
  | .metadata _ s => some s

def text : CatalogKey → String
  | .entry i => i.text
  | .metadata i s => i.text ++ s.suffixText

end CatalogKey

def Ident.isMetadataKey (i : Ident) : Bool :=
  (CatalogKey.ofText i.text).slot?.isSome

end CatalogLinker
