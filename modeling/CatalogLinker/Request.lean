import CatalogLinker.Name
import CatalogLinker.Text.Search

namespace CatalogLinker

inductive ValueKind where
  | void
  | i32
  | i64
  | f32
  | f64
deriving DecidableEq, Repr

namespace ValueKind

def code : ValueKind → Char
  | void => 'v'
  | i32 => 'i'
  | i64 => 'j'
  | f32 => 'f'
  | f64 => 'd'

def ofCode? (c : Char) : Option ValueKind :=
  if c = 'v' then some void
  else if c = 'i' then some i32
  else if c = 'j' then some i64
  else if c = 'f' then some f32
  else if c = 'd' then some f64
  else none

theorem ofCode?_code (k : ValueKind) : ofCode? k.code = some k := by
  cases k <;> decide

theorem code_of_ofCode? {c : Char} {k : ValueKind} (h : ofCode? c = some k) : k.code = c := by
  unfold ofCode? at h
  grind [code]

end ValueKind

inductive RequestError where
  | emptyIdent (request : String)
  | emptySignature (request : String)
  | invalidKind (request : String) (code : Char)
deriving DecidableEq, Repr

namespace RequestError

def message : RequestError → String
  | emptyIdent r => "missing identifier in `" ++ r ++ "`"
  | emptySignature r => "empty signature in `" ++ r ++ "`"
  | invalidKind r c =>
    "invalid signature character `" ++ String.singleton c ++ "` in `" ++ r
      ++ "`; expected one of `v`, `i`, `j`, `f`, `d`"

end RequestError

structure Request where
  ident : Ident
  ret : Option ValueKind := none
  params : Option (List ValueKind) := none
deriving DecidableEq, Inhabited, Repr

namespace Request

def signature (r : Request) : Option String :=
  match r.ret, r.params with
  | some ret, some params => some (String.ofList ((ret :: params).map ValueKind.code))
  | _, _ => none

def text (r : Request) : String :=
  match r.signature with
  | some sig => r.ident.text ++ ":" ++ sig
  | none => r.ident.text

def kinds : List Char → Except Char (List ValueKind)
  | [] => .ok []
  | c :: s =>
    match ValueKind.ofCode? c with
    | none => .error c
    | some k => (kinds s).map (k :: ·)

/-- Reads a request: an identifier, or an identifier, a colon and a signature, which has one letter
for the kind of the result and one for that of each parameter. -/
def ofText (s : String) : Except RequestError Request :=
  let (ident, sig) := match Text.cutAt? ':' s.toList with
    | some (ident, sig) => (ident, some sig)
    | none => (s.toList, none)
  if ident.isEmpty then .error (.emptyIdent s)
  else match sig with
    | none => .ok { ident := ⟨String.ofList ident⟩ }
    | some sig =>
      match kinds sig with
      | .error c => .error (.invalidKind s c)
      | .ok [] => .error (.emptySignature s)
      | .ok (ret :: params) => .ok ⟨⟨String.ofList ident⟩, some ret, some params⟩

end Request

end CatalogLinker
