import CatalogLinker.Markup.Error

namespace CatalogLinker.Markup.Entity

def named : List (String × Char) :=
  [("lt", '<'), ("gt", '>'), ("amp", '&'), ("apos", '\''), ("quot", '"')]

def hexValue? (c : Char) : Option Nat :=
  if c.isDigit then some (c.toNat - '0'.toNat)
  else if 'a' ≤ c ∧ c ≤ 'f' then some (c.toNat - 'a'.toNat + 10)
  else if 'A' ≤ c ∧ c ≤ 'F' then some (c.toNat - 'A'.toNat + 10)
  else none

def decimalValue? (c : Char) : Option Nat :=
  if c.isDigit then some (c.toNat - '0'.toNat) else none

def number (base : Nat) (value? : Char → Option Nat) (n : Nat) :
    List Char → Except Char Nat
  | [] => .ok n
  | c :: s =>
    match value? c with
    | some d => number base value? (base * n + d) s
    | none => .error c

def code (digits : List Char) : Except EntityError Nat :=
  match digits with
  | 'x' :: digits =>
    if Text.byteLength digits > 6 then .error .tooLongHexadecimal
    else (number 16 hexValue? 0 digits).mapError fun c => .invalidHexadecimal (Text.leadByte c)
  | digits =>
    if Text.byteLength digits > 7 then .error .tooLongDecimal
    else (number 10 decimalValue? 0 digits).mapError fun c => .invalidDecimal (Text.leadByte c)

def ofCode? (n : Nat) : Option Char :=
  if n.isValidChar then some (Char.ofNat n) else none

def resolve (start stop : Nat) (name : List Char) : Except EntityError Char :=
  match name with
  | '#' :: digits => do
    let n ← code digits
    if n = 0 then throw (.null start stop)
    match ofCode? n with
    | some c => return c
    | none => throw (.invalidCodepoint n)
  | _ =>
    match named.lookup (String.ofList name) with
    | some c => .ok c
    | none => .error (.unknown (start + 1) stop name)

/-- Reads on at a position of a text with `total` bytes; inside an entity, `entity` holds where it
starts and its name so far, in reverse. -/
def decodeFrom (total : Nat) (position : Nat) (entity : Option (Nat × List Char)) :
    List Char → Except EntityError (List Char)
  | [] =>
    match entity with
    | none => .ok []
    | some (start, _) => .error (.unterminated start total)
  | c :: s =>
    let next := position + c.utf8Size
    match entity with
    | none =>
      if c = '&' then decodeFrom total next (some (position, [])) s
      else (decodeFrom total next none s).map (c :: ·)
    | some (start, name) =>
      if c = '&' then .error (.unterminated start total)
      else if c = ';' then do
        let x ← resolve start position name.reverse
        let rest ← decodeFrom total next none s
        return x :: rest
      else decodeFrom total next (some (start, c :: name)) s

def decode (s : List Char) : Except EntityError (List Char) :=
  decodeFrom (Text.byteLength s) 0 none s

def encodeChar (c : Char) : List Char :=
  match named.find? (·.2 = c) with
  | some (name, _) => '&' :: name.toList ++ [';']
  | none => [c]

def encode (s : List Char) : List Char :=
  s.flatMap encodeChar

end CatalogLinker.Markup.Entity
