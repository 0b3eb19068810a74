import CatalogLinker.Catalog.Literal
import CatalogLinker.Markup.Entity
import Mathlib.Data.List.Forall2

namespace CatalogLinker.Json

open Markup.Entity (hexValue?)

def shortEscapes : List (Char × Char) :=
  [('"', '"'), ('\\', '\\'), ('/', '/'), ('b', '\x08'), ('f', '\x0c'), ('n', '\n'), ('r', '\r'),
    ('t', '\t')]

def code? (w x y z : Char) : Option Nat := do
  let w ← hexValue? w
  let x ← hexValue? x
  let y ← hexValue? y
  let z ← hexValue? z
  return ((w * 16 + x) * 16 + y) * 16 + z

def isHigh (n : Nat) : Bool :=
  0xD800 ≤ n && n < 0xDC00

def isLow (n : Nat) : Bool :=
  0xDC00 ≤ n && n < 0xE000

def ofPair (n m : Nat) : Char :=
  Char.ofNat (0x10000 + (n - 0xD800) * 0x400 + (m - 0xDC00))

def isPlain (c : Char) : Bool :=
  0x20 ≤ c.toNat && c != '"' && c != '\\'

/-- The ways to write a character between quotes. -/
inductive Spells : List Char → Char → Prop
  | plain {c : Char} : isPlain c → Spells [c] c
  | short {e c : Char} : (e, c) ∈ shortEscapes → Spells ['\\', e] c
  | code {w x y z : Char} {n : Nat} : code? w x y z = some n → n.isValidChar →
      Spells ['\\', 'u', w, x, y, z] (Char.ofNat n)
  | pair {w x y z w' x' y' z' : Char} {n m : Nat} : code? w x y z = some n → isHigh n →
      code? w' x' y' z' = some m → isLow m →
      Spells ['\\', 'u', w, x, y, z, '\\', 'u', w', x', y', z'] (ofPair n m)

def IsString (t s : List Char) : Prop :=
  ∃ parts, t = '"' :: parts.flatten ++ ['"'] ∧ List.Forall₂ Spells parts s

def low? (n : Nat) : List Char → Option (Char × List Char)
  | '\\' :: 'u' :: w :: x :: y :: z :: s =>
    (code? w x y z).bind fun m => if isLow m then some (ofPair n m, s) else none
  | _ => none

def char? : List Char → Option (Char × List Char)
  | '\\' :: 'u' :: w :: x :: y :: z :: s =>
    (code? w x y z).bind fun n =>
      if n.isValidChar then some (Char.ofNat n, s) else if isHigh n then low? n s else none
  | '\\' :: e :: s => (shortEscapes.lookup e).map fun c => (c, s)
  | c :: s => if isPlain c then some (c, s) else none
  | [] => none

/-- The characters up to the closing quote; a literal of `n` characters with its quote is read. -/
def chars? : Nat → List Char → Option (List Char × List Char)
  | 0, _ => none
  | n + 1, s =>
    if s.head? = some '"' then some ([], s.tail)
    else (char? s).bind fun (c, rest) =>
      (chars? n rest).map fun (cs, rest) => (c :: cs, rest)

def string? : List Char → Option (List Char × List Char)
  | '"' :: s => chars? s.length s
  | _ => none

variable {s t rest part : List Char} {parts : List (List Char)} {c e : Char} {n : Nat}

theorem low?_eq_some_iff : low? n s = some (c, rest) ↔
    ∃ w x y z m, s = '\\' :: 'u' :: w :: x :: y :: z :: rest ∧ code? w x y z = some m ∧ isLow m ∧
      c = ofPair n m := by
  constructor
  · intro h
    unfold low? at h
    split at h
    · rename_i w x y z s
      obtain ⟨m, hm, h⟩ := Option.bind_eq_some_iff.1 h
      split_ifs at h with hlow
      simp only [Option.some.injEq, Prod.mk.injEq] at h
      obtain ⟨hc, rfl⟩ := h
      exact ⟨w, x, y, z, m, rfl, hm, hlow, hc.symm⟩
    · simp at h
  · rintro ⟨w, x, y, z, m, rfl, hm, hlow, hc⟩
    simp [low?, hm, hlow, hc]

theorem not_isValidChar_of_isHigh (h : isHigh n) : ¬n.isValidChar := by
  simp only [isHigh, Bool.and_eq_true, decide_eq_true_eq] at h
  simp only [Nat.isValidChar, not_or, not_and]
  omega

theorem lookup_shortEscapes : shortEscapes.lookup e = some c ↔ (e, c) ∈ shortEscapes := by
  constructor
  · intro h
    obtain ⟨before, after, heq, -⟩ := List.lookup_eq_some_iff.1 h
    rw [heq]
    exact List.mem_append_right before List.mem_cons_self
  · intro h
    simp only [shortEscapes, List.mem_cons, Prod.mk.injEq, List.not_mem_nil, or_false] at h
    obtain ⟨rfl, rfl⟩ | ⟨rfl, rfl⟩ | ⟨rfl, rfl⟩ | ⟨rfl, rfl⟩ | ⟨rfl, rfl⟩ | ⟨rfl, rfl⟩ |
      ⟨rfl, rfl⟩ | ⟨rfl, rfl⟩ := h <;> rfl

theorem char?_eq_some_iff :
    char? s = some (c, rest) ↔ ∃ part, s = part ++ rest ∧ Spells part c := by
  constructor
  · intro h
    unfold char? at h
    split at h
    · rename_i w x y z s
      obtain ⟨n, hn, h⟩ := Option.bind_eq_some_iff.1 h
      split_ifs at h with hvalid hhigh
      · simp only [Option.some.injEq, Prod.mk.injEq] at h
        obtain ⟨rfl, rfl⟩ := h
        exact ⟨_, rfl, .code hn hvalid⟩
      · obtain ⟨w', x', y', z', m, rfl, hm, hlow, hc⟩ := low?_eq_some_iff.1 h
        rw [hc]
        exact ⟨_, rfl, .pair hn hhigh hm hlow⟩
    · rename_i e s _
      obtain ⟨c', hc', h⟩ := Option.map_eq_some_iff.1 h
      obtain ⟨rfl, rfl⟩ := Prod.mk.inj h
      exact ⟨_, rfl, .short (lookup_shortEscapes.1 hc')⟩
    · rename_i c' s _ _
      split_ifs at h with hplain
      obtain ⟨rfl, rfl⟩ := Prod.mk.inj (Option.some.inj h)
      exact ⟨_, rfl, .plain hplain⟩
    · simp at h
  · rintro ⟨part, rfl, hpart⟩
    cases hpart with
    | plain hplain =>
      have hne : c ≠ '\\' := by
        rintro rfl
        exact absurd hplain (by decide)
      simp [char?, hplain, hne]
    | @short e c h =>
      have he : e ≠ 'u' := by
        rintro rfl
        simp [shortEscapes] at h
      simp [char?, lookup_shortEscapes.2 h, he]
    | code hn hvalid => simp [char?, hn, hvalid]
    | pair hn hhigh hm hlow =>
      simp [char?, hn, hhigh, not_isValidChar_of_isHigh hhigh, low?, hm, hlow]

theorem Spells.exists_cons (h : Spells part c) : ∃ a tail, part = a :: tail ∧ a ≠ '"' := by
  cases h with
  | plain hplain =>
    refine ⟨_, _, rfl, ?_⟩
    rintro rfl
    exact absurd hplain (by decide)
  | short => exact ⟨_, _, rfl, by decide⟩
  | code => exact ⟨_, _, rfl, by decide⟩
  | pair => exact ⟨_, _, rfl, by decide⟩

theorem chars?_of_spells (h : List.Forall₂ Spells parts s) (hn : s.length < n) :
    chars? n (parts.flatten ++ '"' :: rest) = some (s, rest) := by
  induction h generalizing n with
  | nil =>
    obtain ⟨n, rfl⟩ := Nat.exists_eq_succ_of_ne_zero (by omega : n ≠ 0)
    rfl
  | @cons part c parts s hpart _ ih =>
    obtain ⟨n, rfl⟩ := Nat.exists_eq_succ_of_ne_zero (by omega : n ≠ 0)
    obtain ⟨a, tail, ha, hquote⟩ := hpart.exists_cons
    have hhead : (part ++ (parts.flatten ++ '"' :: rest)).head? ≠ some '"' := by
      simpa [ha] using hquote
    have hchar : char? (part ++ (parts.flatten ++ '"' :: rest)) =
        some (c, parts.flatten ++ '"' :: rest) := char?_eq_some_iff.2 ⟨part, rfl, hpart⟩
    have hrest := ih (n := n) (by simpa using hn)
    rw [List.flatten_cons, List.append_assoc, chars?, if_neg hhead, hchar]
    simp only [Option.bind_some, hrest, Option.map_some]

theorem spells_of_chars? (h : chars? n t = some (s, rest)) :
    ∃ parts, t = parts.flatten ++ '"' :: rest ∧ List.Forall₂ Spells parts s := by
  induction n generalizing t s with
  | zero => simp [chars?] at h
  | succ n ih =>
    rw [chars?] at h
    split_ifs at h with hquote
    · obtain ⟨rfl, rfl⟩ := Prod.mk.inj (Option.some.inj h)
      exact ⟨[], List.eq_cons_of_mem_head? hquote, .nil⟩
    · obtain ⟨⟨c, t'⟩, hchar, h⟩ := Option.bind_eq_some_iff.1 h
      obtain ⟨⟨s', rest'⟩, hrest, h⟩ := Option.map_eq_some_iff.1 h
      obtain ⟨rfl, rfl⟩ := Prod.mk.inj h
      obtain ⟨part, rfl, hpart⟩ := char?_eq_some_iff.1 hchar
      obtain ⟨parts, rfl, hparts⟩ := ih hrest
      exact ⟨part :: parts, by simp, .cons hpart hparts⟩

theorem length_le_of_spells (h : List.Forall₂ Spells parts s) :
    s.length ≤ parts.flatten.length := by
  induction h with
  | nil => exact Nat.le_refl _
  | cons hpart _ ih =>
    obtain ⟨a, tail, rfl, -⟩ := hpart.exists_cons
    simp only [List.length_cons, List.flatten_cons, List.length_append]
    omega

theorem string?_eq_some_iff : string? t = some (s, rest) ↔
    ∃ lit, t = lit ++ rest ∧ IsString lit s := by
  constructor
  · intro h
    unfold string? at h
    split at h
    · obtain ⟨parts, rfl, hparts⟩ := spells_of_chars? h
      exact ⟨_, by simp, parts, rfl, hparts⟩
    · simp at h
  · rintro ⟨lit, rfl, parts, rfl, hparts⟩
    have hlength : s.length < (parts.flatten ++ '"' :: rest).length := by
      have hle := length_le_of_spells hparts
      simp only [List.length_append, List.length_cons]
      omega
    have hread : chars? (parts.flatten ++ '"' :: rest).length (parts.flatten ++ '"' :: rest) =
        some (s, rest) := chars?_of_spells hparts hlength
    simpa [string?] using hread

theorem IsString.unique {s' : List Char} (h : IsString t s) (h' : IsString t s') : s = s' := by
  have hread : string? t = some (s, []) := string?_eq_some_iff.2 ⟨t, by simp, h⟩
  have hread' : string? t = some (s', []) := string?_eq_some_iff.2 ⟨t, by simp, h'⟩
  exact (Prod.mk.inj (Option.some.inj (hread.symm.trans hread'))).1

theorem code?_of_control (hn : n < 0x20) :
    code? '0' '0' (Literal.hexDigit (n / 16)) (Literal.hexDigit (n % 16)) = some n := by
  revert n
  decide

theorem spells_escape (c : Char) : Spells (Literal.escape c) c := by
  unfold Literal.escape
  split_ifs with hquote hbackslash hnewline hreturn htab hcontrol
  · subst hquote
    exact .short (by decide)
  · subst hbackslash
    exact .short (by decide)
  · subst hnewline
    exact .short (by decide)
  · subst hreturn
    exact .short (by decide)
  · subst htab
    exact .short (by decide)
  · have hcode := Spells.code (code?_of_control hcontrol) (.inl (by omega))
    rwa [Char.ofNat_toNat] at hcode
  · refine .plain ?_
    simp only [isPlain, Bool.and_eq_true, decide_eq_true_eq, bne_iff_ne]
    exact ⟨⟨by omega, hquote⟩, hbackslash⟩

/-- A quoted string is a literal that writes the string. -/
theorem isString_quote (s : List Char) : IsString (Literal.quote s) s := by
  refine ⟨s.map Literal.escape, by rw [Literal.quote, List.flatMap_def], ?_⟩
  rw [List.forall₂_map_left_iff]
  exact List.forall₂_same.2 fun c _ => spells_escape c

end CatalogLinker.Json
