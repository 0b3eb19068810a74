import CatalogLinker.Proofs.Catalog.JsonString
import CatalogLinker.Proofs.Text.Search
import Mathlib.Data.List.Basic

namespace CatalogLinker

namespace Literal

open Text

inductive Plain : Literal → Prop
  | str {text : String} : Plain (.str text)
  | array {items : List Literal} : (∀ v ∈ items, Plain v) → Plain (.array items)
  | object {members : List (String × Literal)} : (∀ m ∈ members, Plain m.2) →
      Plain (.object members)

def IsBareKey (k : List Char) : Prop :=
  ∃ c rest, k = c :: rest ∧ isKeyStart c ∧ ∀ d ∈ rest, isKeyRest d

def WritesKey (t k : List Char) : Prop :=
  t = k ∧ IsBareKey k ∨ Json.IsString t k

structure WrittenMember where
  keyText : List Char
  key : String
  valueText : List Char
  value : Literal

namespace WrittenMember

def chars (m : WrittenMember) : List Char :=
  m.keyText ++ ':' :: m.valueText

def member (m : WrittenMember) : String × Literal :=
  (m.key, m.value)

def part (m : WrittenMember) : List Char × (String × Literal) :=
  (m.chars, m.member)

theorem fst_comp_part : Prod.fst ∘ part = chars := rfl

theorem snd_comp_part : Prod.snd ∘ part = member := rfl

end WrittenMember

inductive Written : List Char → Literal → Prop
  | str {t : List Char} {s : String} : Json.IsString t s.toList → Written t (.str s)
  | array {parts : List (List Char × Literal)} : (∀ p ∈ parts, Written p.1 p.2) →
      Written ('[' :: ([','].intercalate (parts.map Prod.fst) ++ [']']))
        (.array (parts.map Prod.snd))
  | object {ms : List WrittenMember} : (∀ m ∈ ms, WritesKey m.keyText m.key.toList) →
      (∀ m ∈ ms, Written m.valueText m.value) →
      Written ('{' :: ([','].intercalate (ms.map WrittenMember.chars) ++ ['}']))
        (.object (ms.map WrittenMember.member))

section Separated

variable {α : Type} (element? : List Char → Option (α × List Char)) (close : Char)

def elements? : Nat → List Char → Option (List α × List Char)
  | 0, _ => none
  | n + 1, s =>
    (element? s).bind fun (x, rest) =>
      if rest.head? = some close then some ([x], rest.tail)
      else (after? [','] rest).bind fun rest =>
        (elements? n rest).map fun (xs, rest) => (x :: xs, rest)

def separated? (n : Nat) (s : List Char) : Option (List α × List Char) :=
  if s.head? = some close then some ([], s.tail) else elements? element? close n s

end Separated

def key? : List Char → Option (List Char × List Char)
  | [] => none
  | c :: s =>
    if isKeyStart c then some (c :: s.takeWhile isKeyRest, s.dropWhile isKeyRest)
    else Json.string? (c :: s)

def member? (value? : List Char → Option (Literal × List Char)) (s : List Char) :
    Option ((String × Literal) × List Char) := do
  let (k, rest) ← key? s
  let rest ← after? [':'] rest
  let (v, rest) ← value? rest
  return ((String.ofList k, v), rest)

def value? : Nat → List Char → Option (Literal × List Char)
  | 0, _ => none
  | n + 1, s =>
    match s with
    | '"' :: _ => (Json.string? s).map fun (t, rest) => (.str (String.ofList t), rest)
    | '[' :: s => (separated? (value? n) ']' n s).map fun (vs, rest) => (.array vs, rest)
    | '{' :: s => (separated? (member? (value? n)) '}' n s).map fun (ms, rest) => (.object ms, rest)
    | _ => none

def decode? (t : String) : Option Literal :=
  match value? t.toList.length t.toList with
  | some (v, []) => some v
  | _ => none

section Separated

variable {α : Type} {element? : List Char → Option (α × List Char)} {close : Char}

/-- An element that is read off every text that starts with it. -/
def Reads (element? : List Char → Option (α × List Char)) (t : List Char) (x : α) : Prop :=
  ∀ rest, element? (t ++ rest) = some (x, rest)

theorem elements?_intercalate (hclose : close ≠ ',') {p : List Char × α}
    {parts : List (List Char × α)} (h : ∀ q ∈ p :: parts, Reads element? q.1 q.2) {n : Nat}
    (hn : parts.length < n) (rest : List Char) :
    elements? element? close n ([','].intercalate ((p :: parts).map Prod.fst) ++ close :: rest) =
      some ((p :: parts).map Prod.snd, rest) := by
  induction parts generalizing p n with
  | nil =>
    obtain ⟨n, rfl⟩ := Nat.exists_eq_succ_of_ne_zero (by omega : n ≠ 0)
    have hp := h p List.mem_cons_self (close :: rest)
    simp [elements?, hp]
  | cons q parts ih =>
    obtain ⟨n, rfl⟩ := Nat.exists_eq_succ_of_ne_zero (by omega : n ≠ 0)
    have hrest := ih (fun r hr => h r (List.mem_cons_of_mem p hr)) (n := n) (by simpa using hn)
    have hp := h p List.mem_cons_self
      (',' :: ([','].intercalate ((q :: parts).map Prod.fst) ++ close :: rest))
    have htext : [','].intercalate ((p :: q :: parts).map Prod.fst) ++ close :: rest =
        p.1 ++ ',' :: ([','].intercalate ((q :: parts).map Prod.fst) ++ close :: rest) := by
      simp [List.intercalate_cons_cons]
    have hcomma : ¬some ',' = some close := fun h => hclose (Option.some.inj h).symm
    rw [htext, elements?, hp]
    simp only [Option.bind_some, List.head?_cons, if_neg hcomma, after?, if_true, hrest,
      Option.map_some]
    rfl

theorem separated?_intercalate (hclose : close ≠ ',') {parts : List (List Char × α)}
    (hstart : ∀ p ∈ parts, ∃ c t, p.1 = c :: t ∧ c ≠ close)
    (h : ∀ p ∈ parts, Reads element? p.1 p.2) {n : Nat} (hn : parts.length ≤ n)
    (rest : List Char) :
    separated? element? close n ([','].intercalate (parts.map Prod.fst) ++ close :: rest) =
      some (parts.map Prod.snd, rest) := by
  cases parts with
  | nil => simp [separated?]
  | cons p parts =>
    obtain ⟨c, t, ht, hc⟩ := hstart p List.mem_cons_self
    have hhead : ([','].intercalate ((p :: parts).map Prod.fst) ++ close :: rest).head? ≠
        some close := by
      cases parts <;> simp [ht, hc, List.intercalate_cons_cons]
    rw [separated?, if_neg hhead, elements?_intercalate hclose h hn]

theorem parts_of_elements? {R : List Char → α → Prop}
    (hsound : ∀ s x rest, element? s = some (x, rest) → ∃ t, s = t ++ rest ∧ R t x) {n : Nat}
    {s rest : List Char} {xs : List α} (h : elements? element? close n s = some (xs, rest)) :
    ∃ parts : List (List Char × α), xs = parts.map Prod.snd ∧ (∀ p ∈ parts, R p.1 p.2) ∧
      parts ≠ [] ∧ s = [','].intercalate (parts.map Prod.fst) ++ close :: rest := by
  induction n generalizing s xs with
  | zero => simp [elements?] at h
  | succ n ih =>
    rw [elements?] at h
    obtain ⟨⟨x, s'⟩, hx, hrest⟩ := Option.bind_eq_some_iff.1 h
    obtain ⟨t, rfl, ht⟩ := hsound s x s' hx
    dsimp only at hrest
    split_ifs at hrest with hend
    · obtain ⟨rfl, rfl⟩ := Prod.mk.inj (Option.some.inj hrest)
      refine ⟨[(t, x)], rfl, by simpa using ht, by simp, ?_⟩
      simpa using List.eq_cons_of_mem_head? hend
    · obtain ⟨s'', hcomma, hrest⟩ := Option.bind_eq_some_iff.1 hrest
      obtain ⟨⟨xs', rest'⟩, hxs, hrest⟩ := Option.map_eq_some_iff.1 hrest
      obtain ⟨rfl, rfl⟩ := Prod.mk.inj hrest
      obtain ⟨parts, rfl, hparts, hne, rfl⟩ := ih hxs
      obtain ⟨q, parts, rfl⟩ := List.exists_cons_of_ne_nil hne
      refine ⟨(t, x) :: q :: parts, rfl, List.forall_mem_cons.2 ⟨ht, hparts⟩, by simp, ?_⟩
      rw [after?_eq_some_iff.1 hcomma]
      simp [List.intercalate_cons_cons]

theorem parts_of_separated? {R : List Char → α → Prop}
    (hsound : ∀ s x rest, element? s = some (x, rest) → ∃ t, s = t ++ rest ∧ R t x) {n : Nat}
    {s rest : List Char} {xs : List α} (h : separated? element? close n s = some (xs, rest)) :
    ∃ parts : List (List Char × α), xs = parts.map Prod.snd ∧ (∀ p ∈ parts, R p.1 p.2) ∧
      s = [','].intercalate (parts.map Prod.fst) ++ close :: rest := by
  rw [separated?] at h
  split_ifs at h with hend
  · obtain ⟨rfl, rfl⟩ := Prod.mk.inj (Option.some.inj h)
    exact ⟨[], rfl, by simp, by simpa using List.eq_cons_of_mem_head? hend⟩
  · obtain ⟨parts, hxs, hparts, -, hs⟩ := parts_of_elements? hsound h
    exact ⟨parts, hxs, hparts, hs⟩

theorem length_le_intercalate (sep : List Char) (texts : List (List Char)) :
    (∀ t ∈ texts, t.length ≤ (sep.intercalate texts).length) ∧
      ((∀ t ∈ texts, t ≠ []) → texts.length ≤ (sep.intercalate texts).length) := by
  induction texts with
  | nil => simp
  | cons t texts ih =>
    cases texts with
    | nil => simp [Nat.one_le_iff_ne_zero]
    | cons u texts =>
      obtain ⟨hmem, hall⟩ := ih
      rw [List.intercalate_cons_cons]
      refine ⟨fun v hv => ?_, fun hne => ?_⟩
      · obtain rfl | hv := List.mem_cons.1 hv
        · simp only [List.length_append]
          omega
        · have := hmem v hv
          simp only [List.length_append]
          omega
      · have := hall fun v hv => hne v (List.mem_cons_of_mem t hv)
        have : t.length ≠ 0 := by simpa using hne t List.mem_cons_self
        simp only [List.length_append, List.length_cons] at *
        omega

theorem separated?_of_length_le (hclose : close ≠ ',') {parts : List (List Char × α)}
    (hstart : ∀ p ∈ parts, ∃ c t, p.1 = c :: t ∧ c ≠ close) {n : Nat}
    (hn : ([','].intercalate (parts.map Prod.fst)).length ≤ n)
    (h : ∀ p ∈ parts, p.1.length ≤ n → Reads element? p.1 p.2) (rest : List Char) :
    separated? element? close n ([','].intercalate (parts.map Prod.fst) ++ close :: rest) =
      some (parts.map Prod.snd, rest) := by
  obtain ⟨hlength, hcount⟩ := length_le_intercalate [','] (parts.map Prod.fst)
  rw [List.forall_mem_map] at hlength hcount
  rw [List.length_map] at hcount
  have hne : ∀ p ∈ parts, p.1 ≠ [] := by
    intro p hp
    obtain ⟨c, t, ht, -⟩ := hstart p hp
    simp [ht]
  exact separated?_intercalate hclose hstart (fun p hp => h p hp ((hlength p hp).trans hn))
    ((hcount hne).trans hn) rest

end Separated

variable {s t rest k : List Char} {v : Literal} {n : Nat}

theorem not_isKeyStart_quote : isKeyStart '"' = false := by decide

theorem writesKey_of_key? (h : key? s = some (k, rest)) : ∃ t, s = t ++ rest ∧ WritesKey t k := by
  unfold key? at h
  split at h
  · simp at h
  · rename_i c s
    split_ifs at h with hc
    · obtain ⟨rfl, rfl⟩ := Prod.mk.inj (Option.some.inj h)
      refine ⟨_, by simp [List.takeWhile_append_dropWhile], .inl ⟨rfl, c, _, rfl, hc, ?_⟩⟩
      exact fun d hd => List.mem_takeWhile_imp hd
    · obtain ⟨lit, hs, hlit⟩ := Json.string?_eq_some_iff.1 h
      exact ⟨lit, hs, .inr hlit⟩

theorem WritesKey.key? (h : WritesKey t k) {c : Char} (hc : isKeyRest c = false) :
    key? (t ++ c :: rest) = some (k, c :: rest) := by
  obtain ⟨rfl, d, t, rfl, hd, ht⟩ | h := h
  · have hrest : (t ++ c :: rest).takeWhile isKeyRest = t ∧
        (t ++ c :: rest).dropWhile isKeyRest = c :: rest := by
      rw [List.takeWhile_append_of_pos ht, List.dropWhile_append_of_pos ht]
      simp [hc]
    rw [List.cons_append, Literal.key?, if_pos hd, hrest.1, hrest.2]
  · have hread : Json.string? (t ++ c :: rest) = some (k, c :: rest) :=
      Json.string?_eq_some_iff.2 ⟨t, rfl, h⟩
    obtain ⟨parts, rfl, -⟩ := h
    simpa [Literal.key?, not_isKeyStart_quote] using hread

theorem WritesKey.exists_cons (h : WritesKey t k) : ∃ c u, t = c :: u ∧ c ≠ '\x7d' := by
  obtain ⟨rfl, c, u, rfl, hc, -⟩ | ⟨parts, rfl, -⟩ := h
  · refine ⟨c, u, rfl, ?_⟩
    rintro rfl
    exact absurd hc (by decide)
  · exact ⟨_, _, rfl, by decide⟩

theorem WritesKey.exists_cons_member {m : WrittenMember} (h : WritesKey m.keyText k) :
    ∃ c u, m.chars = c :: u ∧ c ≠ '\x7d' := by
  obtain ⟨c, u, hu, hc⟩ := h.exists_cons
  exact ⟨c, u ++ ':' :: m.valueText, by simp [WrittenMember.chars, hu], hc⟩

theorem Written.exists_cons (h : Written t v) : ∃ c u, t = c :: u ∧ c ≠ ']' := by
  cases h with
  | str h =>
    obtain ⟨parts, rfl, -⟩ := h
    exact ⟨_, _, rfl, by decide⟩
  | array => exact ⟨_, _, rfl, by decide⟩
  | object => exact ⟨_, _, rfl, by decide⟩

theorem WritesKey.reads_member {value? : List Char → Option (Literal × List Char)}
    {m : WrittenMember} (hkey : WritesKey m.keyText m.key.toList)
    (hvalue : Reads value? m.valueText m.value) : Reads (member? value?) m.chars m.member := by
  intro rest
  have hk : Literal.key? (m.keyText ++ ':' :: (m.valueText ++ rest)) =
      some (m.key.toList, ':' :: (m.valueText ++ rest)) := hkey.key? (by decide)
  rw [WrittenMember.chars, List.append_assoc, List.cons_append, member?, hk]
  simp [after?, hvalue rest, WrittenMember.member]

/-- A value is read off every text that starts with it. -/
theorem Written.reads (h : Written t v) (hn : t.length ≤ n) : Reads (value? n) t v := by
  induction h generalizing n with
  | @str t s h =>
    intro rest
    obtain ⟨parts, rfl, hparts⟩ := h
    obtain ⟨n, rfl⟩ := Nat.exists_eq_succ_of_ne_zero (n := n) (by rintro rfl; simp at hn)
    have hread : Json.string? ('"' :: (parts.flatten ++ ['"'] ++ rest)) = some (s.toList, rest) :=
      Json.string?_eq_some_iff.2 ⟨_, rfl, parts, rfl, hparts⟩
    rw [List.cons_append, List.cons_append, value?, hread]
    simp
  | @array parts h ih =>
    intro rest
    simp only [List.length_cons, List.length_append, List.length_nil] at hn
    obtain ⟨n, rfl⟩ := Nat.exists_eq_succ_of_ne_zero (by omega : n ≠ 0)
    have hread := separated?_of_length_le (n := n) (by decide) (fun p hp => (h p hp).exists_cons)
      (by omega) (fun p hp hle => ih p hp hle) rest
    rw [List.cons_append, List.append_assoc, List.singleton_append, value?, hread, Option.map_some]
  | @object ms hkeys hvalues ih =>
    intro rest
    simp only [List.length_cons, List.length_append, List.length_nil] at hn
    obtain ⟨n, rfl⟩ := Nat.exists_eq_succ_of_ne_zero (by omega : n ≠ 0)
    have hstart : ∀ p ∈ ms.map WrittenMember.part, ∃ c t, p.1 = c :: t ∧ c ≠ '\x7d' :=
      List.forall_mem_map.2 fun m hm => (hkeys m hm).exists_cons_member
    have hreads : ∀ p ∈ ms.map WrittenMember.part, p.1.length ≤ n →
        Reads (member? (value? n)) p.1 p.2 := by
      refine List.forall_mem_map.2 fun m hm hle => (hkeys m hm).reads_member (ih m hm ?_)
      simp only [WrittenMember.part, WrittenMember.chars, List.length_append,
        List.length_cons] at hle
      omega
    have hread := separated?_of_length_le (n := n) (by decide) hstart
      (by rw [List.map_map, WrittenMember.fst_comp_part]; omega) hreads rest
    rw [List.map_map, List.map_map, WrittenMember.fst_comp_part,
      WrittenMember.snd_comp_part] at hread
    rw [List.cons_append, List.append_assoc, List.singleton_append, value?, hread, Option.map_some]

theorem member_of_member? {value? : List Char → Option (Literal × List Char)}
    (hsound : ∀ s v rest, value? s = some (v, rest) → ∃ t, s = t ++ rest ∧ Written t v)
    {m : String × Literal} (h : member? value? s = some (m, rest)) :
    ∃ t, s = t ++ rest ∧ ∃ w : WrittenMember, w.part = (t, m) ∧
      WritesKey w.keyText w.key.toList ∧ Written w.valueText w.value := by
  obtain ⟨⟨k, s'⟩, hkey, h⟩ := Option.bind_eq_some_iff.1 h
  obtain ⟨s'', hcolon, h⟩ := Option.bind_eq_some_iff.1 h
  obtain ⟨⟨v, rest'⟩, hvalue, h⟩ := Option.bind_eq_some_iff.1 h
  obtain ⟨rfl, rfl⟩ := Prod.mk.inj (Option.some.inj h)
  obtain ⟨t, rfl, ht⟩ := writesKey_of_key? hkey
  obtain ⟨u, rfl, hu⟩ := hsound _ _ _ hvalue
  obtain rfl := after?_eq_some_iff.1 hcolon
  exact ⟨t ++ ':' :: u, by simp, ⟨t, String.ofList k, u, v⟩, rfl, by simpa using ht, hu⟩

theorem exists_written_members {parts : List (List Char × (String × Literal))}
    {P : WrittenMember → Prop} (h : ∀ p ∈ parts, ∃ w : WrittenMember, w.part = p ∧ P w) :
    ∃ ms : List WrittenMember, parts = ms.map WrittenMember.part ∧ ∀ m ∈ ms, P m := by
  induction parts with
  | nil => exact ⟨[], rfl, by simp⟩
  | cons p parts ih =>
    obtain ⟨w, rfl, hw⟩ := h p List.mem_cons_self
    obtain ⟨ms, rfl, hms⟩ := ih fun q hq => h q (List.mem_cons_of_mem _ hq)
    exact ⟨w :: ms, rfl, List.forall_mem_cons.2 ⟨hw, hms⟩⟩

/-- What the reader takes off a text is a written value. -/
theorem written_of_value? (h : value? n s = some (v, rest)) : ∃ t, s = t ++ rest ∧ Written t v := by
  induction n generalizing s v rest with
  | zero => simp [value?] at h
  | succ n ih =>
    have hsound : ∀ s v rest, value? n s = some (v, rest) → ∃ t, s = t ++ rest ∧ Written t v :=
      fun s v rest => ih
    unfold value? at h
    split at h
    · obtain ⟨⟨t, rest'⟩, hread, h⟩ := Option.map_eq_some_iff.1 h
      obtain ⟨rfl, rfl⟩ := Prod.mk.inj h
      obtain ⟨lit, hs, hlit⟩ := Json.string?_eq_some_iff.1 hread
      exact ⟨lit, hs, .str (by simpa using hlit)⟩
    · obtain ⟨⟨vs, rest'⟩, hread, h⟩ := Option.map_eq_some_iff.1 h
      obtain ⟨rfl, rfl⟩ := Prod.mk.inj h
      obtain ⟨parts, rfl, hparts, rfl⟩ := parts_of_separated? hsound hread
      exact ⟨_, by simp, .array hparts⟩
    · obtain ⟨⟨vs, rest'⟩, hread, h⟩ := Option.map_eq_some_iff.1 h
      obtain ⟨rfl, rfl⟩ := Prod.mk.inj h
      obtain ⟨parts, rfl, hparts, rfl⟩ :=
        parts_of_separated? (fun s m rest => member_of_member? hsound) hread
      obtain ⟨ms, rfl, hms⟩ := exists_written_members hparts
      rw [List.map_map, List.map_map, WrittenMember.fst_comp_part, WrittenMember.snd_comp_part]
      exact ⟨_, by simp, .object (fun m hm => (hms m hm).1) fun m hm => (hms m hm).2⟩
    · simp at h

theorem decode?_eq_some_iff {t : String} : decode? t = some v ↔ Written t.toList v := by
  rw [decode?]
  constructor
  · intro h
    split at h
    · rename_i w hread
      obtain rfl := Option.some.inj h
      obtain ⟨t', ht, hw⟩ := written_of_value? hread
      rwa [ht, List.append_nil]
    · simp at h
  · intro h
    have hread := h.reads (Nat.le_refl _) []
    rw [List.append_nil] at hread
    rw [hread]

theorem writesKey_keyChars (k : List Char) : WritesKey (keyChars k) k := by
  unfold keyChars
  split
  · exact .inr (Json.isString_quote [])
  · rename_i c rest
    split_ifs with h
    · simp only [Bool.and_eq_true, List.all_eq_true] at h
      exact .inl ⟨rfl, c, rest, rfl, h⟩
    · exact .inr (Json.isString_quote _)

theorem itemChars_eq (vs : List Literal) : itemChars vs = [','].intercalate (vs.map chars) := by
  induction vs with
  | nil => rfl
  | cons v vs ih =>
    cases vs with
    | nil => simp [itemChars]
    | cons w vs => simp [itemChars, ih, List.intercalate_cons_cons]

def printed (m : String × Literal) : WrittenMember :=
  ⟨keyChars m.1.toList, m.1, m.2.chars, m.2⟩

theorem memberChars_eq (ms : List (String × Literal)) :
    memberChars ms = [','].intercalate ((ms.map printed).map WrittenMember.chars) := by
  induction ms with
  | nil => rfl
  | cons m ms ih =>
    cases ms with
    | nil => simp [memberChars, printed, WrittenMember.chars]
    | cons m' ms =>
      obtain ⟨k, v⟩ := m
      rw [memberChars, ih]
      simp [printed, WrittenMember.chars, List.intercalate_cons_cons]

theorem written_chars (h : v.Plain) : Written v.chars v := by
  induction h with
  | str => exact .str (Json.isString_quote _)
  | @array items _ ih =>
    have hitems : ∀ p ∈ items.map fun v => (v.chars, v), Written p.1 p.2 :=
      List.forall_mem_map.2 ih
    simpa [chars, itemChars_eq, Function.comp_def] using Written.array hitems
  | @object members _ ih =>
    have hkeys : ∀ m ∈ members.map printed, WritesKey m.keyText m.key.toList :=
      List.forall_mem_map.2 fun m _ => writesKey_keyChars m.1.toList
    have hmembers := Written.object hkeys (List.forall_mem_map.2 ih)
    have hobject : (members.map printed).map WrittenMember.member = members := by
      simp [WrittenMember.member, printed, Function.comp_def]
    rwa [hobject, ← memberChars_eq] at hmembers

theorem Written.plain (h : Written t v) : v.Plain := by
  induction h with
  | str => exact .str
  | array _ ih => exact .array (List.forall_mem_map.2 ih)
  | object _ _ ih => exact .object (List.forall_mem_map.2 ih)

/-- The text of a value without code is a text of the syntax and is read as the value, so that no
other value has the same text. The reader takes the texts of the syntax and nothing else, and the
syntax gives each of them one value. A quoted string is a literal that writes this string only. -/
theorem text_uniquely_decodable (hv : v.Plain) :
    Written v.text.toList v ∧ decode? v.text = some v ∧
      (∀ w : Literal, w.Plain → w.text = v.text → w = v) ∧
      (∀ t w, decode? t = some w ↔ Written t.toList w ∧ w.Plain) ∧
      ∀ s, Json.IsString (quote s) s ∧ Json.string? (quote s) = some (s, []) ∧
        ∀ s', Json.IsString (quote s) s' → s' = s := by
  have hwritten : ∀ w : Literal, w.Plain → Written w.text.toList w := fun w hw => by
    rw [text, String.toList_ofList]
    exact written_chars hw
  have hdecode : ∀ w : Literal, w.Plain → decode? w.text = some w := fun w hw =>
    decode?_eq_some_iff.2 (hwritten w hw)
  refine ⟨hwritten v hv, hdecode v hv, fun w hw htext => ?_, fun t w => ?_, fun s => ?_⟩
  · have hw := hdecode w hw
    rw [htext, hdecode v hv] at hw
    exact (Option.some.inj hw).symm
  · rw [decode?_eq_some_iff]
    exact ⟨fun h => ⟨h, h.plain⟩, And.left⟩
  · have hs := Json.isString_quote s
    have hread : Json.string? (quote s) = some (s, []) :=
      Json.string?_eq_some_iff.2 ⟨_, (List.append_nil _).symm, hs⟩
    exact ⟨hs, hread, fun s' h => h.unique hs⟩

/-- An object that has an empty key, one key twice and a key that is no identifier, with an array
and a string of escaped characters. -/
def awkward : Literal :=
  .object [("", .array []), ("a", .str "\"\\\n\x01]"), ("a", .array [.str "", .object []]),
    ("a,b", .str "\x7d")]

theorem awkward_decoded :
    awkward.text = "\x7b\"\":[],a:\"\\\"\\\\\\n\\u0001]\",a:[\"\",\x7b\x7d],\"a,b\":\"\x7d\"\x7d" ∧
      decode? awkward.text = some awkward := by
  have hplain : awkward.Plain := by
    refine .object ?_
    simp only [List.forall_mem_cons, List.not_mem_nil, false_implies, implies_true, and_true]
    refine ⟨.array (by simp), .str, .array ?_, .str⟩
    simpa using ⟨Plain.str, Plain.object (by simp)⟩
  exact ⟨by decide, (text_uniquely_decodable hplain).2.1⟩

end Literal

end CatalogLinker
