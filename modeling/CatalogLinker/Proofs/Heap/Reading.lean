import CatalogLinker.Proofs.Heap.Grammar
import CatalogLinker.Proofs.Text.Blank
import Mathlib.Data.List.DropRight

namespace CatalogLinker.Heap

namespace Expression

def Yields {n : Nat} (o : Option (Reading n)) (v : Int) (t : List Char) : Prop :=
  ∃ r, o = some r ∧ r.value = v ∧ r.rest = t

/-- The front of a text is an expression of a level and of a value. -/
def Reads (l : Level) (s : List Char) (v : Int) (t : List Char) : Prop :=
  ∃ u ts, s = u ++ t ∧ Spells u ts ∧ Denotes l ts v

namespace Operator

def level : Operator → Level
  | bar => .bars
  | shift => .shifts

def below : Operator → Level
  | bar => .shifts
  | shift => .operand

def symbol : Operator → Token
  | bar => .bar
  | shift => .shift

variable (o : Operator)

theorem isSymbol_token : IsSymbol o.token o.symbol := by
  cases o
  · exact .bar
  · exact .shift

theorem apply_eq (v w : Int) :
    o.apply v w = match o with
      | bar => joined v w
      | shift => shifted v w := by
  cases o with
  | bar => rw [apply, toInt_or, toInt_ofInt, toInt_ofInt, joined]
  | shift => rw [apply, BitVec.toInt_sshiftRight, toInt_ofInt, toNat_ofInt_mod, shifted]

end Operator

section Steps

variable {m n : Nat} {o : Operator} {s s' t u : List Char} {v w x : Int}

@[simp] theorem not_yields_none : ¬Yields (none : Option (Reading n)) v t := by
  simp [Yields]

@[simp] theorem yields_some {r : Reading n} :
    Yields (some r) v t ↔ r.value = v ∧ r.rest = t := by
  simp [Yields]

theorem yields_within {a : Option (Reading m)} {h : m ≤ n} :
    Yields (a.map (·.within h)) v t ↔ Yields a v t := by
  cases a with
  | none => simp
  | some r => simp [Reading.within]

theorem yields_chain :
    Yields (chain o s) v t ↔ ∃ x u, Yields (operand o s) x u ∧ Yields (loop o x u) v t := by
  rw [chain]
  cases h : operand o s with
  | none => simp
  | some r =>
    rw [Option.bind_some, yields_within]
    simp

theorem yields_loop_none (h : eat? o.token s = none) :
    Yields (loop o x s) v t ↔ v = x ∧ t = skipSpaces s := by
  rw [loop]
  split
  · simp [eq_comm]
  · simp_all

theorem yields_loop_some (h : eat? o.token s = some s') :
    Yields (loop o x s) v t ↔
      ∃ y u, Yields (operand o s') y u ∧ Yields (loop o (o.apply x y) u) v t := by
  rw [loop]
  split
  · simp_all
  · rename_i s₁ h₁
    obtain rfl : s₁ = s' := Option.some.inj (h₁.symm.trans h)
    cases h : operand o s₁ with
    | none => simp
    | some r =>
      rw [Option.bind_some, yields_within]
      simp

theorem yields_atom_none (h : eat? ['('] s = none) :
    Yields (atom s) v t ↔ Yields (literal? (skipSpaces s)) v t := by
  rw [atom]
  split
  · exact yields_within
  · simp_all

theorem yields_atom_some (h : eat? ['('] s = some s') :
    Yields (atom s) v t ↔ ∃ u, Yields (chain .bar s') v u ∧ eat? [')'] u = some t := by
  rw [atom]
  split
  · simp_all
  · rename_i s₁ h₁
    obtain rfl : s₁ = s' := Option.some.inj (h₁.symm.trans h)
    cases h : chain .bar s₁ with
    | none => simp
    | some r =>
      rw [Option.bind_some]
      split
      · rename_i hu
        simp [hu]
      · rename_i u hu
        simp [hu]

theorem yields_literal :
    Yields (literal? s) v t ↔
      ∃ n : Nat, IsNumeral (s.takeWhile Char.isDigit) n ∧ v = n ∧ t = s.dropWhile Char.isDigit := by
  have hmax : maxLiteral = 2 ^ 63 - 1 := rfl
  rw [literal?]
  split
  · rename_i h
    refine iff_of_false not_yields_none ?_
    rintro ⟨n, hn, -⟩
    have hsome := Text.decimal?_eq_some_iff.2 ⟨hn.ne_nil, hn.digits, hn.value⟩
    simp [h] at hsome
  · rename_i n h
    obtain ⟨hne, hdigits, hvalue⟩ := Text.decimal?_eq_some_iff.1 h
    split
    · rename_i hbound
      have hn : IsNumeral (s.takeWhile Char.isDigit) n := ⟨hne, hdigits, hvalue, hmax ▸ hbound⟩
      rw [yields_some]
      constructor
      · rintro ⟨rfl, rfl⟩
        exact ⟨n, hn, rfl, rfl⟩
      · rintro ⟨m, hm, rfl, rfl⟩
        exact ⟨congrArg Nat.cast (hvalue.symm.trans hm.value), rfl⟩
    · rename_i hbound
      refine iff_of_false not_yields_none ?_
      rintro ⟨m, hm, -⟩
      exact hbound (hmax ▸ hvalue ▸ hm.value ▸ hm.bound)

/-- Only what stands behind spaces matters to what operators follow. -/
theorem yields_loop_congr (hs : skipSpaces s = skipSpaces s') :
    Yields (loop o x s) v t ↔ Yields (loop o x s') v t := by
  have heat : ∀ token, eat? token s = eat? token s' := fun token => by rw [eat?, eat?, hs]
  cases h : eat? o.token s with
  | none => rw [yields_loop_none h, yields_loop_none ((heat _).symm.trans h), hs]
  | some u => rw [yields_loop_some h, yields_loop_some ((heat _).symm.trans h)]

end Steps

section Soundness

variable {l : Level} {o : Operator} {n : Nat} {s t t' u : List Char} {v w x : Int}

theorem Yields.length_lt {a : Option (Reading n)} (h : Yields a v t) : t.length < n := by
  obtain ⟨r, -, -, rfl⟩ := h
  exact r.length_lt

theorem exists_skipSpaces (s : List Char) :
    ∃ gap, (∀ c ∈ gap, c = ' ') ∧ s = gap ++ skipSpaces s := by
  obtain ⟨gap, hgap, hs⟩ := Text.exists_dropWhile (· == ' ') s
  exact ⟨gap, fun c hc => beq_iff_eq.1 (hgap c hc), hs⟩

theorem Reads.skipSpaces (h : Reads l s v t) : Reads l s v (skipSpaces t) := by
  obtain ⟨u, ts, rfl, hu, hd⟩ := h
  obtain ⟨gap, hgap, ht⟩ := exists_skipSpaces t
  refine ⟨u ++ gap, ts, ?_, ?_, hd⟩
  · rw [List.append_assoc, ← ht]
  · simpa using hu.append (.spaces hgap)

theorem Reads.lift (h : Reads o.below s v t) : Reads o.level s v t := by
  obtain ⟨u, ts, hs, hu, hd⟩ := h
  refine ⟨u, ts, hs, hu, ?_⟩
  cases o with
  | bar => exact .bars hd
  | shift => exact .shifts hd

theorem Reads.join (h : Reads o.level s v t) (heat : eat? o.token t = some t')
    (h' : Reads o.below t' w u) : Reads o.level s (o.apply v w) u := by
  obtain ⟨a, ts, rfl, ha, hd⟩ := h.skipSpaces
  obtain ⟨b, us, rfl, hb, hd'⟩ := h'
  rw [eat?_eq_some_iff.1 heat]
  refine ⟨a ++ (o.token ++ b), ts ++ o.symbol :: us, by simp,
    ha.append (.token (.symbol o.isSymbol_token) hb), ?_⟩
  rw [o.apply_eq]
  cases o with
  | bar => exact .bar hd hd'
  | shift => exact .shift hd hd'

/-- What is read of texts that are shorter than `n` is an expression of a level. -/
def Sound (read : (s : List Char) → Option (Reading s.length)) (l : Level) (n : Nat) : Prop :=
  ∀ s, s.length < n → ∀ v t, Yields (read s) v t → Reads l s v t

theorem reads_of_loop (hop : Sound (operand o) o.below n) (ht : t.length ≤ n)
    (h : Reads o.level s x t) (hl : Yields (loop o x t) v u) : Reads o.level s v u := by
  -- Each turn of the loop reads a token and an operand, so what is left gets shorter.
  induction hk : t.length using Nat.strong_induction_on generalizing t x with
  | _ k ih =>
    cases heat : eat? o.token t with
    | none =>
      obtain ⟨rfl, rfl⟩ := (yields_loop_none heat).1 hl
      exact h.skipSpaces
    | some t' =>
      obtain ⟨y, t₁, hy, hrest⟩ := (yields_loop_some heat).1 hl
      have hshorter := length_of_eat? heat
      have htoken := o.length_token_pos
      have hafter := hy.length_lt
      exact ih t₁.length (by omega) (by omega) (h.join heat (hop t' (by omega) y t₁ hy)) hrest rfl

theorem sound_chain (hop : Sound (operand o) o.below n) : Sound (chain o) o.level n := by
  intro s hs v t h
  obtain ⟨x, u, hx, hl⟩ := yields_chain.1 h
  have hafter := hx.length_lt
  exact reads_of_loop hop (by omega) (hop s hs x u hx).lift hl

theorem sound_atom (h : Sound (chain .bar) .bars n) : Sound atom .operand (n + 1) := by
  intro s hs v t ha
  obtain ⟨gap, hgap, hsplit⟩ := exists_skipSpaces s
  cases heat : eat? ['('] s with
  | none =>
    obtain ⟨n, hn, rfl, rfl⟩ := yields_literal.1 ((yields_atom_none heat).1 ha)
    refine ⟨gap ++ ((Expression.skipSpaces s).takeWhile Char.isDigit ++ []), [.numeral n], ?_,
      (Spells.spaces hgap).append (.token (.numeral hn) .nil), .numeral n⟩
    rw [List.append_nil, List.append_assoc, List.takeWhile_append_dropWhile]
    exact hsplit
  | some s' =>
    obtain ⟨u, hu, hclose⟩ := (yields_atom_some heat).1 ha
    have hshorter := length_of_eat? heat
    rw [List.length_singleton] at hshorter
    obtain ⟨w, ts, hw, hspells, hd⟩ := (h s' (by omega) v u hu).skipSpaces
    rw [eat?_eq_some_iff] at heat hclose
    refine ⟨gap ++ (['('] ++ (w ++ ([')'] ++ []))), .opening :: ts ++ [.closing], ?_, ?_,
      .enclosed hd⟩
    · rw [hsplit, heat, hw, hclose]
      simp
    · exact (Spells.spaces hgap).append
        (.token (.symbol .opening) (hspells.append (.token (.symbol .closing) .nil)))

theorem sound_bars (n : Nat) : Sound (chain .bar) .bars n := by
  -- The levels below are sound for the same lengths, except that an operand in parentheses is read
  -- from a shorter text.
  induction n with
  | zero => exact fun s hs => absurd hs (Nat.not_lt_zero _)
  | succ n ih =>
    have hoperand : Sound (operand .shift) .operand (n + 1) := by
      intro s hs v t h
      rw [operand] at h
      exact sound_atom ih s hs v t h
    have hshifts : Sound (operand .bar) .shifts (n + 1) := by
      intro s hs v t h
      rw [operand] at h
      exact sound_chain hoperand s hs v t h
    exact sound_chain hshifts

end Soundness

section Completeness

variable {l : Level} {o : Operator} {s t u rest gap w x : List Char} {k k' : Token}
  {ts : List Token} {v : Int}

def NoDigit (s : List Char) : Prop :=
  ∀ c ∈ s.head?, ¬c.isDigit

theorem skipSpaces_append (hgap : ∀ c ∈ gap, c = ' ') : skipSpaces (gap ++ s) = skipSpaces s :=
  List.dropWhile_append_of_pos fun c hc => beq_iff_eq.2 (hgap c hc)

theorem skipSpaces_writes (hw : Writes w k) : skipSpaces (w ++ x) = w ++ x := by
  cases hw with
  | numeral hn =>
    obtain ⟨c, ds, rfl⟩ := List.exists_cons_of_ne_nil hn.ne_nil
    have hc := hn.digits c List.mem_cons_self
    have hne : c ≠ ' ' := by
      rintro rfl
      exact absurd hc (by decide)
    exact List.dropWhile_cons_of_neg (by simpa using hne)
  | symbol hw => cases hw <;> rfl

theorem skipSpaces_skipSpaces (s : List Char) : skipSpaces (skipSpaces s) = skipSpaces s :=
  List.dropWhile_idempotent _ s

theorem eat?_self (hgap : ∀ c ∈ gap, c = ' ') (hw : IsSymbol w k) :
    eat? w (gap ++ (w ++ x)) = some x := by
  rw [eat?_eq_some_iff, skipSpaces_append hgap, skipSpaces_writes (.symbol hw)]

theorem eat?_ne (hgap : ∀ c ∈ gap, c = ' ') (hw : Writes w k) (hu : IsSymbol u k') (hne : k ≠ k') :
    eat? u (gap ++ (w ++ x)) = none := by
  rw [Option.eq_none_iff_forall_ne_some]
  intro t ht
  rw [eat?_eq_some_iff, skipSpaces_append hgap, skipSpaces_writes hw] at ht
  cases hw with
  | numeral hn =>
    obtain ⟨c, ds, rfl⟩ := List.exists_cons_of_ne_nil hn.ne_nil
    have hc := hn.digits c List.mem_cons_self
    cases hu <;> simp at ht <;> obtain ⟨rfl, -⟩ := ht <;> exact absurd hc (by decide)
  | symbol hw => cases hw <;> cases hu <;> simp_all

theorem noDigit_symbol (hgap : ∀ c ∈ gap, c = ' ') (hw : IsSymbol w k) :
    NoDigit (gap ++ (w ++ x)) := by
  cases gap with
  | nil => cases hw <;> simp [NoDigit]
  | cons c gap =>
    obtain rfl := hgap c List.mem_cons_self
    simp [NoDigit]

/-- How reading goes on behind an expression of a level. -/
def Continues : Level → List Char → Int → Prop
  | .operand, u, v => ∀ rest, NoDigit rest →
      ∃ t, Yields (atom (u ++ rest)) v t ∧ skipSpaces t = skipSpaces rest
  | .shifts, u, v => ∀ rest, NoDigit rest → ∀ w t, Yields (loop .shift v rest) w t →
      Yields (chain .shift (u ++ rest)) w t
  | .bars, u, v => ∀ rest, NoDigit rest → eat? ['>', '>'] rest = none → ∀ w t,
      Yields (loop .bar v rest) w t → Yields (chain .bar (u ++ rest)) w t

theorem takeWhile_isDigit {n : Nat} {ds : List Char} (hn : IsNumeral ds n) (hs : NoDigit s) :
    (ds ++ s).takeWhile Char.isDigit = ds ∧ (ds ++ s).dropWhile Char.isDigit = s := by
  rw [List.takeWhile_append_of_pos hn.digits, List.dropWhile_append_of_pos hn.digits]
  cases s with
  | nil => simp
  | cons c s =>
    have hc : ¬c.isDigit := hs c rfl
    simp [hc]

theorem continues_numeral {n : Nat} (hu : Spells u [.numeral n]) : Continues .operand u n := by
  intro rest hrest
  obtain ⟨gap, w, s, rfl, hgap, hw, hs⟩ := hu.of_cons
  have hspaces := hs.eq_spaces
  cases hw with
  | symbol hw => cases hw
  | numeral hn =>
    have hstop : NoDigit (s ++ rest) := by
      cases s with
      | nil => exact hrest
      | cons c s =>
        obtain rfl := hspaces c List.mem_cons_self
        simp [NoDigit]
    have hsplit : gap ++ (w ++ s) ++ rest = gap ++ (w ++ (s ++ rest)) := by simp
    obtain ⟨htake, hdrop⟩ := takeWhile_isDigit hn hstop
    refine ⟨s ++ rest, ?_, skipSpaces_append hspaces⟩
    rw [hsplit, yields_atom_none (eat?_ne hgap (.numeral hn) .opening Token.noConfusion),
      skipSpaces_append hgap, skipSpaces_writes (.numeral hn), yields_literal, htake, hdrop]
    exact ⟨n, hn, rfl, rfl⟩

theorem continues_enclosed (h : ∀ u, Spells u ts → Continues .bars u v)
    (hu : Spells u (.opening :: ts ++ [.closing])) : Continues .operand u v := by
  intro rest _
  obtain ⟨gap, s, rfl, hgap, hs⟩ := hu.of_symbol .opening
  obtain ⟨s₁, s₂, rfl, hs₁, hs₂⟩ := hs.of_append
  obtain ⟨gap', s₃, rfl, hgap', hs₃⟩ := hs₂.of_symbol .closing
  have hinside : Yields (chain .bar (s₁ ++ (gap' ++ ([')'] ++ (s₃ ++ rest))))) v
      (skipSpaces (gap' ++ ([')'] ++ (s₃ ++ rest)))) := by
    have hstop : ∀ {w k}, IsSymbol w k → Token.closing ≠ k →
        eat? w (gap' ++ ([')'] ++ (s₃ ++ rest))) = none :=
      fun hw => eat?_ne hgap' (.symbol .closing) hw
    exact h s₁ hs₁ _ (noDigit_symbol hgap' .closing) (hstop .shift Token.noConfusion) v _
      ((yields_loop_none (o := .bar) (hstop .bar Token.noConfusion)).2 ⟨rfl, rfl⟩)
  have hsplit : gap ++ (['('] ++ (s₁ ++ (gap' ++ ([')'] ++ s₃)))) ++ rest =
      gap ++ (['('] ++ (s₁ ++ (gap' ++ ([')'] ++ (s₃ ++ rest))))) := by simp
  refine ⟨s₃ ++ rest, ?_, skipSpaces_append hs₃.eq_spaces⟩
  rw [hsplit, yields_atom_some (eat?_self hgap .opening)]
  refine ⟨_, hinside, ?_⟩
  rw [eat?, skipSpaces_skipSpaces]
  exact eat?_self hgap' .closing

theorem continues_shifts (h : Continues .operand u v) : Continues .shifts u v := by
  intro rest hrest w t hl
  obtain ⟨t', ht', hskip⟩ := h rest hrest
  refine yields_chain.2 ⟨v, t', ?_, (yields_loop_congr hskip).2 hl⟩
  rwa [operand]

theorem continues_shift {us : List Token} {y : Int} (h : ∀ u, Spells u ts → Continues .shifts u v)
    (h' : ∀ u, Spells u us → Continues .operand u y) (hu : Spells u (ts ++ .shift :: us)) :
    Continues .shifts u (shifted v y) := by
  intro rest hrest w t hl
  obtain ⟨s₁, s₂, rfl, hs₁, hs₂⟩ := hu.of_append
  obtain ⟨gap, s₃, rfl, hgap, hs₃⟩ := hs₂.of_symbol .shift
  obtain ⟨t', ht', hskip⟩ := h' s₃ hs₃ rest hrest
  have hnext : Yields (loop .shift v (gap ++ (['>', '>'] ++ (s₃ ++ rest)))) w t := by
    refine (yields_loop_some (o := .shift) (eat?_self hgap .shift)).2 ⟨y, t', ?_, ?_⟩
    · rwa [operand]
    · rw [Operator.apply_eq]
      exact (yields_loop_congr hskip).2 hl
  have hsplit : s₁ ++ (gap ++ (['>', '>'] ++ s₃)) ++ rest =
      s₁ ++ (gap ++ (['>', '>'] ++ (s₃ ++ rest))) := by simp
  rw [hsplit]
  exact h s₁ hs₁ _ (noDigit_symbol hgap .shift) w t hnext

/-- A chain of shifts ends where no shift follows. -/
theorem yields_shifts (h : Continues .shifts u v) (hrest : NoDigit rest)
    (hshift : eat? ['>', '>'] rest = none) :
    Yields (operand .bar (u ++ rest)) v (skipSpaces rest) := by
  rw [operand]
  exact h rest hrest v _ ((yields_loop_none (o := .shift) hshift).2 ⟨rfl, rfl⟩)

theorem continues_bars (h : Continues .shifts u v) : Continues .bars u v := by
  intro rest hrest hshift w t hl
  exact yields_chain.2 ⟨v, skipSpaces rest, yields_shifts h hrest hshift,
    (yields_loop_congr (skipSpaces_skipSpaces rest)).2 hl⟩

theorem continues_bar {us : List Token} {y : Int} (h : ∀ u, Spells u ts → Continues .bars u v)
    (h' : ∀ u, Spells u us → Continues .shifts u y) (hu : Spells u (ts ++ .bar :: us)) :
    Continues .bars u (joined v y) := by
  intro rest hrest hshift w t hl
  obtain ⟨s₁, s₂, rfl, hs₁, hs₂⟩ := hu.of_append
  obtain ⟨gap, s₃, rfl, hgap, hs₃⟩ := hs₂.of_symbol .bar
  have hnext : Yields (loop .bar v (gap ++ (['|'] ++ (s₃ ++ rest)))) w t := by
    refine (yields_loop_some (o := .bar) (eat?_self hgap .bar)).2
      ⟨y, skipSpaces rest, yields_shifts (h' s₃ hs₃) hrest hshift, ?_⟩
    rw [Operator.apply_eq]
    exact (yields_loop_congr (skipSpaces_skipSpaces rest)).2 hl
  have hsplit : s₁ ++ (gap ++ (['|'] ++ s₃)) ++ rest =
      s₁ ++ (gap ++ (['|'] ++ (s₃ ++ rest))) := by simp
  rw [hsplit]
  exact h s₁ hs₁ _ (noDigit_symbol hgap .bar)
    (eat?_ne hgap (.symbol .bar) .shift Token.noConfusion) w t hnext

theorem continues_of_denotes (h : Denotes l ts v) : ∀ u, Spells u ts → Continues l u v := by
  induction h with
  | numeral n => exact fun u hu => continues_numeral hu
  | enclosed _ ih => exact fun u hu => continues_enclosed ih hu
  | shifts _ ih => exact fun u hu => continues_shifts (ih u hu)
  | shift _ _ ih ih' => exact fun u hu => continues_shift ih ih' hu
  | bars _ ih => exact fun u hu => continues_bars (ih u hu)
  | bar _ _ ih ih' => exact fun u hu => continues_bar ih ih' hu

end Completeness

theorem evaluate?_eq_some_iff {s : List Char} {v : Int} :
    evaluate? s = some v ↔ Expresses s v := by
  constructor
  · intro h
    obtain ⟨r, hr, h⟩ := Option.bind_eq_some_iff.1 h
    split at h
    · rename_i hend
      obtain rfl := Option.some.inj h
      obtain ⟨u, ts, hs, hu, hd⟩ :=
        (sound_bars _ s (Nat.lt_succ_self _) r.value r.rest ⟨r, hr, rfl, rfl⟩).skipSpaces
      rw [List.isEmpty_iff.1 hend, List.append_nil] at hs
      exact ⟨ts, hs ▸ hu, hd⟩
    · simp at h
  · rintro ⟨ts, hs, hd⟩
    have hend : Yields (loop .bar v []) v [] := (yields_loop_none rfl).2 ⟨rfl, rfl⟩
    have hread : Yields (chain .bar (s ++ [])) v [] :=
      continues_of_denotes hd s hs [] (by simp [NoDigit]) rfl v [] hend
    rw [List.append_nil] at hread
    obtain ⟨r, hr, rfl, hrest⟩ := hread
    have hdone : (skipSpaces r.rest).isEmpty := by rw [hrest]; rfl
    rw [evaluate?, hr, Option.bind_some, if_pos hdone]

end Expression

end CatalogLinker.Heap
