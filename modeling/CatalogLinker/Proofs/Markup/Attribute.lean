import CatalogLinker.Proofs.Markup.Writing

namespace CatalogLinker.Markup

namespace Tag

variable {wanted s t part key : List Char} {seen : List (List Char × Nat)} {position start : Nat}
  {c quote : Char}

theorem findFrom_first (hc : isBlank c = false) :
    findFrom wanted seen .gap position (c :: t) =
      findFrom wanted seen (.key position [c]) (position + c.utf8Size) t := by
  have hstep : findFrom wanted seen .gap position (c :: t) =
      findFrom wanted seen (if isBlank c then .gap else .key position [c])
        (position + c.utf8Size) t := rfl
  rw [hstep, hc]
  rfl

theorem findFrom_key (hs : ∀ c ∈ s, c ≠ '=' ∧ isBlank c = false) :
    findFrom wanted seen (.key start part) position (s ++ t) =
      findFrom wanted seen (.key start (s.reverse ++ part)) (position + Text.byteLength s) t := by
  induction s generalizing part position with
  | nil => rfl
  | cons c s ih =>
    obtain ⟨hequals, hblank⟩ := hs c List.mem_cons_self
    have hstep : findFrom wanted seen (.key start part) position (c :: (s ++ t)) =
        findFrom wanted seen
          (if isBlank c then .afterKey start part.reverse else .key start (c :: part))
          (position + c.utf8Size) (s ++ t) := if_neg hequals
    rw [List.cons_append, hstep, hblank, if_neg Bool.false_ne_true,
      ih fun d hd => hs d (List.mem_cons_of_mem c hd)]
    simp [Text.byteLength, Nat.add_assoc]

theorem findFrom_equals (hseen : seen.lookup part.reverse = none) :
    findFrom wanted seen (.key start part) position ('=' :: t) =
      findFrom wanted seen (.afterEquals start part.reverse) (position + '='.utf8Size) t := by
  have hstep : findFrom wanted seen (.key start part) position ('=' :: t) =
      afterEquals seen start part.reverse >>= fun progress =>
        findFrom wanted seen progress (position + '='.utf8Size) t := rfl
  rw [hstep, afterEquals, hseen]
  rfl

theorem findFrom_value (hs : ∀ c ∈ s, c ≠ quote) :
    findFrom wanted seen (.value start key quote part) position (s ++ t) =
      findFrom wanted seen (.value start key quote (s.reverse ++ part))
        (position + Text.byteLength s) t := by
  induction s generalizing part position with
  | nil => rfl
  | cons c s ih =>
    have hstep : findFrom wanted seen (.value start key quote part) position (c :: (s ++ t)) =
        findFrom wanted seen (.value start key quote (c :: part)) (position + c.utf8Size) (s ++ t) :=
      if_pos (hs c List.mem_cons_self)
    rw [List.cons_append, hstep, ih fun d hd => hs d (List.mem_cons_of_mem c hd)]
    simp [Text.byteLength, Nat.add_assoc]

theorem findFrom_quote :
    findFrom wanted seen (.value start key quote part) position (quote :: t) =
      if key = wanted then .ok (some part.reverse)
      else findFrom wanted ((key, start) :: seen) .gap (position + quote.utf8Size) t :=
  if_neg fun h => h rfl

end Tag

namespace Opening

open Tag (findFrom)

variable {seen : List (List Char × Nat)}

theorem findFrom_attributeChars (wanted s : List Char) (position : Nat) (a : Word × String)
    (hseen : seen.lookup a.1.chars = none) :
    ∃ start next, findFrom wanted seen .gap position (attributeChars a ++ s) =
      if a.1.chars = wanted then .ok (some (Entity.encode a.2.toList))
      else findFrom wanted ((a.1.chars, start) :: seen) .gap next s := by
  obtain ⟨word, value⟩ := a
  obtain ⟨c, key, hkey⟩ := List.exists_cons_of_ne_nil word.ne_nil
  have hword : ∀ d ∈ word.chars, d ≠ '=' ∧ isBlank d = false := fun d hd =>
    ⟨Word.ne_of_mem hd (by decide), Word.isBlank_eq_false hd⟩
  have hsplit : attributeChars (word, value) ++ s =
      ' ' :: c :: (key ++ '=' :: '"' :: (Entity.encode value.toList ++ '"' :: s)) := by
    simp [attributeChars, hkey]
  have hpart : (key.reverse ++ [c]).reverse = word.chars := by simp [hkey]
  have hblank : ∀ t, findFrom wanted seen .gap position (' ' :: t) =
      findFrom wanted seen .gap (position + ' '.utf8Size) t := fun _ => rfl
  have hquote : ∀ start key next t, findFrom wanted seen (.afterEquals start key) next ('"' :: t) =
      findFrom wanted seen (.value start key '"' []) (next + '"'.utf8Size) t :=
    fun _ _ _ _ => rfl
  have hread := hblank (c :: (key ++ '=' :: '"' :: (Entity.encode value.toList ++ '"' :: s)))
  rw [Tag.findFrom_first (hword c (hkey ▸ List.mem_cons_self)).2,
    Tag.findFrom_key fun d hd => hword d (hkey ▸ List.mem_cons_of_mem c hd),
    Tag.findFrom_equals (hpart ▸ hseen), hpart, hquote,
    Tag.findFrom_value fun d hd => (Entity.plain_of_mem_encode hd).2.2.1, Tag.findFrom_quote,
    List.append_nil, List.reverse_reverse, ← hsplit] at hread
  exact ⟨_, _, hread⟩

theorem findFrom_attributes (wanted : List Char) (position : Nat) (as : List (Word × String))
    (hnodup : (as.map (Word.chars ∘ Prod.fst)).Nodup)
    (hseen : ∀ a ∈ as, seen.lookup a.1.chars = none) :
    findFrom wanted seen .gap position (as.flatMap attributeChars) =
      .ok ((as.find? (·.1.chars = wanted)).map fun a => Entity.encode a.2.toList) := by
  induction as generalizing seen position with
  | nil => rfl
  | cons a as ih =>
    obtain ⟨hne, hnodup⟩ := List.nodup_cons.1 hnodup
    obtain ⟨start, next, hread⟩ := findFrom_attributeChars wanted (as.flatMap attributeChars)
      position a (hseen a List.mem_cons_self)
    rw [List.flatMap_cons, hread, List.find?_cons]
    split_ifs with ha
    · simp [ha]
    -- The keys are all different, so that none of the others has been seen now either.
    · have hseen' : ∀ b ∈ as, List.lookup b.1.chars ((a.1.chars, start) :: seen) = none := by
        intro b hb
        have hba : (b.1.chars == a.1.chars) = false :=
          beq_false_of_ne fun h => hne (List.mem_map.2 ⟨b, hb, h⟩)
        rw [List.lookup_cons, hba]
        exact hseen b (List.mem_cons_of_mem a hb)
      rw [ih next hnodup hseen']
      simp [ha]

theorem value_tag (o : Opening) (key : String) : o.tag.value key = .ok (o.value? key) := by
  have hfound := findFrom_attributes key.toList (Text.byteLength o.name.chars) o.attributes o.nodup
    fun a _ => (rfl : List.lookup a.1.chars ([] : List (List Char × Nat)) = none)
  rw [Tag.value, tag, hfound, value?]
  cases o.attributes.find? (·.1.chars = key.toList) with
  | none => rfl
  | some a =>
    simp only [Option.map_some, Except.mapError, bind, Except.bind, Entity.decode_encode,
      String.ofList_toList]
    rfl

end Opening

end CatalogLinker.Markup
