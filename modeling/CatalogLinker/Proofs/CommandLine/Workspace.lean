import CatalogLinker.CommandLine.Workspace
import CatalogLinker.Proofs.Outcome

namespace CatalogLinker.CommandLine.Workspace

variable {w w' : Workspace} {place p q : Place} {path name text : String} {ns : List String}

def IsDevice (w : Workspace) (place : Place) : Prop :=
  w.content? place = some .emptyDevice ∨ ∃ s, w.content? place = some (.stream s)

section Writing

theorem lookup_filter_ne {l : List (Place × Content)} (h : p ≠ place) :
    (l.filter (·.1 ≠ place)).lookup p = l.lookup p := by
  induction l with
  | nil => rfl
  | cons e l ih =>
    obtain ⟨a, c⟩ := e
    by_cases ha : a = place
    · have hp : (p == a) = false := beq_eq_false_iff_ne.2 (ha ▸ h)
      rw [List.filter_cons_of_neg (by simpa using ha), ih, List.lookup_cons, hp]
    · rw [List.filter_cons_of_pos (by simpa using ha), List.lookup_cons, List.lookup_cons, ih]

theorem write_of_isDevice (h : w.IsDevice place) : w.write place text = w := by
  obtain h | ⟨s, h⟩ := h <;> simp only [write, h]

theorem write_of_not_isDevice (h : ¬w.IsDevice place) :
    w.write place text =
      { w with entries := (place, .file text.toUTF8) :: w.entries.filter (·.1 ≠ place) } := by
  rw [write]
  split
  · rename_i s hs
    exact absurd (.inr ⟨s, hs⟩) h
  · rename_i hs
    exact absurd (.inl hs) h
  · rfl

theorem write_directory : (w.write place text).directory = w.directory := by
  rw [write]
  split <;> rfl

theorem content?_write_of_ne (h : p ≠ place) :
    (w.write place text).content? p = w.content? p := by
  rw [write]
  split
  · rfl
  · rfl
  · have hp : (p == place) = false := beq_eq_false_iff_ne.2 h
    simp only [content?, List.lookup_cons, hp, lookup_filter_ne h]

theorem content?_write (hd : w.content? place ≠ some .directory) (h : ¬w.IsDevice place) :
    (w.write place text).content? place = some (.file text.toUTF8) := by
  have hplace : ¬(place = [] ∨ place = w.directory) := fun hp => hd (if_pos hp)
  rw [write_of_not_isDevice h, content?, if_neg hplace, List.lookup_cons_self, Option.some_or]

end Writing

section Following

theorem step_congr (hw : ∀ p, w.content? p = some .directory → w'.content? p = some .directory)
    (h : w.step p name = .ok q) : w'.step p name = .ok q := by
  rw [step] at h ⊢
  obtain ⟨_, henter, h⟩ := bind_ok h
  have hdirectory : w.content? p = some .directory := by
    rw [enter] at henter
    split at henter
    · cases henter
    · assumption
    · cases henter
  have henter' : w'.enter p = .ok () := by rw [enter, hw p hdirectory]
  rw [henter']
  exact h

theorem foldlM_step_congr
    (hw : ∀ p, w.content? p = some .directory → w'.content? p = some .directory)
    (h : ns.foldlM w.step p = .ok q) : ns.foldlM w'.step p = .ok q := by
  induction ns generalizing p with
  | nil => exact h
  | cons n ns ih =>
    rw [List.foldlM_cons] at h ⊢
    obtain ⟨p', hp', h⟩ := bind_ok h
    rw [step_congr hw hp']
    exact ih h

end Following

theorem names_ne_nil : names path ≠ [] := by
  rw [names, ne_eq, List.map_eq_nil_iff]
  cases path.toList with
  | nil => simp [Text.pieces]
  | cons c s =>
    rw [Text.pieces]
    split
    · simp
    · split <;> simp

theorem create_ok (h : w.create path = .ok place) :
    ∃ start, w.origin path = .ok start ∧ (names path).foldlM w.step start = .ok place ∧
      w.content? place ≠ some .directory := by
  obtain ⟨front, last, hnames⟩ := (List.eq_nil_or_concat (names path)).resolve_left names_ne_nil
  rw [List.concat_eq_append] at hnames
  rw [create, hnames] at h
  obtain ⟨start, hstart, h⟩ := bind_ok h
  obtain ⟨parent, hparent, h⟩ := bind_ok h
  obtain ⟨_, -, h⟩ := bind_ok h
  split at h
  · cases h
  · rename_i hlast
    have hstem : ((front ++ [last]).reverse.dropWhile (· = "")).reverse = front ++ [last] := by
      have hlast : last ≠ "" := by simpa using hlast
      simp [hlast]
    rw [hstem, List.dropLast_concat] at hparent
    rw [hstem, List.getLastD_concat] at h
    obtain ⟨place', hplace, h⟩ := bind_ok h
    have hplaces : place' = place ∧ w.content? place' ≠ some .directory := by
      split at h
      · cases h
      · cases h
      · rename_i hdirectory _
        exact ⟨Except.ok.inj h, hdirectory⟩
    obtain ⟨rfl, hdirectory⟩ := hplaces
    refine ⟨start, hstart, ?_, hdirectory⟩
    rw [hnames, List.foldlM_append, hparent]
    change w.step parent last >>= _ = _
    rw [hplace]
    rfl

theorem read_of_file {start : Place} (hstart : w.origin path = .ok start)
    (hfollow : (names path).foldlM w.step start = .ok place)
    (hcontent : w.content? place = some (.file text.toUTF8)) : w.read path = .ok text := by
  have htext : String.fromUTF8? text.toUTF8 = some text := dif_pos text.isValidUTF8
  simp only [read, hstart, bind, Except.bind, hfollow, hcontent, htext]
  rfl

/-- A text that is written is read back at its path. -/
theorem read_write (h : w.create path = .ok place) (hd : ¬w.IsDevice place) :
    (w.write place text).read path = .ok text := by
  obtain ⟨start, hstart, hfollow, hplace⟩ := create_ok h
  have horigin : (w.write place text).origin path = .ok start := by
    rw [← hstart, origin, origin, write_directory]
  have hcontent : (w.write place text).content? place = some (.file text.toUTF8) :=
    content?_write hplace hd
  refine read_of_file horigin (foldlM_step_congr (fun p hp => ?_) hfollow) hcontent
  have hne : p ≠ place := by
    rintro rfl
    exact hplace hp
  rw [content?_write_of_ne hne, hp]

end CatalogLinker.CommandLine.Workspace
