import CatalogLinker.Text.Blank
import CatalogLinker.Text.Ranges
import Mathlib.Data.List.Basic
import Mathlib.Data.List.TakeDrop
import Mathlib.Data.List.TakeWhile

namespace CatalogLinker

namespace Text

variable {p q : Char → Bool} {s t u : List Char} {c : Char} {ws : List (List Char)}

theorem not_isBlank_of_isAlphanum (h : c.isAlphanum) : ¬isBlank c := by
  have hbounds := toNat_of_isAlphanum h
  simp [isBlank]
  omega

theorem dropWhile_append_eq (hu : ∀ c ∈ u, p c) (ht : ¬t.head?.any p) :
    (u ++ t).dropWhile p = t := by
  rw [List.dropWhile_append_of_pos hu]
  cases t with
  | nil => rfl
  | cons c t => exact List.dropWhile_cons_of_neg (by simpa using ht)

theorem exists_dropWhile (p : Char → Bool) (s : List Char) :
    ∃ u, (∀ c ∈ u, p c) ∧ s = u ++ s.dropWhile p :=
  ⟨s.takeWhile p, fun _ => List.mem_takeWhile_imp, (List.takeWhile_append_dropWhile).symm⟩

theorem trimEndWhere_append (hu : ∀ c ∈ u, p c) (ht : ¬t.getLast?.any p) :
    trimEndWhere p (t ++ u) = t := by
  have hu' : ∀ c ∈ u.reverse, p c := fun c hc => hu c (List.mem_reverse.1 hc)
  rw [trimEndWhere, List.reverse_append, dropWhile_append_eq hu', List.reverse_reverse]
  rwa [List.head?_reverse]

theorem exists_trimEndWhere (p : Char → Bool) (s : List Char) :
    ∃ u, (∀ c ∈ u, p c) ∧ s = trimEndWhere p s ++ u := by
  obtain ⟨u, hu, hs⟩ := exists_dropWhile p s.reverse
  refine ⟨u.reverse, fun c hc => hu c (List.mem_reverse.1 hc), ?_⟩
  rw [trimEndWhere, ← List.reverse_append, ← hs, List.reverse_reverse]

def IsTrimmed (p : Char → Bool) (s : List Char) : Prop :=
  ¬s.head?.any p ∧ ¬s.getLast?.any p

theorem IsTrimmed.mono (h : IsTrimmed p s) (hqp : ∀ c, q c → p c) : IsTrimmed q s := by
  obtain ⟨hhead, hlast⟩ := h
  simp only [IsTrimmed, Option.any_eq_true, not_exists, not_and] at hhead hlast ⊢
  exact ⟨fun c hc hq => hhead c hc (hqp c hq), fun c hc hq => hlast c hc (hqp c hq)⟩

theorem isTrimmed_of_forall_not (h : ∀ c ∈ s, ¬p c) : IsTrimmed p s := by
  simp only [IsTrimmed, Option.any_eq_true, not_exists, not_and]
  exact ⟨fun c hc => h c (List.mem_of_mem_head? hc), fun c hc => h c (List.mem_of_mem_getLast? hc)⟩

theorem IsTrimmed.append (hs : IsTrimmed p s) (ht : IsTrimmed p t) (hs' : s ≠ []) (ht' : t ≠ [])
    (u : List Char) : IsTrimmed p (s ++ u ++ t) := by
  rw [IsTrimmed, List.getLast?_append_of_ne_nil _ ht', List.append_assoc,
    List.head?_append_of_ne_nil _ hs']
  exact ⟨hs.1, ht.2⟩

theorem isTrimmed_intercalate (h : ∀ w ∈ ws, w ≠ [] ∧ IsTrimmed p w) (sep : List Char) :
    IsTrimmed p (List.intercalate sep ws) := by
  induction ws with
  | nil => exact isTrimmed_of_forall_not (by simp)
  | cons w ws ih =>
    obtain ⟨hne, hw⟩ := h w List.mem_cons_self
    have hrest : ∀ v ∈ ws, v ≠ [] ∧ IsTrimmed p v := fun v hv => h v (List.mem_cons_of_mem w hv)
    cases ws with
    | nil => simpa using hw
    | cons v ws =>
      have hv : v ≠ [] := (hrest v List.mem_cons_self).1
      rw [List.intercalate_cons_cons]
      refine hw.append (ih hrest) hne ?_ sep
      cases ws <;> simp [List.intercalate_cons_cons, hv]

theorem IsTrimmed.left_eq_nil (h : IsTrimmed p (s ++ t)) (hs : ∀ c ∈ s, p c) : s = [] := by
  cases s with
  | nil => rfl
  | cons c s => exact absurd (hs c List.mem_cons_self) (by simpa using h.1)

theorem IsTrimmed.right_eq_nil (h : IsTrimmed p (s ++ t)) (ht : ∀ c ∈ t, p c) : t = [] := by
  obtain rfl | ⟨t, c, rfl⟩ := t.eq_nil_or_concat'
  · rfl
  · exact absurd (ht c (by simp)) (by simpa [← List.append_assoc] using h.2)

theorem trimWhere_eq_self (h : IsTrimmed p s) : trimWhere p s = s := by
  have hstart : s.dropWhile p = s := dropWhile_append_eq (List.forall_mem_nil _) h.1
  have hend := trimEndWhere_append (List.forall_mem_nil _) h.2
  rw [List.append_nil] at hend
  rw [trimWhere, hstart, hend]

theorem trimWhere_between (hu : ∀ c ∈ u, p c) {v : List Char} (hv : ∀ c ∈ v, p c)
    (h : IsTrimmed p t) : trimWhere p (u ++ t ++ v) = t := by
  cases t with
  | nil =>
    have hall : ∀ c ∈ u ++ [] ++ v, p c := by
      simpa [or_imp, forall_and] using ⟨hu, hv⟩
    rw [trimWhere, List.dropWhile_eq_nil_iff.2 hall]
    rfl
  | cons c t =>
    have hstart : ¬(c :: t ++ v).head?.any p := h.1
    rw [trimWhere, List.append_assoc, dropWhile_append_eq hu hstart, trimEndWhere_append hv h.2]

theorem exists_trimWhere (p : Char → Bool) (s : List Char) :
    ∃ u v, (∀ c ∈ u, p c) ∧ (∀ c ∈ v, p c) ∧ s = u ++ trimWhere p s ++ v := by
  obtain ⟨u, hu, hs⟩ := exists_dropWhile p s
  obtain ⟨v, hv, hd⟩ := exists_trimEndWhere p (s.dropWhile p)
  exact ⟨u, v, hu, hv, by rw [trimWhere, List.append_assoc, ← hd, ← hs]⟩

theorem mem_of_mem_trimWhere (h : c ∈ trimWhere p s) : c ∈ s := by
  obtain ⟨u, v, -, -, hs⟩ := exists_trimWhere p s
  rw [hs]
  exact List.mem_append_left v (List.mem_append_right u h)

theorem isTrimmed_trimWhere (p : Char → Bool) (s : List Char) : IsTrimmed p (trimWhere p s) := by
  have hhead : ∀ t : List Char, ¬(t.dropWhile p).head?.any p := by
    intro t
    have h := List.head?_dropWhile_not p t
    cases hd : (t.dropWhile p).head? <;> simp_all
  obtain ⟨v, -, hd⟩ := exists_trimEndWhere p (s.dropWhile p)
  constructor
  · -- What is left after trimming the end starts as before.
    have hstart := hhead s
    rw [trimWhere]
    cases hend : trimEndWhere p (s.dropWhile p) with
    | nil => simp
    | cons c t =>
      rw [hd, hend] at hstart
      exact hstart
  · rw [trimWhere, trimEndWhere, List.getLast?_reverse]
    exact hhead _

theorem trim_eq_self {s : String} (h : IsTrimmed isBlank s.toList) : trim s = s := by
  rw [trim, trimWhere_eq_self h, String.ofList_toList]

theorem isTrimmed_trim (s : String) : IsTrimmed isBlank (trim s).toList := by
  rw [trim, String.toList_ofList]
  exact isTrimmed_trimWhere isBlank s.toList

theorem wordsFrom_append (run : List Char) (ht : ∀ c ∈ t, ¬p c) :
    wordsFrom p run (t ++ s) = wordsFrom p (t.reverse ++ run) s := by
  induction t generalizing run with
  | nil => rfl
  | cons c t ih =>
    have hc : ¬p c := ht c List.mem_cons_self
    have hrest := ih (c :: run) fun c' hc' => ht c' (List.mem_cons_of_mem c hc')
    rw [List.cons_append, wordsFrom.eq_def]
    simp [hc, hrest]

theorem wordsFrom_blank_append (hu : ∀ c ∈ u, p c) (s : List Char) :
    wordsFrom p [] (u ++ s) = wordsFrom p [] s := by
  induction u with
  | nil => rfl
  | cons c u ih =>
    rw [List.cons_append, wordsFrom, if_pos (hu c List.mem_cons_self), List.isEmpty_nil, if_pos rfl,
      ih fun c' hc' => hu c' (List.mem_cons_of_mem c hc')]

theorem wordsFrom_append_blank (hu : ∀ c ∈ u, p c) (run s : List Char) :
    wordsFrom p run (s ++ u) = wordsFrom p run s := by
  induction s generalizing run with
  | nil =>
    cases run with
    | nil => simpa using wordsFrom_blank_append hu []
    | cons a run =>
      cases u with
      | nil => rfl
      | cons c u =>
        have hrest := wordsFrom_blank_append (fun c' hc' => hu c' (List.mem_cons_of_mem c hc')) []
        simpa [wordsFrom, hu c List.mem_cons_self] using hrest
  | cons c s ih =>
    rw [List.cons_append, wordsFrom.eq_def, wordsFrom.eq_def p run (c :: s)]
    simp only [ih]

theorem wordsFrom_between (hu : ∀ c ∈ u, p c) {v : List Char} (hv : ∀ c ∈ v, p c)
    (s : List Char) : wordsFrom p [] (u ++ s ++ v) = wordsFrom p [] s := by
  rw [wordsFrom_append_blank hv, wordsFrom_blank_append hu]

def AreWords (p : Char → Bool) (ws : List (List Char)) : Prop :=
  ∀ w ∈ ws, w ≠ [] ∧ ∀ c ∈ w, ¬p c

theorem AreWords.isTrimmed (h : AreWords p ws) (sep : List Char) :
    IsTrimmed p (List.intercalate sep ws) :=
  isTrimmed_intercalate (fun w hw => ⟨(h w hw).1, isTrimmed_of_forall_not (h w hw).2⟩) sep

theorem wordsFrom_intercalate (h : AreWords p ws) (hc : p c) :
    wordsFrom p [] (List.intercalate [c] ws) = ws := by
  induction ws with
  | nil => rfl
  | cons w ws ih =>
    obtain ⟨hne, hw⟩ := h w List.mem_cons_self
    have hrest := ih fun v hv => h v (List.mem_cons_of_mem w hv)
    obtain ⟨a, run, hrun⟩ := List.exists_cons_of_ne_nil (List.reverse_ne_nil_iff.2 hne)
    have hwrun : (a :: run).reverse = w := by rw [← hrun, List.reverse_reverse]
    cases ws with
    | nil =>
      have hread : wordsFrom p [] (w ++ []) = wordsFrom p (w.reverse ++ []) [] :=
        wordsFrom_append [] hw
      rw [List.append_nil, List.append_nil, hrun] at hread
      rw [List.intercalate_singleton, hread, wordsFrom, hwrun]
      exact List.cons_ne_nil a run
    | cons v ws =>
      rw [List.intercalate_cons_cons, List.append_assoc, wordsFrom_append [] hw, List.append_nil,
        hrun, List.singleton_append, wordsFrom, if_pos hc]
      simp [hrest, ← hwrun]

end Text

end CatalogLinker
