import CatalogLinker.Resolution.Session

namespace CatalogLinker

theorem intercalate_ne_empty {ts : List String} (hne : ts ≠ []) (h : ∀ t ∈ ts, t ≠ "") :
    String.intercalate "\n" ts ≠ "" := by
  cases ts with
  | nil => exact absurd rfl hne
  | cons t ts =>
    have ht := h t List.mem_cons_self
    cases ts with
    | nil => simpa using ht
    | cons u us => simp [ht]

theorem joinTexts_eq_empty {ts : List String} (h : ts.filter (· ≠ "") = []) :
    joinTexts ts = "" := by
  rw [joinTexts, h, String.intercalate_nil]

theorem joinTexts_ne_empty {ts : List String} (h : ts.filter (· ≠ "") ≠ []) :
    joinTexts ts ≠ "" :=
  intercalate_ne_empty h fun t ht => by simpa using (List.mem_filter.1 ht).2

theorem joinTexts_append (as bs : List String) :
    joinTexts (as ++ bs) =
      if joinTexts as = "" then joinTexts bs
      else if joinTexts bs = "" then joinTexts as
      else joinTexts as ++ "\n" ++ joinTexts bs := by
  by_cases ha : as.filter (· ≠ "") = []
  · rw [if_pos (joinTexts_eq_empty ha), joinTexts, List.filter_append, ha, List.nil_append]
    rfl
  · rw [if_neg (joinTexts_ne_empty ha)]
    by_cases hb : bs.filter (· ≠ "") = []
    · rw [if_pos (joinTexts_eq_empty hb), joinTexts, List.filter_append, hb, List.append_nil]
      rfl
    · rw [if_neg (joinTexts_ne_empty hb), joinTexts, List.filter_append,
        String.intercalate_append_of_ne_nil ha hb]
      rfl

@[simp] theorem joinTexts_nil : joinTexts [] = "" := rfl

@[simp] theorem joinTexts_singleton (t : String) : joinTexts [t] = t := by
  by_cases h : t = "" <;> simp [joinTexts, h]

@[simp] theorem joinTexts_empty_cons (ts : List String) : joinTexts ("" :: ts) = joinTexts ts := by
  simp [joinTexts]

theorem joinTexts_append_congr {as as' bs bs' : List String} (ha : joinTexts as = joinTexts as')
    (hb : joinTexts bs = joinTexts bs') : joinTexts (as ++ bs) = joinTexts (as' ++ bs') := by
  rw [joinTexts_append, joinTexts_append, ha, hb]

theorem joinTexts_join_cons (as bs : List String) :
    joinTexts (joinTexts as :: bs) = joinTexts (as ++ bs) := by
  have h : joinTexts [joinTexts as] = joinTexts as := joinTexts_singleton _
  exact joinTexts_append_congr h rfl

theorem joinTexts_of_ne_empty {ts : List String} (h : ∀ t ∈ ts, t ≠ "") :
    joinTexts ts = String.intercalate "\n" ts := by
  rw [joinTexts, List.filter_eq_self.2 fun t ht => by simpa using h t ht]

theorem intercalate_append_congr {as as' bs bs' : List String} (has : as ≠ []) (has' : as' ≠ [])
    (hbs : bs ≠ []) (hbs' : bs' ≠ [])
    (ha : String.intercalate "\n" as = String.intercalate "\n" as')
    (hb : String.intercalate "\n" bs = String.intercalate "\n" bs') :
    String.intercalate "\n" (as ++ bs) = String.intercalate "\n" (as' ++ bs') := by
  rw [String.intercalate_append_of_ne_nil has hbs, String.intercalate_append_of_ne_nil has' hbs', ha,
    hb]

theorem intercalate_middle_congr {as bs bs' cs : List String} (hbs : ∀ t ∈ bs, t ≠ "")
    (hbs' : ∀ t ∈ bs', t ≠ "")
    (h : String.intercalate "\n" bs = String.intercalate "\n" bs') :
    String.intercalate "\n" (as ++ bs ++ cs) = String.intercalate "\n" (as ++ bs' ++ cs) := by
  by_cases hb : bs = []
  · have hb' : bs' = [] := by
      refine Decidable.byContradiction fun hb' => ?_
      exact intercalate_ne_empty hb' hbs' (by rw [← h, hb, String.intercalate_nil])
    rw [hb, hb']
  · have hb' : bs' ≠ [] := by
      intro hb'
      exact intercalate_ne_empty hb hbs (by rw [h, hb', String.intercalate_nil])
    have front : String.intercalate "\n" (as ++ bs) = String.intercalate "\n" (as ++ bs') := by
      by_cases ha : as = []
      · rw [ha, List.nil_append, List.nil_append, h]
      · exact intercalate_append_congr ha ha hb hb' rfl h
    by_cases hc : cs = []
    · rw [hc, List.append_nil, List.append_nil, front]
    · exact intercalate_append_congr (List.append_ne_nil_of_right_ne_nil as hb)
        (List.append_ne_nil_of_right_ne_nil as hb') hc hc front rfl

end CatalogLinker
