import CatalogLinker.Diagnostic
import Mathlib.Data.List.Basic

namespace CatalogLinker

namespace Level

def IsMostSevere (l : Level) (ls : List Level) : Prop :=
  l ∈ ls ∧ ∀ m ∈ ls, l.rank ≤ m.rank

instance (l : Level) (ls : List Level) : Decidable (l.IsMostSevere ls) :=
  inferInstanceAs (Decidable (_ ∧ _))

variable {l m : Level}

theorem worst_eq_or_eq (l m : Level) : l.worst m = l ∨ l.worst m = m := by
  unfold worst
  split <;> simp

theorem eq_help_iff : l = help ↔ help.rank ≤ l.rank := by
  cases l <;> decide

theorem eq_help_of_lt (hm : ¬m.raises) (h : m.rank < l.rank) : l = help ∧ m = note := by
  cases m <;> simp [raises, rank] at hm
  · exact ⟨eq_help_iff.2 h, rfl⟩
  · cases l <;> simp [rank] at h

theorem isMostSevere_foldl (l : Level) (ls : List Level) :
    (ls.foldl worst l).IsMostSevere (l :: ls) := by
  induction ls generalizing l with
  | nil => exact ⟨List.mem_singleton_self l, by simp⟩
  | cons m ls ih =>
    obtain ⟨hmem, hleast⟩ := ih (l.worst m)
    have hworst : (ls.foldl worst (l.worst m)).rank ≤ min l.rank m.rank := by
      rw [← rank_worst]
      exact hleast _ List.mem_cons_self
    constructor
    · obtain heq | hrest := List.mem_cons.1 hmem
      · rw [List.foldl_cons, heq]
        obtain h | h := worst_eq_or_eq l m <;> simp [h]
      · exact List.mem_cons_of_mem l (List.mem_cons_of_mem m hrest)
    · intro k hk
      simp only [List.mem_cons] at hk
      rw [List.foldl_cons]
      obtain rfl | rfl | hrest := hk
      · omega
      · omega
      · exact hleast k (List.mem_cons_of_mem _ hrest)

end Level

namespace Diagnostic

def levels (d : Diagnostic) : List Level :=
  d.level :: d.annotations.map Annotation.level

/-- Advice with a note on it, and with nothing more severe than a note. -/
structure IsNotedAdvice (d : Diagnostic) : Prop where
  advice : d.level = .help
  note : ∃ a ∈ d.annotations, a.level = .note
  mild : ∀ a ∈ d.annotations, ¬a.level.raises

variable {d : Diagnostic}

theorem isMostSevere_raising (d : Diagnostic) : d.reportLevel.IsMostSevere
    (d.level :: (d.annotations.map Annotation.level).filter Level.raises) :=
  Level.isMostSevere_foldl _ _

theorem reportLevel_eq_help_iff :
    d.reportLevel = .help ↔ d.level = .help ∧ ∀ a ∈ d.annotations, ¬a.level.raises := by
  constructor
  · intro h
    obtain ⟨-, hleast⟩ := isMostSevere_raising d
    rw [h] at hleast
    refine ⟨Level.eq_help_iff.2 (hleast _ List.mem_cons_self), fun a ha hraises => ?_⟩
    have hmem := List.mem_filter.2 ⟨List.mem_map_of_mem ha, hraises⟩
    have ha : a.level = .help := Level.eq_help_iff.2 (hleast _ (List.mem_cons_of_mem _ hmem))
    rw [ha] at hraises
    exact absurd hraises (by decide)
  · rintro ⟨hlevel, hmild⟩
    have hnone : (d.annotations.map Annotation.level).filter Level.raises = [] := by
      simpa using hmild
    rw [reportLevel, hnone, List.foldl_nil, hlevel]

theorem isMostSevere_iff : d.reportLevel.IsMostSevere d.levels ↔ ¬d.IsNotedAdvice := by
  constructor
  · rintro ⟨-, hleast⟩ ⟨hlevel, ⟨a, ha, hnote⟩, hmild⟩
    have hle := hleast a.level (List.mem_cons_of_mem _ (List.mem_map_of_mem ha))
    rw [reportLevel_eq_help_iff.2 ⟨hlevel, hmild⟩, hnote] at hle
    exact absurd hle (by decide)
  · intro h
    obtain ⟨hmem, hleast⟩ := isMostSevere_raising d
    refine ⟨(List.filter_sublist.cons_cons d.level).subset hmem, fun m hm => ?_⟩
    obtain rfl | hm := List.mem_cons.1 hm
    · exact hleast _ List.mem_cons_self
    by_cases hraises : m.raises
    · exact hleast m (List.mem_cons_of_mem _ (List.mem_filter.2 ⟨hm, hraises⟩))
    · -- A level that the report does not heed is the most severe only where a note is on advice.
      by_contra hless
      obtain ⟨hhelp, hnote⟩ := Level.eq_help_of_lt hraises (Nat.lt_of_not_le hless)
      obtain ⟨hlevel, hmild⟩ := reportLevel_eq_help_iff.1 hhelp
      obtain ⟨a, ha, rfl⟩ := List.mem_map.1 hm
      exact h ⟨hlevel, ⟨a, ha, hnote⟩, hmild⟩

end Diagnostic

namespace Reporter

def renderAll (r : Reporter) (ds : List Diagnostic) : Reporter :=
  ds.foldl render r

variable (r : Reporter) (d : Diagnostic) (ds : List Diagnostic)

theorem render_eq : r.render d =
    ⟨r.errors + if d.reportLevel.isError then 1 else 0,
      r.warnings + if d.reportLevel = .warning then 1 else 0⟩ := by
  unfold render
  cases d.reportLevel <;> rfl

theorem renderAll_eq : r.renderAll ds =
    ⟨r.errors + ds.countP (·.reportLevel.isError),
      r.warnings + ds.countP (·.reportLevel = .warning)⟩ := by
  induction ds generalizing r with
  | nil => rfl
  | cons d ds ih =>
    rw [renderAll, List.foldl_cons, ← renderAll, ih, render_eq, List.countP_cons, List.countP_cons]
    simp only [decide_eq_true_eq, Nat.add_assoc, Nat.add_comm]

end Reporter

open Reporter

/-- The report on a diagnostic has the most severe level of the diagnostic and its annotations,
unless the diagnostic is advice with a note and nothing more severe on it; the report on such a
diagnostic is advice. After any diagnostics the reporter has counted the reports on errors and the
reports on warnings. -/
theorem reports_leveled_and_counted (ds : List Diagnostic) :
    (∀ d ∈ ds, (d.reportLevel.IsMostSevere d.levels ↔ ¬d.IsNotedAdvice) ∧
      (d.IsNotedAdvice → d.reportLevel = .help)) ∧
    (renderAll {} ds).errors =
      ds.countP (fun d => d.reportLevel = .internalError ∨ d.reportLevel = .error) ∧
    (renderAll {} ds).warnings = ds.countP (·.reportLevel = .warning) ∧
    ((renderAll {} ds).hasErrors ↔ 0 < (renderAll {} ds).errors) := by
  have herror : ∀ l : Level, l.isError = decide (l = .internalError ∨ l = .error) := by
    intro l
    cases l <;> rfl
  refine ⟨fun d _ => ⟨Diagnostic.isMostSevere_iff, fun h => ?_⟩, ?_, ?_, ?_⟩
  · exact Diagnostic.reportLevel_eq_help_iff.2 ⟨h.advice, h.mild⟩
  · rw [renderAll_eq]
    simp only [herror, Nat.zero_add]
  · simp only [renderAll_eq, Nat.zero_add]
  · simp [hasErrors]

def mixed : List Diagnostic :=
  [⟨"a", [.help "b", .error "c"], .warning⟩, ⟨"d", [.help "e"], .warning⟩,
    ⟨"f", [.note "g", .help "h"], .help⟩]

theorem mixed_leveled_and_counted :
    (∀ d ∈ mixed.take 2, d ∈ mixed ∧ d.reportLevel.IsMostSevere d.levels) ∧
    (∃ d ∈ mixed, d.IsNotedAdvice ∧ d.reportLevel = .help) ∧
    (renderAll {} mixed).errors = 1 ∧ (renderAll {} mixed).warnings = 1 ∧
    (renderAll {} mixed).hasErrors := by
  obtain ⟨hlevels, herrors, hwarnings, hfailed⟩ := reports_leveled_and_counted mixed
  have hadvice : Diagnostic.IsNotedAdvice ⟨"f", [.note "g", .help "h"], .help⟩ :=
    ⟨rfl, ⟨.note "g", by decide, rfl⟩, by decide⟩
  refine ⟨fun d hd => ?_, ⟨_, by decide, hadvice, (hlevels _ (by decide)).2 hadvice⟩, ?_, ?_, ?_⟩
  · have hmem : d ∈ mixed := List.mem_of_mem_take hd
    refine ⟨hmem, (hlevels d hmem).1.2 fun h => ?_⟩
    have hlevel : ∀ d ∈ mixed.take 2, d.level ≠ .help := by decide
    exact hlevel d hd h.advice
  · rw [herrors]
    decide
  · rw [hwarnings]
    decide
  · rw [hfailed, herrors]
    decide

/-- The report on advice with a note is advice, which is less severe than the note. -/
theorem notedAdvice_understated :
    ∃ d : Diagnostic, d = ⟨"m", [.note "n"], .help⟩ ∧ d.reportLevel = .help ∧
      Level.note.IsMostSevere d.levels ∧ ¬d.reportLevel.IsMostSevere d.levels := by
  refine ⟨_, rfl, ?_, ?_, ?_⟩ <;> decide

end CatalogLinker
