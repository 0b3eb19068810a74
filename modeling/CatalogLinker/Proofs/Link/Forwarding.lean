import CatalogLinker.Proofs.Link.Registration

namespace CatalogLinker

namespace Ident

variable {i : Ident}

theorem finalName_cases (i : Ident) :
    (i.beginsWith "$" ∧ i.text = "$" ++ i.finalName.text) ∨
      (¬i.beginsWith "$" ∧ i.finalName.text = "_" ++ i.text) := by
  have hbegins : i.beginsWith "$" ↔ ∃ rest, '$' :: rest = i.text.toList :=
    List.isPrefixOf_iff_prefix
  rw [hbegins, finalName]
  split
  · rename_i rest h
    refine .inl ⟨⟨rest, h.symm⟩, ?_⟩
    rw [← String.toList_inj, h]
    simp
  · rename_i h
    exact .inr ⟨fun ⟨rest, hrest⟩ => h rest hrest.symm, rfl⟩

theorem text_eq_of_dollar (hi : i.beginsWith "$") : i.text = "$" ++ i.finalName.text :=
  (i.finalName_cases.resolve_right fun h => h.1 hi).2

theorem finalName_text_eq_iff : i.finalName.text = "_" ++ i.text ↔ ¬i.beginsWith "$" := by
  obtain ⟨hi, htext⟩ | ⟨hi, hname⟩ := i.finalName_cases
  · refine iff_of_false (fun hname => ?_) (not_not.2 hi)
    have hlength := congrArg String.length hname
    rw [htext, String.length_append, String.length_append] at hlength
    have hunderscore : "_".length = 1 := by decide
    omega
  · exact iff_of_true hname hi

end Ident

theorem eq_of_append_eq {a a' t t' c : String} (h : a ++ t ++ c = a' ++ t' ++ c)
    (hlength : t.length = t'.length) : t = t' := by
  rw [String.append_left_inj] at h
  have hlists := congrArg String.toList h
  rw [String.toList_append, String.toList_append] at hlists
  refine String.toList_inj.1 (List.append_inj' hlists ?_).2
  rwa [String.length_toList, String.length_toList]

theorem FunctionBody.forwardingThunk_inj {i : Ident} {target target' : String} {assertions : Bool}
    (h : forwardingThunk i target assertions = forwardingThunk i target' assertions) :
    target = target' := by
  unfold forwardingThunk at h
  refine eq_of_append_eq h ?_
  -- The target occurs once or twice, so that the length of the thunk decides that of the target.
  have hlength := congrArg String.length h
  cases assertions with
  | false =>
    simp only [Bool.false_eq_true, if_false, String.length_append] at hlength
    omega
  | true =>
    simp only [if_true, missingTargetCheck, String.length_append] at hlength
    omega

namespace Plan

variable {p : Plan} {i : Ident} {holder key key' : String}

def IsDead (p : Plan) (i : Ident) : Prop :=
  i.finalName ∈ p.config.deadNames ∧ ¬(p.item i).inCompiledSection

/-- A plan satisfies an identifier with a thunk to another module: a side module does so for
everything that is not dead, and a main module for what it does not define. -/
inductive Forwards (p : Plan) (i : Ident) : String → Prop
  | toParent : p.config.linkage = .sideModule → ¬p.IsDead i → Forwards p i "parentModule"
  | toModule : p.config.linkage = .mainModule → ¬p.IsDead i → ¬p.isDefined i →
      Forwards p i "Module"

def Reads (p : Plan) (i : Ident) (holder key : String) : Prop :=
  p.entry? i = some (.body
    (FunctionBody.forwardingThunk i (holder ++ "['" ++ key ++ "']") p.config.assertions))

def assignment (key : String) (n : Name) : String :=
  "Module[\"" ++ key ++ "\"] = " ++ n.text ++ ";"

theorem registration_eq (n : Name) : registration n = assignment n.text n := rfl

theorem Reads.key_eq (h : p.Reads i holder key) (h' : p.Reads i holder key') : key = key' := by
  have hbody := Entry.body.inj (Option.some.inj (h.symm.trans h'))
  have htarget := FunctionBody.forwardingThunk_inj hbody
  rwa [String.append_left_inj, String.append_right_inj] at htarget

theorem forwardTarget_eq (i : Ident) (holder : String) :
    forwardTarget i holder = holder ++ "['" ++ ("_" ++ i.text) ++ "']" := by
  have hmark : "['_" = "['" ++ "_" := rfl
  rw [forwardTarget, hmark]
  simp only [String.append_assoc]

theorem Forwards.reads (h : p.Forwards i holder) : p.Reads i holder ("_" ++ i.text) := by
  cases h with
  | toParent hl hd =>
    have hdead : ¬(p.isListedDead i && !(p.item i).inCompiledSection) := by
      simpa [isListedDead, IsDead] using hd
    have ho : p.outcome i = .forwardedToParent := by rw [outcome, if_neg hdead, if_pos hl]
    rw [Reads, entry?, ho, ← forwardTarget_eq]
  | toModule hl hd hi =>
    have hpursues : p.Pursues i := ⟨hd, by rw [hl]; decide⟩
    have ho : p.outcome i = .forwardedToModule := by
      rw [outcome_of_pursues hpursues, if_pos (by simpa using hi), if_pos hl]
    rw [Reads, entry?, ho, ← forwardTarget_eq]

end Plan

theorem Ident.registration_ne_of_dollar {i : Ident} (hi : i.beginsWith "$") (text text' : String) :
    text ++ "\n" ++ Plan.registration i.finalName ≠
      text' ++ "\n" ++ Plan.assignment ("_" ++ i.text) i.finalName := by
  intro h
  rw [Plan.registration_eq, Plan.assignment, Plan.assignment, text_eq_of_dollar hi] at h
  -- The quotation mark in front of the name stands where the other statement has the `$`.
  have hmark : "Module[\"" = "Module[" ++ "\"" := rfl
  have hsplit : text ++ "\n" ++ "Module[" ++ "\"" ++
        (i.finalName.text ++ ("\"] = " ++ (i.finalName.text ++ ";"))) =
      text' ++ "\n" ++ "Module[\"" ++ "_" ++ "$" ++
        (i.finalName.text ++ ("\"] = " ++ (i.finalName.text ++ ";"))) := by
    rw [hmark] at h ⊢
    simpa only [String.append_assoc] using h
  exact absurd (eq_of_append_eq hsplit (by decide)) (by decide)

namespace Session

/-- A thunk reads one property, and this is the one that a module writes that declares the
identifier and exports it, unless the identifier starts with a `$`. -/
theorem read_where_registered_iff {p : Plan} {i : Ident} {holder : String}
    (h : p.Forwards i holder) :
    ∃ key, p.Reads i holder key ∧ (∀ key', p.Reads i holder key' → key' = key) ∧
      (key = i.finalName.text ↔ ¬i.beginsWith "$") ∧
      ∀ (q : Plan) (s s' : Session) (t : String), Places q s i s' t → t ≠ "" → q.isRegistrable i →
        (q.config.exportAll ∨ s.link.exports.contains i.finalName) →
        ((∃ text, t = text ++ "\n" ++ Plan.assignment key i.finalName) ↔ ¬i.beginsWith "$") := by
  have hreads : p.Reads i holder ("_" ++ i.text) := h.reads
  refine ⟨_, hreads, fun key' h' => h'.key_eq hreads, ?_, ?_⟩
  · rw [eq_comm, Ident.finalName_text_eq_iff]
  · intro q s s' t hp ht hi hexported
    obtain ⟨text, -, ⟨-, rfl⟩ | ⟨hnot, -⟩⟩ := hp.declares hi ht
    · constructor
      · rintro ⟨text', htext'⟩ hdollar
        exact Ident.registration_ne_of_dollar hdollar text text' htext'
      · intro hdollar
        refine ⟨text, ?_⟩
        rw [Plan.registration_eq, Ident.finalName_text_eq_iff.2 hdollar]
    · exact absurd hexported hnot

/-- A main module without a catalog, which forwards whatever it does not synthesize. -/
def forwardingMain : Plan where
  catalog := {}
  config := { linkage := .mainModule, assertions := false }

def forwardingSide : Plan where
  catalog := {}
  config := { linkage := .sideModule, assertions := false }

def providing : Plan where
  catalog := {
    items := [(⟨"x"⟩, { entry := some (.raw "1") }), (⟨"$FS"⟩, { entry := some (.raw "2") })]
    order := [⟨"x"⟩, ⟨"$FS"⟩] }
  config := { exportAll := true }

theorem forwardingMain_forwards {i : Ident} (hi : ¬forwardingMain.isDefined i) :
    forwardingMain.Forwards i "Module" :=
  .toModule rfl (fun h => absurd h.1 List.not_mem_nil) hi

theorem forwardingSide_forwards {i : Ident} : forwardingSide.Forwards i "parentModule" :=
  .toParent rfl fun h => absurd h.1 List.not_mem_nil

theorem forwardingModules_read :
    forwardingMain.Reads ⟨"x"⟩ "Module" "_x" ∧ forwardingSide.Reads ⟨"x"⟩ "parentModule" "_x" ∧
      ∃ s t text, Places providing { link := {} } ⟨"x"⟩ s t ∧
        t = text ++ "\n" ++ Plan.assignment "_x" ⟨"_x"⟩ := by
  obtain ⟨key, hmain, -, hkey, hwritten⟩ :=
    read_where_registered_iff (forwardingMain_forwards (i := ⟨"x"⟩) (by decide +kernel))
  obtain ⟨key', hside, -, hkey', -⟩ :=
    read_where_registered_iff (forwardingSide_forwards (i := ⟨"x"⟩))
  obtain rfl : key = "_x" := hkey.2 (by decide +kernel)
  obtain rfl : key' = "_x" := hkey'.2 (by decide +kernel)
  have hplaces : Places providing { link := {} } ⟨"x"⟩ _ _ :=
    .declared rfl rfl rfl
  obtain ⟨text, htext⟩ := (hwritten _ _ _ _ hplaces (by decide +kernel) (by decide +kernel)
    (.inl rfl)).2 (by decide +kernel)
  exact ⟨hmain, hside, _, _, text, hplaces, htext⟩

/-- The thunks for `$FS` read a property that no registration writes. -/
theorem forwardingModules_miss :
    (∃ s, Session.resolve forwardingMain { link := {} } ⟨"$FS"⟩ =
      (s, .ok "function FS() \x7b\n  return Module['_$FS'].apply(null, arguments);\n\x7d")) ∧
    (∃ s, Session.resolve forwardingSide { link := {} } ⟨"$FS"⟩ =
      (s, .ok "function FS() \x7b\n  return parentModule['_$FS'].apply(null, arguments);\n\x7d")) ∧
    (∃ s, Session.resolve providing { link := {} } ⟨"$FS"⟩ =
      (s, .ok "var FS=2;\nModule[\"FS\"] = FS;")) ∧
    (¬∀ key, forwardingMain.Reads ⟨"$FS"⟩ "Module" key →
      key = (Ident.finalName ⟨"$FS"⟩).text) ∧
    ¬∀ key, forwardingSide.Reads ⟨"$FS"⟩ "parentModule" key →
      key = (Ident.finalName ⟨"$FS"⟩).text := by
  have hother : "_" ++ (⟨"$FS"⟩ : Ident).text ≠ (Ident.finalName ⟨"$FS"⟩).text := by decide +kernel
  refine ⟨⟨_, Prod.ext rfl (by decide +kernel)⟩, ⟨_, Prod.ext rfl (by decide +kernel)⟩,
    ⟨_, Prod.ext rfl (by decide +kernel)⟩, fun h => ?_, fun h => ?_⟩
  · exact hother (h _ (forwardingMain_forwards (by decide +kernel)).reads)
  · exact hother (h _ forwardingSide_forwards.reads)

end Session

end CatalogLinker
