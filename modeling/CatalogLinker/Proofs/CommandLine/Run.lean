import CatalogLinker.CommandLine.Run
import CatalogLinker.Proofs.CommandLine.Workspace
import Mathlib.Data.List.Forall2

namespace CatalogLinker.CommandLine

inductive GoesThrough {σ α : Type} (step : σ → α → σ → Prop) : σ → List α → σ → Prop
  | nil (s : σ) : GoesThrough step s [] s
  | cons {s t u : σ} {a : α} {as : List α} :
      step s a t → GoesThrough step t as u → GoesThrough step s (a :: as) u

def Loads (w : Workspace) : Catalog → List String → Catalog → Prop :=
  GoesThrough fun c path d => ∃ s n, w.read path = .ok s ∧ c.read s = (d, .ok n)

def Configures : Config → List String → Config → Prop :=
  GoesThrough fun c pair d => c.setPair pair = .ok d

def AreRequests (texts : List String) (rs : List Request) : Prop :=
  List.Forall₂ (fun s r => Request.ofText s = .ok r) texts rs

def IsShellText (w : Workspace) (s : String) : Option String → Prop
  | none => s = ""
  | some path => w.read path = .ok s

namespace Command

def output? : Command → Option String
  | help => none
  | link output _ _ _ _ _ _ _ => some output

def Yields (w : Workspace) : Command → Output → Prop
  | help, _ => False
  | link _ libraries settings compiled globals pre post symbols, out =>
    ∃ catalog config requests globalRequests preamble postamble,
      Loads w {} libraries catalog ∧ Configures {} settings config ∧
      AreRequests symbols requests ∧ AreRequests globals globalRequests ∧
      IsShellText w preamble pre ∧ IsShellText w postamble post ∧
      CatalogLinker.link catalog config
        { requests, globals := globalRequests, compiled := compiled.map Name.mk }
        ⟨preamble, postamble⟩ = .ok out

end Command

/-- A command line asks for a link that succeeds and whose output can be created. -/
structure Delivers (w : Workspace) (args : List String) (output : String) (place : Place)
    (out : Output) : Prop where
  yields : ∃ c, Command.ofArgs args = .ok c ∧ c.output? = some output ∧ c.Yields w out
  created : w.create output = .ok place

/-- A text has been written to the file of a path, or given to the device that it names. Nothing
else has changed. -/
structure Replaced (w : Workspace) (path : String) (place : Place) (text : String)
    (w' : Workspace) : Prop where
  directory : w'.directory = w.directory
  elsewhere : ∀ p ≠ place, w'.content? p = w.content? p
  content : ¬w.IsDevice place → w'.content? place = some (.file text.toUTF8)
  readBack : ¬w.IsDevice place → w'.read path = .ok text
  device : w.IsDevice place → w' = w

theorem replaced_write {w : Workspace} {path : String} {place : Place}
    (h : w.create path = .ok place) (text : String) :
    Replaced w path place text (w.write place text) where
  directory := Workspace.write_directory
  elsewhere _ hp := Workspace.content?_write_of_ne hp
  content hd := by
    obtain ⟨_, -, -, hplace⟩ := Workspace.create_ok h
    exact Workspace.content?_write hplace hd
  readBack := Workspace.read_write h
  device := Workspace.write_of_isDevice

section Reading

variable {w : Workspace}

theorem goesThrough_nil_iff {σ α : Type} {step : σ → α → σ → Prop} {s t : σ} :
    GoesThrough step s [] t ↔ s = t := by
  constructor
  · intro h
    cases h
    rfl
  · rintro rfl
    exact .nil s

theorem goesThrough_cons_iff {σ α : Type} {step : σ → α → σ → Prop} {s u : σ} {a : α}
    {as : List α} :
    GoesThrough step s (a :: as) u ↔ ∃ t, step s a t ∧ GoesThrough step t as u := by
  constructor
  · rintro (_ | ⟨hstep, h⟩)
    exact ⟨_, hstep, h⟩
  · rintro ⟨t, hstep, h⟩
    exact .cons hstep h

theorem readCatalogs_eq_ok_iff {c d : Catalog} {paths : List String} :
    readCatalogs w.read c paths = .ok d ↔ Loads w c paths d := by
  induction paths generalizing c with
  | nil => rw [readCatalogs, Except.ok.injEq, Loads, goesThrough_nil_iff]
  | cons path paths ih =>
    rw [readCatalogs, bind_eq_ok_iff, Loads, goesThrough_cons_iff]
    simp only [readFile, mapError_eq_ok_iff]
    constructor
    · rintro ⟨s, hs, h⟩
      split at h
      · cases h
      · rename_i e n hread
        exact ⟨e, ⟨s, n, hs, hread⟩, ih.1 h⟩
    · rintro ⟨e, ⟨s, n, hs, hread⟩, h⟩
      refine ⟨s, hs, ?_⟩
      simp only [hread]
      exact ih.2 h

theorem applySettings_eq_ok_iff {c d : Config} {pairs : List String} :
    applySettings c pairs = .ok d ↔ Configures c pairs d := by
  induction pairs generalizing c with
  | nil => rw [applySettings, Except.ok.injEq, Configures, goesThrough_nil_iff]
  | cons pair pairs ih =>
    rw [applySettings, bind_eq_ok_iff, Configures, goesThrough_cons_iff]
    simp only [mapError_eq_ok_iff, ih, Configures]

theorem readRequests_eq_ok_iff {texts : List String} {rs : List Request} :
    readRequests texts = .ok rs ↔ AreRequests texts rs := by
  rw [readRequests, AreRequests]
  induction texts generalizing rs with
  | nil =>
    rw [List.mapM_nil, List.forall₂_nil_left_iff]
    exact Except.ok.injEq [] rs ▸ eq_comm
  | cons s texts ih =>
    rw [List.mapM_cons, bind_eq_ok_iff, List.forall₂_cons_left_iff]
    simp only [mapError_eq_ok_iff, bind_eq_ok_iff, ih]
    constructor
    · rintro ⟨r, hr, rs', hrs, h⟩
      exact ⟨r, rs', hr, hrs, (Except.ok.inj h).symm⟩
    · rintro ⟨r, rs', hr, hrs, rfl⟩
      exact ⟨r, hr, rs', hrs, rfl⟩

theorem readShell_eq_ok_iff {path : Option String} {s : String} :
    readShell w.read path = .ok s ↔ IsShellText w s path := by
  cases path with
  | none => rw [readShell, Except.ok.injEq, IsShellText, eq_comm]
  | some path => rw [readShell, readFile, mapError_eq_ok_iff, IsShellText]

theorem linkFiles_eq_ok_iff (output : String) {libraries settings compiled globals : List String}
    {pre post : Option String} {symbols : List String} {out : Output} :
    linkFiles w.read libraries settings compiled globals pre post symbols = .ok out ↔
      (Command.link output libraries settings compiled globals pre post symbols).Yields w out := by
  simp only [linkFiles, bind_eq_ok_iff, mapError_eq_ok_iff, readCatalogs_eq_ok_iff,
    applySettings_eq_ok_iff, readRequests_eq_ok_iff, readShell_eq_ok_iff, Command.Yields]
  constructor
  · rintro ⟨catalog, hcatalog, config, hconfig, requests, hrequests, globals, hglobals, preamble,
      hpre, postamble, hpost, hlink⟩
    exact ⟨catalog, config, requests, globals, preamble, postamble, hcatalog, hconfig, hrequests,
      hglobals, hpre, hpost, hlink⟩
  · rintro ⟨catalog, config, requests, globals, preamble, postamble, hcatalog, hconfig, hrequests,
      hglobals, hpre, hpost, hlink⟩
    exact ⟨catalog, hcatalog, config, hconfig, requests, hrequests, globals, hglobals, preamble,
      hpre, postamble, hpost, hlink⟩

end Reading

section Running

variable {w : Workspace} {args : List String}

theorem run_help (h : Command.ofArgs args = .ok .help) :
    (run w args).1 = w ∧ (run w args).2.exit = 0 := by
  rw [run, start, h]
  exact ⟨rfl, rfl⟩

theorem run_delivers {output : String} {place : Place} {out : Output}
    (h : Delivers w args output place out) :
    (run w args).1 = w.write place (out.text ++ "\n") ∧ (run w args).2.exit = 0 := by
  obtain ⟨⟨c, hc, ho, hy⟩, hp⟩ := h
  cases c with
  | help => cases ho
  | link output' libraries settings compiled globals pre post symbols =>
    obtain rfl : output' = output := Option.some.inj ho
    have hstart : start w.read args = .linked output' (out.text ++ "\n") (noticesText out) := by
      simp only [start, hc, Command.start, (linkFiles_eq_ok_iff output').2 hy]
    rw [run, hstart]
    dsimp only
    rw [hp]
    exact ⟨rfl, rfl⟩

theorem run_failed {e : CommandError} {output notices : String}
    (h : run w args = (w, failed e output notices)) :
    (run w args).1 = w ∧ (run w args).2.exit ≠ 0 := by
  rw [h]
  exact ⟨rfl, (by decide : (1 : UInt32) ≠ 0)⟩

/-- A run gives help, or fails without a trace, or has a link to deliver. -/
theorem run_cases (w : Workspace) (args : List String) :
    Command.ofArgs args = .ok .help ∨
    ((run w args).1 = w ∧ (run w args).2.exit ≠ 0) ∨
    ∃ output place out, Delivers w args output place out := by
  cases hc : Command.ofArgs args with
  | error e =>
    refine .inr (.inl ?_)
    rw [run, start, hc]
    exact ⟨rfl, (by decide : (64 : UInt32) ≠ 0)⟩
  | ok c =>
    cases c with
    | help => exact .inl rfl
    | link output libraries settings compiled globals pre post symbols =>
      cases hl : linkFiles w.read libraries settings compiled globals pre post symbols with
      | error e =>
        have hrun : run w args = (w, failed e output "") := by
          simp only [run, start, hc, Command.start, hl]
        exact .inr (.inl (run_failed hrun))
      | ok out =>
        cases hp : w.create output with
        | error e =>
          have hrun : run w args = (w, failed (.file e) output (noticesText out)) := by
            simp only [run, start, hc, Command.start, hl, hp]
          exact .inr (.inl (run_failed hrun))
        | ok place =>
          have hy := (linkFiles_eq_ok_iff output).1 hl
          exact .inr (.inr ⟨output, place, out, ⟨_, hc, rfl, hy⟩, hp⟩)

/-- A run that fails changes nothing, and neither does one that gives help. Any other run has a link
to deliver, and whenever there is one it ends up in the output, which may be a file that is read for
it. -/
theorem run_writes_output (w : Workspace) (args : List String) :
    ((run w args).2.exit ≠ 0 → (run w args).1 = w) ∧
    (Command.ofArgs args = .ok .help → (run w args).1 = w ∧ (run w args).2.exit = 0) ∧
    ((run w args).2.exit = 0 → Command.ofArgs args ≠ .ok .help →
      ∃ output place out, Delivers w args output place out) ∧
    (∀ output place out, Delivers w args output place out →
      (run w args).2.exit = 0 ∧
        Replaced w output place (out.text ++ "\n") (run w args).1) := by
  refine ⟨fun hexit => ?_, run_help, fun hexit hhelp => ?_, fun output place out h => ?_⟩
  · obtain hhelp | ⟨hw, -⟩ | ⟨output, place, out, h⟩ := run_cases w args
    · exact (run_help hhelp).1
    · exact hw
    · exact absurd (run_delivers h).2 hexit
  · obtain h | ⟨-, h⟩ | h := run_cases w args
    · exact absurd h hhelp
    · exact absurd hexit h
    · exact h
  · obtain ⟨hrun, hexit⟩ := run_delivers h
    exact ⟨hexit, hrun ▸ replaced_write h.created _⟩

def page : Workspace :=
  .ofContents [("page", .file "// page".toUTF8),
    ("lib", .file "<library><value key='x'>1</value></library>".toUTF8)]

def pageArgs : List String :=
  ["-L", "lib", "-s", "assertions=0", "--pre", "page", "-o", "page", "x"]

theorem page_rewritten :
    ((run page []).2.exit ≠ 0 ∧ (run page []).1 = page) ∧
    (Command.ofArgs ["-h"] = .ok .help ∧ (run page ["-h"]).1 = page) ∧
    ((run page pageArgs).2.exit = 0 ∧ Command.ofArgs pageArgs ≠ .ok .help ∧
      ∃ output place out, Delivers page pageArgs output place out ∧
        Replaced page output place (out.text ++ "\n") (run page pageArgs).1) := by
  have hfails : (run page []).2.exit ≠ 0 := by decide +kernel
  have hhelp : Command.ofArgs ["-h"] = .ok .help := by decide +kernel
  have hexit : (run page pageArgs).2.exit = 0 := by decide +kernel
  have hlinks : Command.ofArgs pageArgs ≠ .ok .help := by decide +kernel
  obtain ⟨output, place, out, h⟩ := (run_writes_output page pageArgs).2.2.1 hexit hlinks
  have hreplaced := ((run_writes_output page pageArgs).2.2.2 output place out h).2
  exact ⟨⟨hfails, (run_writes_output page []).1 hfails⟩,
    ⟨hhelp, ((run_writes_output page ["-h"]).2.1 hhelp).1⟩,
    hexit, hlinks, output, place, out, h, hreplaced⟩

example : (run page pageArgs).1.read "page" = .ok ("// page\n" ++
    "// STATICTOP = STATIC_BASE + 0;\nvar _x=1;\nvar ASSERTIONS = false;\n\n" ++
    "/* no memory initializer */\n// EMSCRIPTEN_END_FUNCS\n\n") := by
  decide +kernel

end Running

end CatalogLinker.CommandLine
