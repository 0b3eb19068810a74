namespace CatalogLinker

inductive Level where
  | internalError
  | error
  | warning
  | note
  | help
deriving DecidableEq, Inhabited, Repr

namespace Level

def rank : Level → Nat
  | internalError => 1
  | error => 2
  | warning => 3
  | note => 4
  | help => 5

def text : Level → String
  | internalError => "internal error"
  | error => "error"
  | warning => "warning"
  | note => "note"
  | help => "help"

def isError (l : Level) : Bool :=
  l.rank ≤ error.rank

/-- Whether an annotation of this level counts toward the level of its report: notes and help never
do. -/
def raises (l : Level) : Bool :=
  l.rank ≤ warning.rank

def worst (a b : Level) : Level :=
  if b.rank < a.rank then b else a

theorem rank_worst (a b : Level) : (a.worst b).rank = min a.rank b.rank := by
  unfold worst
  split <;> omega

end Level

structure Annotation where
  level : Level
  label : String
deriving DecidableEq, Inhabited, Repr

namespace Annotation

def error (label : String) : Annotation := ⟨.error, label⟩

def note (label : String) : Annotation := ⟨.note, label⟩

def help (label : String) : Annotation := ⟨.help, label⟩

end Annotation

structure Diagnostic where
  message : String
  annotations : List Annotation := []
  level : Level := .error
deriving DecidableEq, Inhabited, Repr

namespace Diagnostic

def reportLevel (d : Diagnostic) : Level :=
  ((d.annotations.map Annotation.level).filter Level.raises).foldl Level.worst d.level

def line (l : Level) (s : String) : String :=
  l.text ++ ": " ++ s ++ "\n"

def reportText (d : Diagnostic) : String :=
  line d.reportLevel d.message
    ++ String.join (d.annotations.map fun a => "  = " ++ line a.level a.label)

end Diagnostic

structure Reporter where
  errors : Nat := 0
  warnings : Nat := 0
deriving DecidableEq, Inhabited, Repr

namespace Reporter

def render (r : Reporter) (d : Diagnostic) : Reporter :=
  if d.reportLevel.isError then { r with errors := r.errors + 1 }
  else if d.reportLevel = .warning then { r with warnings := r.warnings + 1 }
  else r

def hasErrors (r : Reporter) : Bool :=
  r.errors > 0

end Reporter

end CatalogLinker
