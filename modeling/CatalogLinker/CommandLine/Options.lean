import CatalogLinker.Text.Search

namespace CatalogLinker.CommandLine

inductive Opt where
  | output
  | library
  | setting
  | compiled
  | globals
  | pre
  | post
  | help
deriving DecidableEq, Repr

namespace Opt

def all : List Opt :=
  [output, library, setting, compiled, globals, pre, post, help]

def longName : Opt → String
  | output => "output"
  | library => "library"
  | setting => "setting"
  | compiled => "compiled"
  | globals => "globals"
  | pre => "pre"
  | post => "post"
  | help => "help"

def letter? : Opt → Option Char
  | output => some 'o'
  | library => some 'L'
  | setting => some 's'
  | compiled => some 'c'
  | help => some 'h'
  | _ => none

def takesValue (o : Opt) : Bool :=
  o ≠ help

def isRepeatable : Opt → Bool
  | library | setting | compiled | globals => true
  | _ => false

def ofLetter? (c : Char) : Option Opt :=
  all.find? (·.letter? == some c)

def ofName? (name : List Char) : Option Opt :=
  match name with
  | [c] => ofLetter? c
  | _ => all.find? fun o => o.longName.toList == name

end Opt

inductive OptionError where
  | unrecognized (name : String)
  | unexpectedValue (name : String)
  | missingValue (name : String)
  | repeated (opt : Opt)
  | missingOutput
deriving DecidableEq, Repr

namespace OptionError

def message : OptionError → String
  | unrecognized name => "Unrecognized option: '" ++ name ++ "'"
  | unexpectedValue name => "Option '" ++ name ++ "' does not take an argument"
  | missingValue name => "Argument to option '" ++ name ++ "' missing"
  | repeated o => "Option '" ++ o.longName ++ "' given more than once"
  | missingOutput => "Required option '-o OUTPUT' missing"

end OptionError

structure Given where
  opt : Opt
  value : String
deriving DecidableEq, Repr

/-- What a word of options says: the options that are complete, and one whose value is the next
word. -/
structure OptionWord where
  given : List Given := []
  pending : Option (Opt × String) := none
deriving DecidableEq, Repr

namespace OptionWord

def ofLetters : List Char → Except OptionError OptionWord
  | [] => .ok {}
  | c :: s =>
    match Opt.ofLetter? c with
    | none => .error (.unrecognized (String.singleton c))
    | some o =>
      if !o.takesValue then
        (ofLetters s).map fun w => { w with given := ⟨o, ""⟩ :: w.given }
      else if s.isEmpty then .ok { pending := some (o, String.singleton c) }
      else .ok { given := [⟨o, String.ofList s⟩] }

def ofLong (s : List Char) : Except OptionError OptionWord :=
  let (name, value) := match Text.cutAt? '=' s with
    | some (name, value) => (name, some (String.ofList value))
    | none => (s, none)
  let nameText := String.ofList name
  match Opt.ofName? name, value with
  | none, _ => .error (.unrecognized nameText)
  | some o, none =>
    if o.takesValue then .ok { pending := some (o, nameText) } else .ok { given := [⟨o, ""⟩] }
  | some o, some v =>
    if o.takesValue then .ok { given := [⟨o, v⟩] } else .error (.unexpectedValue nameText)

end OptionWord

structure Words where
  given : List Given := []
  free : List String := []
deriving DecidableEq, Repr

namespace Words

def addGiven (gs : List Given) (w : Words) : Words :=
  { w with given := gs ++ w.given }

def addFree (s : String) (w : Words) : Words :=
  { w with free := s :: w.free }

/-- Reads words one after another. A word that starts with a dash and is longer than one byte holds
options: one by its long name, with an optional `=value`, or several by their letters, the last of
which may take the rest of the word as its value. The word `--` ends the options. -/
def read : List String → Except OptionError Words
  | [] => .ok {}
  | arg :: args =>
    match arg.toList with
    | '-' :: c :: s =>
      if c = '-' ∧ s = [] then .ok { free := args }
      else
        match if c = '-' then OptionWord.ofLong s else OptionWord.ofLetters (c :: s) with
        | .error e => .error e
        | .ok ⟨given, none⟩ => (read args).map (addGiven given)
        | .ok ⟨given, some (o, name)⟩ =>
          match args with
          | [] => .error (.missingValue name)
          | value :: args => (read args).map (addGiven (given ++ [⟨o, value⟩]))
    | _ => (read args).map (addFree arg)

def values (w : Words) (o : Opt) : List String :=
  (w.given.filter (·.opt = o)).map Given.value

def repeated? (w : Words) : Option Opt :=
  Opt.all.find? fun o => !o.isRepeatable && (w.values o).length > 1

end Words

inductive Command where
  | help
  | link (output : String) (libraries settings compiled globals : List String)
      (pre post : Option String) (symbols : List String)
deriving DecidableEq, Repr

namespace Command

def ofWords (w : Words) : Except OptionError Command :=
  if !(w.values .help).isEmpty then .ok .help
  else
    match (w.values .output).head? with
    | none => .error .missingOutput
    | some output =>
      .ok (.link output (w.values .library) (w.values .setting) (w.values .compiled)
        (w.values .globals) (w.values .pre).head? (w.values .post).head? w.free)

def inputs : Command → List String
  | help => []
  | link _ libraries _ _ _ pre post _ => libraries ++ pre.toList ++ post.toList

def ofArgs (args : List String) : Except OptionError Command := do
  let w ← Words.read args
  match w.repeated? with
  | some o => throw (.repeated o)
  | none => ofWords w

end Command

def usage : String :=
  "Usage: jsld [OPTIONS] -o OUTPUT SYMBOL...\n\nOptions:\n"
    ++ "    -o, --output OUTPUT set output file name\n"
    ++ "    -L, --library FILE  read library catalog\n"
    ++ "    -s, --setting NAME=VALUE\n                        apply link setting\n"
    ++ "    -c, --compiled NAME name already provided by compiled code\n"
    ++ "        --globals SYMBOL\n                        request in the global-only pass\n"
    ++ "        --pre FILE      file to emit before generated code\n"
    ++ "        --post FILE     file to emit after generated code\n"
    ++ "    -h, --help          print this help menu\n\n"

end CatalogLinker.CommandLine
