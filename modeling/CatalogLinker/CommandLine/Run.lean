import CatalogLinker.Catalog.Document
import CatalogLinker.CommandLine.Options
import CatalogLinker.CommandLine.Workspace
import CatalogLinker.Link

namespace CatalogLinker.CommandLine

inductive CommandError where
  | file (e : FileError)
  | catalog (path : String) (e : DocumentError)
  | config (e : ConfigError)
  | request (e : RequestError)
  | link (e : LinkError)
deriving DecidableEq, Repr

namespace CommandError

def message : CommandError → String
  | file e => e.message
  | catalog path e => path ++ ": " ++ e.message
  | config e => e.message
  | request e => e.message
  | link e => e.message

def annotations : CommandError → List Annotation
  | config _ => [.help "settings are given as `-s NAME=VALUE`"]
  | link e => e.annotations
  | _ => []

def report (e : CommandError) (output : String) : String :=
  Diagnostic.reportText { message := e.message, annotations := e.annotations }
    ++ "fatal: failed to link `" ++ output ++ "`\n"

end CommandError

structure Result where
  exit : UInt32
  stdout : String := ""
  stderr : String := ""
deriving DecidableEq, Inhabited, Repr

inductive Progress where
  | ended (r : Result)
  | linked (output : String) (text : String) (notices : String)
deriving Repr

variable (read : String → Except FileError String)

def readFile (path : String) : Except CommandError String :=
  (read path).mapError .file

def readCatalogs (c : Catalog) : List String → Except CommandError Catalog
  | [] => .ok c
  | path :: paths => do
    let s ← readFile read path
    match c.read s with
    | (_, .error e) => throw (.catalog path e)
    | (c, .ok _) => readCatalogs c paths

def applySettings (config : Config) : List String → Except CommandError Config
  | [] => .ok config
  | pair :: pairs => do applySettings (← (config.setPair pair).mapError .config) pairs

def readRequests (texts : List String) : Except CommandError (List Request) :=
  texts.mapM fun s => (Request.ofText s).mapError .request

def readShell : Option String → Except CommandError String
  | none => .ok ""
  | some path => readFile read path

def linkFiles (libraries settings compiled globals : List String) (pre post : Option String)
    (symbols : List String) : Except CommandError Output := do
  let catalog ← readCatalogs read {} libraries
  let config ← applySettings {} settings
  let requests ← readRequests symbols
  let globals ← readRequests globals
  let preamble ← readShell read pre
  let postamble ← readShell read post
  let program : Program := { requests, globals, compiled := compiled.map Name.mk }
  (CatalogLinker.link catalog config program ⟨preamble, postamble⟩).mapError .link

def noticesText (o : Output) : String :=
  String.join (o.notices.map fun n => n.diagnostic.reportText)

def failed (e : CommandError) (output notices : String) : Result :=
  { exit := 1, stderr := notices ++ e.report output }

def Command.start : Command → Progress
  | .help => .ended { exit := 0, stdout := usage }
  | .link output libraries settings compiled globals pre post symbols =>
    match linkFiles read libraries settings compiled globals pre post symbols with
    | .error e => .ended (failed e output "")
    | .ok o => .linked output (o.text ++ "\n") (noticesText o)

def start (args : List String) : Progress :=
  match Command.ofArgs args with
  | .error e => .ended { exit := 64, stdout := usage, stderr := e.message ++ "\n" }
  | .ok c => c.start read

/-- Runs a command line in a working directory. All files are read before the output is created, and
nothing is written unless the link succeeds. -/
def run (w : Workspace) (args : List String) : Workspace × Result :=
  match start w.read args with
  | .ended r => (w, r)
  | .linked output text notices =>
    match w.create output with
    | .error e => (w, failed (.file e) output notices)
    | .ok place =>
      (w.write place text,
        { exit := 0
          stdout := w.streamed place .output text
          stderr := notices ++ w.streamed place .errors text })

end CatalogLinker.CommandLine
