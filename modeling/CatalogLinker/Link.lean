import CatalogLinker.MemoryImage
import CatalogLinker.Postset.Order
import CatalogLinker.Program
import CatalogLinker.Resolution.Session
import CatalogLinker.Sections

namespace CatalogLinker

structure Output where
  text : String
  exports : List Name
  proxies : List Name
  requestSigs : List (Name × String)
  compiledSigs : List (Name × String)
  libraryFns : List (Name × LibraryFn)
  notices : List LinkNotice
deriving Inhabited

namespace Link

def lines (texts : List String) : String :=
  String.intercalate "\n" texts

def defaultRequests (p : Plan) : List Request :=
  let defaults := p.config.defaultIdents
  let is :=
    if !p.config.fullCatalog then defaults
    else if p.config.linkage = .standalone then p.catalog.idents
    else defaults ++ p.catalog.idents
  is.map ({ ident := · })

/-- Declarations that allocate the static area of a side module and set it to zero. Its size is
filled in later. -/
def sideStaticArea (maxAlign : Nat) : List String :=
  let bump := "\x7b\x7b\x7b STATIC_BUMP \x7d\x7d\x7d"
  let align := Nat.repr (max maxAlign 1)
  ["gb = alignMemory(getMemory(" ++ bump ++ " + " ++ align ++ "), " ++ align ++ ");",
    "for (var i = gb; i < gb + " ++ bump ++ "; ++i) HEAP8[i] = 0;"]

def staticTopComment (top : Nat) : String :=
  "// STATICTOP = STATIC_BASE + " ++ Nat.repr top ++ ";"

def assertionsDeclaration (on : Bool) : String :=
  "var ASSERTIONS = " ++ (if on then "true" else "false") ++ ";"

def sections (config : Config) (program : Program) (proxies : ProxyTable)
    (globals main : List Fragment) : Sections :=
  let before :=
    (if config.linkage = .sideModule then sideStaticArea config.maxAlign.toNat else [])
      ++ [staticTopComment program.staticTop]
      ++ program.declarations.map GlobalVariable.declaration
  let after :=
    (if config.threadProxying && config.linkage ≠ .sideModule then [proxies.declaration] else [])
      ++ [assertionsDeclaration config.assertions]
  let s := before.foldl Sections.pushDeclaration {}
  let s := program.postsets.foldl Sections.pushPostset s
  after.foldl Sections.pushDeclaration ((s.pushAll globals).pushAll main)

def foldStore (m : MemoryImage) (p : Postset) : MemoryImage × Bool :=
  match p.store? with
  | some s => m.fold s
  | none => (m, false)

/-- Folds the stores among ordered postsets into an image; the postsets that remain keep their
order. -/
def foldStores (m : MemoryImage) : List Postset → MemoryImage × List Postset
  | [] => (m, [])
  | p :: ps =>
    let (m, isFolded) := foldStore m p
    let (m, rest) := foldStores m ps
    (m, if isFolded then rest else p :: rest)

def closeAtMargin (s : List Char) : List Char :=
  match s.reverse.dropWhile (· ≠ '\n') with
  | [] => s
  | rest => rest.reverse ++ ['}']

/-- A function of the compiled section, from its keyword on and with its closing brace at the
margin. -/
def compiledBody (text : String) : String :=
  let s := text.toList
  let fromKeyword := if s.contains 'f' then s.dropWhile (· ≠ 'f') else s
  String.ofList (closeAtMargin fromKeyword)

def compiledSection (bodies : List String) : List String :=
  (if bodies.isEmpty then [] else ["// ASM_LIBRARY FUNCTIONS"])
    ++ bodies.map compiledBody ++ ["// EMSCRIPTEN_END_FUNCS"]

def conflict? (config : Config) : Option LinkError :=
  if config.fullCatalog && config.linkage = .sideModule then
    some (.incompatibleConfig "includeFullCatalog cannot be used with side module linkage")
  else none

/-- The text of an output. Between the texts of the shell stand declarations, postsets, the
initializer of memory and the compiled section. -/
def assemble (config : Config) (program : Program) (shell : Shell) (s : Sections) :
    Except LinkError String :=
  match Postset.order s.postsets with
  | .error cycles => .error (.cyclicPostsets cycles)
  | .ok ps =>
    let (memory, statements) := foldStores ⟨program.memory, config.globalBase⟩ ps
    .ok (lines [shell.preamble, lines s.declarations, lines (statements.map Postset.text),
      memory.text (config.linkage = .sideModule) config.threadProxying,
      lines (compiledSection s.compiled), shell.postamble])

end Link

/-- Links a program against a catalog: a pass over its requests, a pass over its globals, and the
assembly of what they gathered. -/
def link (catalog : Catalog) (config : Config) (program : Program) (shell : Shell) :
    Except LinkError Output := do
  let plan : Plan := ⟨catalog, config⟩
  if let some e := Link.conflict? config then
    throw e
  let start := LinkState.ofLists program.compiled config.exportedNames
  let (s, main) ← start.runPass plan (program.requests ++ Link.defaultRequests plan)
  let (s, globals) ← s.runPass plan program.globals
  let sections := Link.sections config program s.proxies globals.fragments main.fragments
  let text ← Link.assemble config program shell sections
  return {
    text
    exports := s.exports.names
    proxies := s.proxies.names
    requestSigs := s.requestSigs
    compiledSigs := s.implemented
    libraryFns := s.libraryFns
    notices := main.notices ++ globals.notices }

end CatalogLinker
