import CatalogLinker.ExportSet
import CatalogLinker.ProxyTable

namespace CatalogLinker

inductive LibraryFn where
  | declared
  | compiled
deriving DecidableEq, Repr

/-- What a link gathers over all its passes: the names that compiled code provides, exports, proxied
functions, the functions of the compiled section with their signatures and the set of them, the
signatures of requests, and the names that library functions have. -/
structure LinkState where
  compiled : List Name := []
  exports : ExportSet := {}
  proxies : ProxyTable := {}
  implemented : List (Name × String) := []
  implementedSet : List Name := []
  requestSigs : List (Name × String) := []
  libraryFns : List (Name × LibraryFn) := []
deriving Inhabited

namespace LinkState

def ofLists (compiled exports : List Name) : LinkState :=
  { compiled := compiled.eraseDups, exports := .ofList exports }

variable (s : LinkState)

def isCompiled (n : Name) : Bool :=
  s.compiled.contains n

def isImplemented (n : Name) : Bool :=
  s.implementedSet.contains n

def isLibraryFn (n : Name) : Bool :=
  (s.libraryFns.map Prod.fst).contains n

def requestExport (n : Name) : LinkState :=
  { s with exports := s.exports.request n }

def requestExports (ns : List Name) : LinkState :=
  { s with exports := s.exports.requestAll ns }

def markLibraryFn (n : Name) : LinkState :=
  if s.isLibraryFn n then s else { s with libraryFns := s.libraryFns ++ [(n, .declared)] }

def implement (n : Name) (sig : String) : LinkState :=
  let s :=
    if s.isImplemented n then s
    else
      { s with
        implemented := s.implemented ++ [(n, sig)]
        implementedSet := n :: s.implementedSet }
  { s with libraryFns := s.libraryFns.filter (·.1 ≠ n) ++ [(n, .compiled)] }

end LinkState

end CatalogLinker
