import CatalogLinker.Diagnostic
import CatalogLinker.Name

namespace CatalogLinker

inductive BodyPart where
  | functionName
  | proxyEntry
  | tracedBody
deriving DecidableEq, Repr

namespace BodyPart

def text : BodyPart → String
  | functionName => "function header"
  | proxyEntry => "proxy entry point"
  | tracedBody => "call tracing wrapper"

def annotations : BodyPart → List Annotation
  | functionName => [.help "inline bodies must begin with a `function` header"]
  | proxyEntry =>
    [.note "proxied bodies must have the form `function NAME(PARAMS) \x7b ... \x7d`",
      .help "remove the `__proxy` key or disable thread proxying"]
  | tracedBody => [.note "traced bodies must be enclosed in braces"]

end BodyPart

/-- Why a link fails. The item of a malformed body is named by its identifier, or by its final
name where the proxy entry is missing. -/
inductive LinkError where
  | undefinedSymbols (idents : List Ident)
  | cyclicPostsets (cycles : List (List Ident))
  | malformedBody (item : String) (part : BodyPart)
  | invalidProxyMode (ident : Ident) (mode : String)
  | missingDefine (ident : Ident)
  | incompatibleConfig (reason : String)
deriving DecidableEq, Repr

namespace LinkError

def undefinedText (i : Ident) : String :=
  "undefined symbol: " ++ i.text

def message : LinkError → String
  | undefinedSymbols [i] => undefinedText i
  | undefinedSymbols is => Nat.repr is.length ++ " undefined symbols"
  | cyclicPostsets _ => "cyclic dependency between postsets"
  | malformedBody item part =>
    "unable to locate " ++ part.text ++ " of library item `" ++ item ++ "`"
  | invalidProxyMode i mode => "invalid proxying mode `" ++ mode ++ "` for `" ++ i.text ++ "`"
  | missingDefine i => "library item `" ++ i.text ++ "` is missing a C definition"
  | incompatibleConfig reason => "incompatible configuration: " ++ reason

def annotations : LinkError → List Annotation
  | undefinedSymbols is =>
    is.map (fun i => .error (undefinedText i))
      ++ [.help ("to produce stubs that abort at runtime instead, "
        ++ "use `-s errorOnUndefinedSymbol=0`")]
  | cyclicPostsets cycles => cycles.map fun c =>
    .note ("these postsets depend on one-another: " ++ String.intercalate ", " (c.map Ident.text))
  | malformedBody _ part => part.annotations
  | invalidProxyMode _ _ => [.help "valid proxying modes are `sync` and `async`"]
  | missingDefine _ =>
    [.note "the catalog was generated without a definition that this item requires"]
  | incompatibleConfig _ => []

def diagnostic (e : LinkError) : Diagnostic :=
  { message := e.message, annotations := e.annotations }

end LinkError

inductive LinkNotice where
  | undefinedSymbol (ident : Ident)
  | missingDependency (ident dep : Ident)
  | unkillableFunction (name : Name)
  | adding (name : Name) (deps : List Ident)
deriving DecidableEq, Repr

namespace LinkNotice

def depsText : List Ident → String
  | [] => ""
  | deps => " and deps " ++ String.intercalate ", " (deps.map fun d => "`" ++ d.text ++ "`")

def message : LinkNotice → String
  | undefinedSymbol i => LinkError.undefinedText i
  | missingDependency _ dep => "missing library dependency `" ++ dep.text ++ "`"
  | unkillableFunction n => "cannot kill compiled-section library function `" ++ n.text ++ "`"
  | adding n deps => "adding `" ++ n.text ++ "`" ++ depsText deps

def annotations : LinkNotice → List Annotation
  | undefinedSymbol _ => [.note "a stub that aborts at runtime has been emitted in its place"]
  | missingDependency i _ =>
    [.note ("required by `" ++ i.text ++ "`"),
      .help "make sure that all necessary catalogs are provided"]
  | unkillableFunction _ => []
  | adding _ _ => []

def level : LinkNotice → Level
  | adding _ _ => .note
  | _ => .warning

def diagnostic (n : LinkNotice) : Diagnostic :=
  { message := n.message, annotations := n.annotations, level := n.level }

end LinkNotice

end CatalogLinker
