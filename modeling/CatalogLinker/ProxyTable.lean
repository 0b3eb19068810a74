import CatalogLinker.FunctionHeader

namespace CatalogLinker

inductive ProxyMode where
  | sync
  | async
deriving DecidableEq, Repr

namespace ProxyMode

def ofText (i : Ident) (mode : String) : Except LinkError ProxyMode :=
  if mode = "sync" then .ok sync
  else if mode = "async" then .ok async
  else .error (.invalidProxyMode i mode)

def flag : ProxyMode → Nat
  | sync => 1
  | async => 0

end ProxyMode

/-- The proxied functions. Index 0 is reserved, so that the first has index 1. -/
structure ProxyTable where
  names : List Name := []
deriving DecidableEq, Inhabited, Repr

namespace ProxyTable

def nextIndex (t : ProxyTable) : Nat :=
  t.names.length + 1

def size (t : ProxyTable) : Nat :=
  t.names.length + 1

def isEmpty (t : ProxyTable) : Bool :=
  t.names.isEmpty

def push (t : ProxyTable) (n : Name) : ProxyTable :=
  ⟨t.names ++ [n]⟩

def name? (t : ProxyTable) : Nat → Option Name
  | 0 => none
  | k + 1 => t.names[k]?

def declaration (t : ProxyTable) : String :=
  "var proxiedFunctionTable = [" ++ String.intercalate "," ("null" :: t.names.map Name.text) ++ "];"

/-- The statement that hands a call to the main thread; the parameters are passed on as they are
written. -/
def dispatch (index : Nat) (mode : ProxyMode) (params : List Char) : List Char :=
  "if (ENVIRONMENT_IS_PTHREAD) return _emscripten_proxy_to_main_thread_js(".toList
    ++ (Nat.repr index).toList ++ ", ".toList ++ (Nat.repr mode.flag).toList
    ++ (if params.isEmpty then [] else ", ".toList ++ params) ++ ");".toList

def inject (index : Nat) (mode : ProxyMode) (h : FunctionHeader) : List Char :=
  h.before ++ "function ".toList ++ h.name ++ '(' :: h.params ++ ") \x7b\n".toList
    ++ dispatch index mode h.params ++ h.after

def rewrite (t : ProxyTable) (n : Name) (body : String) (mode : ProxyMode) :
    ProxyTable × Except LinkError String :=
  match FunctionHeader.find? body.toList with
  | none => (t, .error (.malformedBody n.text .proxyEntry))
  | some h =>
    let index := t.nextIndex
    (t.push n, .ok (String.ofList (inject index mode h)))

def proxy (t : ProxyTable) (n : Name) (body : String) (mode : ProxyMode) :
    Except LinkError (String × ProxyTable) :=
  let (t, text) := t.rewrite n body mode
  text.map (·, t)

end ProxyTable

end CatalogLinker
