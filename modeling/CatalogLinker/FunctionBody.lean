import CatalogLinker.LinkError
import CatalogLinker.Text.Blank
import CatalogLinker.Text.Search

namespace CatalogLinker.FunctionBody

def unixLines : List Char → List Char
  | '\r' :: '\n' :: s => '\n' :: unixLines s
  | c :: s => c :: unixLines s
  | [] => []

def keyword : List Char := "function".toList

/-- What follows the opening parenthesis of a function header that starts the text. The keyword
has to be followed by white space or by the parenthesis. -/
def headerEnd? (s : List Char) : Option (List Char) :=
  (Text.after? keyword s).bind fun rest =>
    if rest.head?.any (fun c => c = '(' || Text.isBlank c) then (Text.cutAt? '(' rest).map Prod.snd
    else none

def rename (name : List Char) : List Char → Option (List Char)
  | [] => none
  | c :: s =>
    match headerEnd? (c :: s) with
    | some rest => some (keyword ++ ' ' :: name ++ '(' :: rest)
    | none => (rename name s).map (c :: ·)

/-- What a body holds where a definition it needs was not available. -/
def missingMark : String := "XXX missing C define"

def prepare (i : Ident) (n : Name) (code : String) : Except LinkError String :=
  let code := unixLines code.toList
  if Text.occurs missingMark.toList code then .error (.missingDefine i)
  else match rename n.text.toList code with
    | some s => .ok (String.ofList s)
    | none => .error (.malformedBody i.text .functionName)

def traceStart (n : Name) : String :=
  "\x7b var ret = (function() \x7b if (runtimeDebug) err(\"[library call:" ++ n.text
    ++ ": \" + Array.prototype.slice.call(arguments).map(prettyPrint) + \"]\"); "

def traceEnd : String :=
  "\x7d).apply(this, arguments); if (runtimeDebug && typeof ret !== \"undefined\") "
    ++ "err(\"  [     return:\" + prettyPrint(ret)); return ret; \n\x7d"

def braced? (s : List Char) : Option (List Char × List Char) :=
  (Text.cutAt? '{' s).bind fun (head, rest) =>
    (Text.before? ['}'] (Text.trimEndWhere Text.isBlank rest)).map (head, ·)

/-- A function that logs the arguments and the result of every call, and returns the result. -/
def traced (i : Ident) (n : Name) (code : String) : Except LinkError String :=
  match braced? code.toList with
  | some (head, inner) =>
    .ok (String.ofList head ++ traceStart n ++ String.ofList inner ++ traceEnd)
  | none => .error (.malformedBody i.text .tracedBody)

def abortStub (i : Ident) (reason : String) : String :=
  "function() \x7b\n  err('" ++ reason ++ ": " ++ i.text ++ "'); abort(-1);\n\x7d"

def missingTargetCheck (i : Ident) (target : String) : String :=
  "if (!" ++ target ++ ") abort(\"external function '" ++ i.text ++ "' is missing. "
    ++ "perhaps a side module was not linked in? if this function was expected to arrive "
    ++ "from a system library, try to build the MAIN_MODULE with EMCC_FORCE_STDLIBS=1 "
    ++ "in the environment\");\n  "

/-- A body that passes every call on to `target`; with `assertions` it aborts if there is none. -/
def forwardingThunk (i : Ident) (target : String) (assertions : Bool) : String :=
  "function() \x7b\n  " ++ (if assertions then missingTargetCheck i target else "")
    ++ "return " ++ target ++ ".apply(null, arguments);\n\x7d"

end CatalogLinker.FunctionBody
