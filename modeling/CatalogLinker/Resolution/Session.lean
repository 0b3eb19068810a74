import CatalogLinker.LinkState
import CatalogLinker.Request
import CatalogLinker.Resolution.Plan

namespace CatalogLinker

structure Session where
  link : LinkState
  pass : Pass := {}
deriving Inhabited

def joinTexts (texts : List String) : String :=
  String.intercalate "\n" (texts.filter (· ≠ ""))

namespace Session

def isClosed (s : Session) (n : Name) : Bool :=
  s.link.isCompiled n || s.link.isImplemented n

def turnBack (s : Session) (i : Ident) : Session :=
  if i.isMetadataKey then s
  else if s.link.isCompiled i.finalName then { s with link := s.link.requestExport i.finalName }
  else { s with pass := s.pass.markResolved i.finalName }

variable (p : Plan)

def start (s : Session) (i : Ident) : Session :=
  let pass := (s.pass.markResolved i.finalName).record (.began i i.finalName)
  let pass := pass.notify (p.openingNotices i s.link.isCompiled)
  { s with pass := if p.isUndefined i then pass.pushUndefined i else pass }

def announce (s : Session) (i : Ident) : Session :=
  let link := if p.isLibraryFn i then s.link.markLibraryFn i.finalName else s.link
  { link := link.requestExports (p.autoexports i), pass := s.pass.notify (p.addingNotices i) }

def addPostset (s : Session) (i : Ident) : Session :=
  match p.postset? i with
  | none => s
  | some d =>
    if s.pass.hasPostset i then s
    else { s with pass := (s.pass.markPostset i).emit (.postset d) }

def proxied (i : Ident) (text : String) (t : ProxyTable) : ProxyTable × Except LinkError String :=
  match p.proxyMode? i with
  | none => (t, .ok text)
  | some mode =>
    match ProxyMode.ofText i mode with
    | .error e => (t, .error e)
    | .ok mode => t.rewrite i.finalName text mode

def registered (s : Session) (i : Ident) (text : String) : String :=
  if p.isRegistrable i && (p.config.exportAll || s.link.exports.contains i.finalName) then
    text ++ "\n" ++ Plan.registration i.finalName
  else text

/-- Places the text of an identifier: in the compiled section, or among the declarations, for
which it is returned. -/
def place (s : Session) (i : Ident) (text : String) : Session × Except LinkError String :=
  match proxied p i text s.link.proxies with
  | (proxies, .error e) => ({ s with link := { s.link with proxies } }, .error e)
  | (proxies, .ok text) =>
    let s := { s with link := { s.link with proxies } }
    match p.compiledSig? i with
    | none => (s, .ok (s.registered p i text))
    | some sig =>
      ({ link := s.link.implement i.finalName sig,
         pass := s.pass.emit (.compiledBody i.finalName text) }, .ok "")

def conclude (s : Session) (i : Ident) (text : String) : Session :=
  { link := s.link.requestExports (p.compiledDeps i),
    pass := s.pass.record (.ended i.finalName (p.outcome i) text.utf8ByteSize) }

mutual

def follow (s : Session) : Graph.Visit Ident → Session × Except LinkError String
  | .turnedBack i => (s.turnBack i, .ok "")
  | .expanded i visits =>
    let s := s.start p i
    match p.ownText i with
    | .error e => (s, .error e)
    | .ok own =>
      match followAll (s.announce p i) visits with
      | (s, .error e) => (s, .error e)
      | (s, .ok texts) =>
        let s := s.addPostset p i
        match own.elim (s, .ok "") (s.place p i) with
        | (s, .error e) => (s, .error e)
        | (s, .ok text) =>
          let text := joinTexts (texts ++ [text])
          (s.conclude p i text, .ok text)

def followAll (s : Session) : List (Graph.Visit Ident) → Session × Except LinkError (List String)
  | [] => (s, .ok [])
  | v :: vs =>
    match follow s v with
    | (s, .error e) => (s, .error e)
    | (s, .ok text) =>
      match followAll s vs with
      | (s, .error e) => (s, .error e)
      | (s, .ok texts) => (s, .ok (text :: texts))

end

def walk (s : Session) (i : Ident) : Graph.Visit Ident :=
  (p.network s.isClosed).visit s.pass.resolved i

/-- Resolves an identifier: the text of what was not resolved before, dependencies first. The walk
through the graph of dependencies is found first, for it depends on the names resolved so far and on
nothing that is emitted; a failure leaves the session as far as the walk had come. -/
def resolve (s : Session) (i : Ident) : Session × Except LinkError String :=
  s.follow p (s.walk p i)

def request (s : Session) (r : Request) : Session × Except LinkError Unit :=
  let n := r.ident.finalName
  let link := match r.signature with
    | some sig => { s.link with requestSigs := s.link.requestSigs ++ [(n, sig)] }
    | none => s.link
  match resolve p { s with link } r.ident with
  | (s, .error e) => (s, .error e)
  | (s, .ok text) =>
    if text = "" then (s, .ok ())
    else
      let fragment : Fragment :=
        if s.link.isLibraryFn n then .functionBody n text else .globalDeclaration n text
      ({ s with pass := s.pass.emit fragment }, .ok ())

def requestAll (s : Session) : List Request → Session × Except LinkError Unit
  | [] => (s, .ok ())
  | r :: rs =>
    match s.request p r with
    | (s, .error e) => (s, .error e)
    | (s, .ok ()) => requestAll s rs

end Session

def LinkState.runPass (p : Plan) (l : LinkState) (rs : List Request) :
    Except LinkError (LinkState × Pass) :=
  match Session.requestAll p { link := l } rs with
  | (_, .error e) => .error e
  | (s, .ok ()) => s.pass.finish.map (s.link, ·)

end CatalogLinker
