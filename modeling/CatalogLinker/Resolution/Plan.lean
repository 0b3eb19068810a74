import CatalogLinker.Catalog.Basic
import CatalogLinker.Config
import CatalogLinker.FunctionBody
import CatalogLinker.Graph.Walk
import CatalogLinker.Pass
import CatalogLinker.ProxyTable

namespace CatalogLinker

structure Plan where
  catalog : Catalog
  config : Config

namespace Plan

/-- The helper that the helpers for a given number of catch clauses pass their calls on to. -/
def generalCatch : Ident :=
  ⟨"__cxa_find_matching_catch"⟩

def isNumberedCatch (i : Ident) : Bool :=
  match Text.after? (generalCatch.text ++ "_").toList i.text.toList with
  | some digits => !digits.isEmpty && digits.all Char.isDigit
  | none => false

def catchBody : String :=
  "function() \x7b\n  return " ++ generalCatch.finalName.text ++ ".apply(null, arguments);\n\x7d"

variable (p : Plan) (i : Ident)

def item : Item :=
  p.catalog.item i

def isDefined : Bool :=
  isNumberedCatch i || (p.item i).isDefined

def isListedDead : Bool :=
  p.config.deadNames.contains i.finalName

/-- How an identifier is satisfied. A dead function is replaced, unless it belongs to the compiled
section. -/
def outcome : Outcome :=
  if p.isListedDead i && !(p.item i).inCompiledSection then .deadStub
  else if p.config.linkage = .sideModule then .forwardedToParent
  else if !p.isDefined i then
    if p.config.linkage = .mainModule then .forwardedToModule else .missingStub
  else if isNumberedCatch i then .forwardedToCatch
  else if (p.item i).entry.isSome then .catalogEntry
  else .expandedInline

def forwardTarget (holder : String) : String :=
  holder ++ "['_" ++ i.text ++ "']"

def entry? : Option Entry :=
  match p.outcome i with
  | .deadStub => some (.body (FunctionBody.abortStub i "dead function"))
  | .missingStub => some (.body (FunctionBody.abortStub i "missing function"))
  | .forwardedToModule =>
    let target := forwardTarget i "Module"
    some (.body (FunctionBody.forwardingThunk i target p.config.assertions))
  | .forwardedToParent =>
    let target := forwardTarget i "parentModule"
    some (.body (FunctionBody.forwardingThunk i target p.config.assertions))
  | .forwardedToCatch => some (.body catchBody)
  | .catalogEntry => (p.item i).entry
  | .expandedInline => none

def declaredDeps : List Ident :=
  match p.outcome i with
  | .deadStub => []
  | .forwardedToParent => []
  | _ =>
    let deps := (p.item i).deps
    if isNumberedCatch i && p.catalog.isDefined generalCatch && !deps.contains generalCatch then
      deps ++ [generalCatch]
    else deps

def linkedTarget? : Option Ident :=
  match p.entry? i with
  | some (.aliasOf t) => if (p.item t).entry.isSome then some t else none
  | _ => none

/-- The dependencies that are pursued: those declared, the target of an alias, and what the target
declares. -/
def deps : List Ident :=
  p.declaredDeps i ++
    match p.linkedTarget? i with
    | some t => t :: (p.item t).deps
    | none => []

/-- The declaration of a value. A value that starts with a semicolon continues the declaration,
and is ended unless it ends a statement or a block. -/
def rawText (n : Name) (code : String) : String :=
  if code.toList.head? = some ';' then
    let isEnded := code.toList.getLast? = some ';' || code.toList.getLast? = some '}'
    "var " ++ n.text ++ code ++ if isEnded then "" else ";"
  else "var " ++ n.text ++ "=" ++ code ++ ";"

def functionText (code : String) : Except LinkError String := do
  let text ← FunctionBody.prepare i i.finalName code
  if p.config.callTracing && !(p.item i).inCompiledSection then
    FunctionBody.traced i i.finalName text
  else return text

def ownText : Except LinkError (Option String) :=
  match p.entry? i with
  | none => .ok none
  | some (.body code) => (p.functionText i code).map some
  | some (.aliasOf t) =>
    match p.linkedTarget? i with
    | some t => .ok (some ("var " ++ i.finalName.text ++ "=" ++ t.finalName.text ++ ";"))
    | none => .ok (some (rawText i.finalName t.text))
  | some (.raw code) => .ok (some (rawText i.finalName code))
  | some (.structured v) => .ok (some ("var " ++ i.finalName.text ++ "=" ++ v.text ++ ";"))

def isFunction : Bool :=
  match p.entry? i with
  | some (.body _) => true
  | _ => false

/-- Whether the name belongs to a library function. An alias of a mathematical function of the run
time counts. -/
def isLibraryFn : Bool :=
  match p.entry? i with
  | some (.body _) => true
  | some (.aliasOf t) => (p.linkedTarget? i).isNone && t.beginsWith "Math_"
  | _ => false

/-- Whether the text is a thunk to the parent module, to which no metadata applies. -/
def standsAlone : Bool :=
  p.outcome i = .forwardedToParent

def isRegistrable : Bool :=
  p.outcome i ≠ .forwardedToModule ∧ p.outcome i ≠ .forwardedToParent

def registration (n : Name) : String :=
  "Module[\"" ++ n.text ++ "\"] = " ++ n.text ++ ";"

def proxyMode? : Option String :=
  if p.isFunction i && !p.standsAlone i && p.config.threadProxying then (p.item i).proxy else none

def compiledSig? : Option String :=
  if p.isFunction i && !p.standsAlone i && (p.item i).inCompiledSection then (p.item i).sig
  else none

def postset? : Option Postset :=
  if p.standsAlone i then none
  else (p.item i).postset.map fun d => { d with text := d.text ++ ";" }

/-- Names that start so belong to the run time, which defines them itself. -/
def isInternal : Bool :=
  i.beginsWith "emscripten_"

def isReportedMissing : Bool :=
  p.outcome i = .missingStub && (!isInternal i || p.config.verbose)

def isUndefined : Bool :=
  p.isReportedMissing i && p.config.failOnUndefined

def missingDeps (isCompiled : Name → Bool) : List Ident :=
  (p.declaredDeps i).filter fun d => !p.catalog.isDefined d && !isCompiled d.finalName

def isUnkillable : Bool :=
  p.isListedDead i && (p.item i).inCompiledSection

def isTolerated : Bool :=
  p.isReportedMissing i && !p.config.failOnUndefined
    && (p.config.verbose || p.config.warnOnUndefined)

def openingNotices (isCompiled : Name → Bool) : List LinkNotice :=
  (if p.isUnkillable i then [.unkillableFunction i.finalName] else [])
    ++ (if p.isTolerated i then [.undefinedSymbol i] else [])
    ++ (p.missingDeps i isCompiled).map (.missingDependency i)

def addingNotices : List LinkNotice :=
  if p.config.verbose && !p.standsAlone i then [.adding i.finalName (p.deps i)] else []

def autoexports : List Name :=
  ((p.deps i).filter p.config.autoexports.contains).map Ident.finalName

/-- The dependencies in the compiled section, which have to be exported for library code to reach
them. -/
def compiledDeps : List Name :=
  if (p.item i).inCompiledSection then []
  else ((p.deps i).filter fun d => (p.item d).inCompiledSection).map Ident.finalName

def mentions (x : Item) : List Ident :=
  x.deps ++ x.aliasTarget?.toList

def mentioned : List Ident :=
  generalCatch :: p.catalog.items.flatMap fun x => mentions x.2

theorem mem_mentioned_of_mem_mentions {d : Ident} (h : d ∈ mentions (p.item i)) :
    d ∈ p.mentioned := by
  rw [mentioned, List.mem_cons]
  unfold item Catalog.item at h
  cases hx : p.catalog.get? i with
  | none => simp [hx, mentions, Item.aliasTarget?] at h
  | some x =>
    rw [hx] at h
    exact .inr (List.mem_flatMap.2 ⟨(i, x), Catalog.mem_items_of_get? hx, h⟩)

theorem mem_mentioned_of_mem_deps {d : Ident} (h : d ∈ (p.item i).deps) : d ∈ p.mentioned :=
  p.mem_mentioned_of_mem_mentions i (List.mem_append_left _ h)

theorem mem_mentioned_of_mem_declaredDeps {d : Ident} (h : d ∈ p.declaredDeps i) :
    d ∈ p.mentioned := by
  have hd : d ∈ (p.item i).deps ++ [generalCatch] := by
    unfold declaredDeps at h
    split at h
    · simp at h
    · simp at h
    · simp only at h
      split at h
      · exact h
      · exact List.mem_append_left _ h
  rcases List.mem_append.1 hd with hd | hd
  · exact p.mem_mentioned_of_mem_deps i hd
  · exact List.mem_singleton.1 hd ▸ List.mem_cons_self

theorem mem_mentioned_of_linkedTarget? {t : Ident} (h : p.linkedTarget? i = some t) :
    t ∈ p.mentioned := by
  have he : p.entry? i = some (.aliasOf t) := by
    unfold linkedTarget? at h
    grind
  refine p.mem_mentioned_of_mem_mentions i (List.mem_append_right _ ?_)
  unfold entry? at he
  split at he <;> simp_all [Item.aliasTarget?]

theorem mem_mentioned {d : Ident} (h : d ∈ p.deps i) : d ∈ p.mentioned := by
  rcases List.mem_append.1 h with h | h
  · exact p.mem_mentioned_of_mem_declaredDeps i h
  · split at h
    · rename_i t ht
      rcases List.mem_cons.1 h with rfl | h
      · exact p.mem_mentioned_of_linkedTarget? i ht
      · exact p.mem_mentioned_of_mem_deps t h
    · simp at h

/-- The graph of dependencies. Metadata keys and the names in `closed` are never expanded. -/
def network (closed : Name → Bool) : Graph.Network Ident Name where
  key := Ident.finalName
  isOpen i := !i.isMetadataKey && !closed i.finalName
  next := p.deps
  keys := p.mentioned.map Ident.finalName
  key_mem h := List.mem_map_of_mem (p.mem_mentioned _ h)

end Plan

end CatalogLinker
