import CatalogLinker.Name
import CatalogLinker.Text.Blank
import CatalogLinker.Text.Search

namespace CatalogLinker

/-- How the output relates to other modules. A standalone output defines every symbol that it
needs; a main module looks undefined symbols up at run time; a side module looks every symbol up
on the module that loads it. -/
inductive Linkage where
  | standalone
  | mainModule
  | sideModule
deriving DecidableEq, Inhabited, Repr

namespace Linkage

def text : Linkage → String
  | standalone => "none"
  | mainModule => "main"
  | sideModule => "side"

def ofText? (s : String) : Option Linkage :=
  if s = "none" ∨ s = "0" then some standalone
  else if s = "main" ∨ s = "1" then some mainModule
  else if s = "side" ∨ s = "2" then some sideModule
  else none

theorem ofText?_text (l : Linkage) : ofText? l.text = some l := by
  cases l <;> decide

end Linkage

inductive Setting where
  | exportAll
  | failOnUndefined
  | warnOnUndefined
  | linkage
  | threadProxying
  | callTracing
  | fullCatalog
  | assertions
  | verbose
  | defaultIdents
  | exportedNames
  | deadNames
  | autoexports
  | globalBase
  | maxAlign
deriving DecidableEq, Repr

inductive SettingKind where
  | switch
  | linkage
  | number
  | list
deriving DecidableEq, Repr

namespace SettingKind

def expects : SettingKind → String
  | switch => "`1`, `0`, `true`, or `false`"
  | linkage => "`none`, `main`, or `side`"
  | number => "an unsigned integer"
  | list => "a list"

end SettingKind

namespace Setting

def all : List Setting :=
  [exportAll, failOnUndefined, warnOnUndefined, linkage, threadProxying, callTracing, fullCatalog,
    assertions, verbose, defaultIdents, exportedNames, deadNames, autoexports, globalBase, maxAlign]

def name : Setting → String
  | exportAll => "exportAll"
  | failOnUndefined => "errorOnUndefinedSymbol"
  | warnOnUndefined => "warnOnUndefinedSymbol"
  | linkage => "crossModuleLinkage"
  | threadProxying => "threadProxyingEnabled"
  | callTracing => "debugTraceLibraryCalls"
  | fullCatalog => "includeFullCatalog"
  | assertions => "assertions"
  | verbose => "verbose"
  | defaultIdents => "defaultLibraryFuncs"
  | exportedNames => "exportedFunctions"
  | deadNames => "deadFunctions"
  | autoexports => "depsToAutoexport"
  | globalBase => "globalBase"
  | maxAlign => "maxGlobalAlign"

def kind : Setting → SettingKind
  | linkage => .linkage
  | globalBase | maxAlign => .number
  | defaultIdents | exportedNames | deadNames | autoexports => .list
  | _ => .switch

def ofName? (s : String) : Option Setting :=
  all.find? (·.name == s)

theorem ofName?_name (s : Setting) : ofName? s.name = some s := by
  cases s <;> decide

end Setting

inductive ConfigError where
  | unknownSetting (name : String)
  | malformedSetting (pair : String)
  | invalidValue (setting : Setting) (value : String)
deriving DecidableEq, Repr

namespace ConfigError

def message : ConfigError → String
  | unknownSetting name => "unknown setting `" ++ name ++ "`"
  | malformedSetting pair => "malformed setting `" ++ pair ++ "`; expected `NAME=VALUE`"
  | invalidValue s value =>
    "invalid value `" ++ value ++ "` for setting `" ++ s.name ++ "`; expected " ++ s.kind.expects

end ConfigError

/-- The configuration of a link. `deadNames` are replaced by stubs that abort; `defaultIdents` are
always linked; `autoexports` are exported whenever something depends on them. -/
structure Config where
  exportAll : Bool := false
  failOnUndefined : Bool := true
  warnOnUndefined : Bool := true
  linkage : Linkage := .standalone
  threadProxying : Bool := false
  callTracing : Bool := false
  fullCatalog : Bool := false
  assertions : Bool := true
  verbose : Bool := false
  defaultIdents : List Ident := []
  exportedNames : List Name := []
  deadNames : List Name := []
  autoexports : List Ident := []
  globalBase : UInt32 := 1024
  maxAlign : UInt32 := 16
deriving DecidableEq, Inhabited, Repr

namespace Config

def switch? (v : String) : Option Bool :=
  if v = "1" ∨ v = "true" then some true
  else if v = "0" ∨ v = "false" then some false
  else none

/-- A decimal number below `2 ^ 32`; one plus sign may stand in front. -/
def number? (v : String) : Option UInt32 :=
  let digits := match v.toList with
    | '+' :: rest => rest
    | s => s
  (Text.decimal? digits).bind fun n => if n < UInt32.size then some (UInt32.ofNat n) else none

def parts (v : String) : List String :=
  ((Text.pieces ',' v.toList).map fun p => Text.trim (String.ofList p)).filter (· ≠ "")

def assign? (c : Config) (s : Setting) (v : String) : Option Config :=
  match s with
  | .exportAll => (switch? v).map ({ c with exportAll := · })
  | .failOnUndefined => (switch? v).map ({ c with failOnUndefined := · })
  | .warnOnUndefined => (switch? v).map ({ c with warnOnUndefined := · })
  | .linkage => (Linkage.ofText? v).map ({ c with linkage := · })
  | .threadProxying => (switch? v).map ({ c with threadProxying := · })
  | .callTracing => (switch? v).map ({ c with callTracing := · })
  | .fullCatalog => (switch? v).map ({ c with fullCatalog := · })
  | .assertions => (switch? v).map ({ c with assertions := · })
  | .verbose => (switch? v).map ({ c with verbose := · })
  | .defaultIdents => some { c with defaultIdents := (parts v).map Ident.mk }
  | .exportedNames => some { c with exportedNames := (parts v).map Name.mk }
  | .deadNames => some { c with deadNames := (parts v).map Name.mk }
  | .autoexports => some { c with autoexports := (parts v).map Ident.mk }
  | .globalBase => (number? v).map ({ c with globalBase := · })
  | .maxAlign => (number? v).map ({ c with maxAlign := · })

/-- Applies a setting by name, if its value can be read; white space around the value does not
count. -/
def trySet (c : Config) (name value : String) : Config × Except ConfigError Unit :=
  match Setting.ofName? name with
  | none => (c, .error (.unknownSetting name))
  | some s =>
    match c.assign? s (Text.trim value) with
    | none => (c, .error (.invalidValue s (Text.trim value)))
    | some c' => (c', .ok ())

def trySetPair (c : Config) (pair : String) : Config × Except ConfigError Unit :=
  match Text.cutAt? '=' pair.toList with
  | none => (c, .error (.malformedSetting pair))
  | some (name, value) => c.trySet (Text.trim (String.ofList name)) (String.ofList value)

def set (c : Config) (name value : String) : Except ConfigError Config :=
  let (c, result) := c.trySet name value
  result.map fun _ => c

def setPair (c : Config) (pair : String) : Except ConfigError Config :=
  let (c, result) := c.trySetPair pair
  result.map fun _ => c

def switchText (b : Bool) : String :=
  if b then "1" else "0"

def valueText (c : Config) : Setting → String
  | .exportAll => switchText c.exportAll
  | .failOnUndefined => switchText c.failOnUndefined
  | .warnOnUndefined => switchText c.warnOnUndefined
  | .linkage => c.linkage.text
  | .threadProxying => switchText c.threadProxying
  | .callTracing => switchText c.callTracing
  | .fullCatalog => switchText c.fullCatalog
  | .assertions => switchText c.assertions
  | .verbose => switchText c.verbose
  | .defaultIdents => String.intercalate "," (c.defaultIdents.map Ident.text)
  | .exportedNames => String.intercalate "," (c.exportedNames.map Name.text)
  | .deadNames => String.intercalate "," (c.deadNames.map Name.text)
  | .autoexports => String.intercalate "," (c.autoexports.map Ident.text)
  | .globalBase => Nat.repr c.globalBase.toNat
  | .maxAlign => Nat.repr c.maxAlign.toNat

def pairText (c : Config) (s : Setting) : String :=
  s.name ++ "=" ++ c.valueText s

end Config

def Linkage.read (s : String) : Except ConfigError Linkage :=
  match Linkage.ofText? s with
  | none => .error (.invalidValue .linkage s)
  | some l => .ok l

end CatalogLinker
