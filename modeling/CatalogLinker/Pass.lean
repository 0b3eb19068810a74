import CatalogLinker.LinkError
import CatalogLinker.Postset

namespace CatalogLinker

inductive Fragment where
  | functionBody (name : Name) (text : String)
  | globalDeclaration (name : Name) (text : String)
  | postset (statement : Postset)
  | compiledBody (name : Name) (text : String)
deriving DecidableEq, Inhabited, Repr

inductive Outcome where
  | deadStub
  | missingStub
  | forwardedToModule
  | forwardedToParent
  | forwardedToCatch
  | catalogEntry
  | expandedInline
deriving DecidableEq, Repr

namespace Outcome

def text : Outcome → String
  | deadStub => "dead function stub"
  | missingStub => "missing function stub"
  | forwardedToModule => "forwarded to module"
  | forwardedToParent => "forwarded to parent module"
  | forwardedToCatch => "forwarded to general catch matcher"
  | catalogEntry => "catalog entry"
  | expandedInline => "expanded inline"

end Outcome

/-- The length of an ended resolution is that of the text returned for the name, with its
dependencies, in bytes. -/
inductive TraceEvent where
  | began (ident : Ident) (name : Name)
  | ended (name : Name) (outcome : Outcome) (length : Nat)
deriving DecidableEq, Repr

structure Pass where
  resolved : List Name := []
  postsets : List Ident := []
  undefined : List Ident := []
  fragments : List Fragment := []
  notices : List LinkNotice := []
  trace : List TraceEvent := []
deriving Inhabited

namespace Pass

variable (p : Pass)

def isResolved (n : Name) : Bool :=
  p.resolved.contains n

def markResolved (n : Name) : Pass :=
  if p.isResolved n then p else { p with resolved := n :: p.resolved }

def hasPostset (i : Ident) : Bool :=
  p.postsets.contains i

def markPostset (i : Ident) : Pass :=
  if p.hasPostset i then p else { p with postsets := i :: p.postsets }

def pushUndefined (i : Ident) : Pass :=
  { p with undefined := p.undefined ++ [i] }

def takeUndefined : List Ident × Pass :=
  (p.undefined, { p with undefined := [] })

def emit (f : Fragment) : Pass :=
  { p with fragments := p.fragments ++ [f] }

def notify (ns : List LinkNotice) : Pass :=
  { p with notices := p.notices ++ ns }

def record (e : TraceEvent) : Pass :=
  { p with trace := p.trace ++ [e] }

/-- Ends a pass; undefined identifiers make it fail. -/
def finish : Except LinkError Pass :=
  if p.undefined.isEmpty then .ok p else .error (.undefinedSymbols p.undefined)

end Pass

end CatalogLinker
