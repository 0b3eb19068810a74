import CatalogLinker.Pass

namespace CatalogLinker

structure Sections where
  declarations : List String := []
  postsets : List Postset := []
  compiled : List String := []
deriving DecidableEq, Inhabited, Repr

namespace Sections

variable (s : Sections)

def pushDeclaration (text : String) : Sections :=
  { s with declarations := s.declarations ++ [text] }

def pushPostset (d : Postset) : Sections :=
  { s with postsets := s.postsets ++ [d] }

def pushCompiled (text : String) : Sections :=
  { s with compiled := s.compiled ++ [text] }

def push : Fragment → Sections
  | .functionBody _ text => s.pushDeclaration text
  | .globalDeclaration _ text => s.pushDeclaration text
  | .postset d => s.pushPostset d
  | .compiledBody _ text => s.pushCompiled text

def pushAll (fs : List Fragment) : Sections :=
  fs.foldl push s

def takeDeclarations : List String × Sections :=
  (s.declarations, { s with declarations := [] })

def takePostsets : List Postset × Sections :=
  (s.postsets, { s with postsets := [] })

def takeCompiled : List String × Sections :=
  (s.compiled, { s with compiled := [] })

end Sections

end CatalogLinker
