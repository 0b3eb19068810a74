import CatalogLinker.Proofs.LinkState
import CatalogLinker.Resolution.Session

namespace CatalogLinker

def Fragment.declaration? : Fragment → Option String
  | .functionBody _ text => some text
  | .globalDeclaration _ text => some text
  | .postset _ => none
  | .compiledBody _ _ => none

def Fragment.postset? : Fragment → Option Postset
  | .postset d => some d
  | _ => none

def Fragment.compiled? : Fragment → Option String
  | .compiledBody _ text => some text
  | _ => none

def TraceEvent.begun? : TraceEvent → Option Ident
  | began i _ => some i
  | ended _ _ _ => none

namespace Pass

variable (q : Pass) (n : Name)

def declarations : List String :=
  q.fragments.filterMap Fragment.declaration?

def statements : List Postset :=
  q.fragments.filterMap Fragment.postset?

def bodies : List String :=
  q.fragments.filterMap Fragment.compiled?

def begun : List Ident :=
  q.trace.filterMap TraceEvent.begun?

theorem mem_markResolved {m : Name} : m ∈ (q.markResolved n).resolved ↔ m ∈ q.resolved ∨ m = n := by
  rw [markResolved, isResolved]
  split
  · rename_i h
    exact ⟨.inl, fun hm => hm.elim id fun hm => hm ▸ List.contains_iff_mem.1 h⟩
  · simp [or_comm]

@[simp] theorem markResolved_trace : (q.markResolved n).trace = q.trace := by
  rw [markResolved]
  split <;> rfl

@[simp] theorem markResolved_fragments : (q.markResolved n).fragments = q.fragments := by
  rw [markResolved]
  split <;> rfl

@[simp] theorem markResolved_undefined : (q.markResolved n).undefined = q.undefined := by
  rw [markResolved]
  split <;> rfl

@[simp] theorem markResolved_notices : (q.markResolved n).notices = q.notices := by
  rw [markResolved]
  split <;> rfl

variable (i : Ident)

@[simp] theorem markPostset_resolved : (q.markPostset i).resolved = q.resolved := by
  rw [markPostset]
  split <;> rfl

@[simp] theorem markPostset_trace : (q.markPostset i).trace = q.trace := by
  rw [markPostset]
  split <;> rfl

@[simp] theorem markPostset_fragments : (q.markPostset i).fragments = q.fragments := by
  rw [markPostset]
  split <;> rfl

@[simp] theorem markResolved_postsets : (q.markResolved n).postsets = q.postsets := by
  rw [markResolved]
  split <;> rfl

theorem mem_markPostset {j : Ident} : j ∈ (q.markPostset i).postsets ↔ j ∈ q.postsets ∨ j = i := by
  rw [markPostset, hasPostset]
  split
  · rename_i h
    exact ⟨.inl, fun hj => hj.elim id fun hj => hj ▸ List.contains_iff_mem.1 h⟩
  · simp [or_comm]

end Pass

namespace Session

variable (p : Plan) (s : Session) (i : Ident)

section TurnBack

@[simp] theorem turnBack_compiled : (s.turnBack i).link.compiled = s.link.compiled := by
  rw [turnBack]
  split_ifs <;> rfl

@[simp] theorem turnBack_implemented : (s.turnBack i).link.implemented = s.link.implemented := by
  rw [turnBack]
  split_ifs <;> rfl

@[simp] theorem turnBack_isImplemented (n : Name) :
    (s.turnBack i).link.isImplemented n = s.link.isImplemented n := by
  rw [turnBack]
  split_ifs <;> rfl

@[simp] theorem turnBack_trace : (s.turnBack i).pass.trace = s.pass.trace := by
  rw [turnBack]
  split_ifs <;> simp

@[simp] theorem turnBack_fragments : (s.turnBack i).pass.fragments = s.pass.fragments := by
  rw [turnBack]
  split_ifs <;> simp

@[simp] theorem turnBack_postsets : (s.turnBack i).pass.postsets = s.pass.postsets := by
  rw [turnBack]
  split_ifs <;> simp

@[simp] theorem turnBack_proxies : (s.turnBack i).link.proxies = s.link.proxies := by
  rw [turnBack]
  split_ifs <;> rfl

@[simp] theorem turnBack_isLibraryFn (n : Name) :
    (s.turnBack i).link.isLibraryFn n = s.link.isLibraryFn n := by
  rw [turnBack]
  split_ifs <;> rfl

theorem mem_turnBack_resolved {n : Name} :
    n ∈ (s.turnBack i).pass.resolved ↔ n ∈ s.pass.resolved ∨
      (¬i.isMetadataKey ∧ ¬s.link.isCompiled i.finalName ∧ n = i.finalName) := by
  rw [turnBack]
  split_ifs with hm hc
  · simp [hm]
  · simp [hc]
  · simp [hm, hc, Pass.mem_markResolved]

theorem mem_turnBack_exports {n : Name} :
    (s.turnBack i).link.exports.contains n ↔ s.link.exports.contains n ∨
      (¬i.isMetadataKey ∧ s.link.isCompiled i.finalName ∧ n = i.finalName) := by
  rw [turnBack]
  split_ifs with hm hc
  · simp [hm]
  · simp [hm, hc, LinkState.requestExport, ExportSet.contains_request]
  · simp [hc]

end TurnBack

section Start

@[simp] theorem start_link : (s.start p i).link = s.link := rfl

@[simp] theorem start_trace :
    (s.start p i).pass.trace = s.pass.trace ++ [.began i i.finalName] := by
  rw [start]
  dsimp only
  split_ifs <;> simp [Pass.pushUndefined, Pass.notify, Pass.record]

@[simp] theorem start_fragments : (s.start p i).pass.fragments = s.pass.fragments := by
  rw [start]
  dsimp only
  split_ifs <;> simp [Pass.pushUndefined, Pass.notify, Pass.record]

@[simp] theorem start_postsets : (s.start p i).pass.postsets = s.pass.postsets := by
  rw [start]
  dsimp only
  split_ifs <;> simp [Pass.pushUndefined, Pass.notify, Pass.record]

theorem start_undefined :
    (s.start p i).pass.undefined = s.pass.undefined ++ [i].filter p.isUndefined := by
  rw [start]
  dsimp only
  split_ifs with hi <;> simp [hi, Pass.pushUndefined, Pass.notify, Pass.record]

theorem start_notices :
    (s.start p i).pass.notices = s.pass.notices ++ p.openingNotices i s.link.isCompiled := by
  rw [start]
  dsimp only
  split_ifs <;> simp [Pass.pushUndefined, Pass.notify, Pass.record]

theorem mem_start_resolved {n : Name} :
    n ∈ (s.start p i).pass.resolved ↔ n ∈ s.pass.resolved ∨ n = i.finalName := by
  rw [start]
  dsimp only
  split_ifs <;> exact Pass.mem_markResolved _ _

end Start

section Announce

@[simp] theorem announce_compiled : (s.announce p i).link.compiled = s.link.compiled := by
  rw [announce]
  dsimp only
  split_ifs <;> simp [LinkState.requestExports]

@[simp] theorem announce_implemented :
    (s.announce p i).link.implemented = s.link.implemented := by
  rw [announce]
  dsimp only
  split_ifs <;> simp [LinkState.requestExports]

@[simp] theorem announce_isImplemented (n : Name) :
    (s.announce p i).link.isImplemented n = s.link.isImplemented n := by
  have h : (s.announce p i).link.isImplemented n =
      (if p.isLibraryFn i then s.link.markLibraryFn i.finalName else s.link).isImplemented n := rfl
  rw [h]
  split_ifs <;> simp

@[simp] theorem announce_proxies : (s.announce p i).link.proxies = s.link.proxies := by
  rw [announce]
  dsimp only
  split_ifs <;> simp [LinkState.requestExports]

theorem mem_announce_exports {n : Name} :
    (s.announce p i).link.exports.contains n ↔
      s.link.exports.contains n ∨ n ∈ p.autoexports i := by
  rw [announce]
  dsimp only
  split_ifs <;> simp [LinkState.requestExports, ExportSet.contains_requestAll]

theorem isLibraryFn_announce {n : Name} :
    (s.announce p i).link.isLibraryFn n ↔
      s.link.isLibraryFn n ∨ p.isLibraryFn i ∧ n = i.finalName := by
  have h : (s.announce p i).link.isLibraryFn n =
      (if p.isLibraryFn i then s.link.markLibraryFn i.finalName else s.link).isLibraryFn n := rfl
  rw [h]
  split
  · rename_i hi
    rw [LinkState.isLibraryFn_markLibraryFn, and_iff_right hi]
  · rename_i hi
    simp [hi]

@[simp] theorem announce_resolved : (s.announce p i).pass.resolved = s.pass.resolved := rfl

@[simp] theorem announce_trace : (s.announce p i).pass.trace = s.pass.trace := rfl

@[simp] theorem announce_fragments : (s.announce p i).pass.fragments = s.pass.fragments := rfl

@[simp] theorem announce_postsets : (s.announce p i).pass.postsets = s.pass.postsets := rfl

end Announce

section AddPostset

@[simp] theorem addPostset_link : (s.addPostset p i).link = s.link := by
  rw [addPostset]
  repeat' split <;> try rfl

@[simp] theorem addPostset_resolved :
    (s.addPostset p i).pass.resolved = s.pass.resolved := by
  rw [addPostset]
  repeat' split <;> try rfl
  simp [Pass.emit]

@[simp] theorem addPostset_trace : (s.addPostset p i).pass.trace = s.pass.trace := by
  rw [addPostset]
  repeat' split <;> try rfl
  simp [Pass.emit]

theorem addPostset_fragments :
    (s.addPostset p i).pass.fragments = s.pass.fragments ∨
      ∃ d, p.postset? i = some d ∧
        (s.addPostset p i).pass.fragments = s.pass.fragments ++ [.postset d] := by
  rw [addPostset]
  split
  · exact .inl rfl
  · rename_i d hd
    split
    · exact .inl rfl
    · exact .inr ⟨d, hd, by simp [Pass.emit]⟩

theorem addPostset_statements :
    (s.addPostset p i).pass.statements =
      s.pass.statements ++ if s.pass.hasPostset i then [] else (p.postset? i).toList := by
  rw [addPostset]
  split
  · rename_i hd
    simp [hd]
  · rename_i d hd
    split <;> simp [Pass.statements, Pass.emit, Fragment.postset?, hd]

theorem mem_addPostset_postsets {j : Ident} (h : j ∈ (s.addPostset p i).pass.postsets) :
    j ∈ s.pass.postsets ∨ j = i := by
  rw [addPostset] at h
  split at h
  · exact .inl h
  · split at h
    · exact .inl h
    · exact (Pass.mem_markPostset _ _).1 h

@[simp] theorem addPostset_declarations :
    (s.addPostset p i).pass.declarations = s.pass.declarations := by
  obtain h | ⟨d, -, h⟩ := addPostset_fragments p s i <;>
    simp [Pass.declarations, h, Fragment.declaration?]

end AddPostset

section Conclude

variable (t : String)

@[simp] theorem conclude_compiled : (s.conclude p i t).link.compiled = s.link.compiled := rfl

@[simp] theorem conclude_implemented :
    (s.conclude p i t).link.implemented = s.link.implemented := rfl

@[simp] theorem conclude_isImplemented (n : Name) :
    (s.conclude p i t).link.isImplemented n = s.link.isImplemented n := rfl

theorem mem_conclude_exports {n : Name} :
    (s.conclude p i t).link.exports.contains n ↔
      s.link.exports.contains n ∨ n ∈ p.compiledDeps i :=
  ExportSet.contains_requestAll

@[simp] theorem conclude_resolved : (s.conclude p i t).pass.resolved = s.pass.resolved := rfl

@[simp] theorem conclude_trace :
    (s.conclude p i t).pass.trace =
      s.pass.trace ++ [.ended i.finalName (p.outcome i) t.utf8ByteSize] := rfl

@[simp] theorem conclude_fragments : (s.conclude p i t).pass.fragments = s.pass.fragments := rfl

@[simp] theorem conclude_postsets : (s.conclude p i t).pass.postsets = s.pass.postsets := rfl

@[simp] theorem conclude_proxies : (s.conclude p i t).link.proxies = s.link.proxies := rfl

end Conclude

end Session

end CatalogLinker
