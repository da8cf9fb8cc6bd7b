import CleanCtx.Workspace.Index

/-!
Histories of the index. Beside the index a session remembers, for each file, the
evidence contributed since the file was last removed: what an index built today
would be built from. A history may be restricted by a condition on the edges
that are added and on the removals that are made.
-/
namespace CleanCtx

/-- The evidence of one file. -/
structure Projection where
  edges : List SemanticEdge
  coverage : Option SemanticCoverage

def Projection.none : Projection := { edges := [], coverage := Option.none }

structure Session where
  index : WorkspaceIndex
  projections : String → Projection

namespace Session

def new : Session where
  index := .new
  projections _ := .none

def forget (projections : String → Projection) (gone : String → Prop) [DecidablePred gone] :
    String → Projection :=
  fun f => if gone f then .none else projections f

def addEdges (σ : Session) (file : String) (edges : List SemanticEdge) : Session where
  index := σ.index.addEdges file edges
  projections := Function.update σ.projections file
    { σ.projections file with edges := (σ.projections file).edges ++ edges }

def removeFile (σ : Session) (file : String) : Session where
  index := σ.index.removeFile file
  projections := forget σ.projections (· = file)

def cover (σ : Session) (file : String) (coverage : SemanticCoverage) : Session where
  index := σ.index.cover file coverage
  projections := Function.update σ.projections file
    { σ.projections file with coverage := some coverage }

/-- A history in which the edges added and the removals made meet a condition. -/
inductive Reachable (canonicalIdentityKey : String → String)
    (adds : String → List SemanticEdge → Prop) (removes : Session → (String → Prop) → Prop) :
    Session → Prop
  | new : Reachable canonicalIdentityKey adds removes new
  | addEdges {σ : Session} {file : String} {edges : List SemanticEdge}
      (h : Reachable canonicalIdentityKey adds removes σ) (hadds : adds file edges) :
      Reachable canonicalIdentityKey adds removes (σ.addEdges file edges)
  | removeFile {σ : Session} {file : String}
      (h : Reachable canonicalIdentityKey adds removes σ) (hremoves : removes σ (· = file)) :
      Reachable canonicalIdentityKey adds removes (σ.removeFile file)
  | replaceSemanticProjection {σ : Session} {file : String} {edges : List SemanticEdge}
      {fidelity : SemanticFidelity} {sourceHash : String}
      (h : Reachable canonicalIdentityKey adds removes σ) (hremoves : removes σ (· = file))
      (hadds : adds file edges) :
      Reachable canonicalIdentityKey adds removes
        (((σ.removeFile file).addEdges file edges).cover file { fidelity, sourceHash })
  | removeFilesInRoot {σ : Session} {root : String} {result : WorkspaceIndex × Nat}
      (h : Reachable canonicalIdentityKey adds removes σ)
      (hremoves : removes σ fun f => isWithinRoot canonicalIdentityKey f root = true)
      (hresult : σ.index.RemovesFilesInRoot canonicalIdentityKey root result) :
      Reachable canonicalIdentityKey adds removes
        { index := result.1
          projections := forget σ.projections
            fun f => isWithinRoot canonicalIdentityKey f root = true }

/-- The index of a replaced projection is the one the source computes. -/
theorem index_replaceSemanticProjection (σ : Session) (file : String) (edges : List SemanticEdge)
    (fidelity : SemanticFidelity) (sourceHash : String) :
    (((σ.removeFile file).addEdges file edges).cover file { fidelity, sourceHash }).index =
      σ.index.replaceSemanticProjection file edges fidelity sourceHash := rfl

end Session
end CleanCtx
