import CleanCtx.Library.Scopes
import CleanCtx.Workspace.Index

/-!
Typed inheritance at query time (`query/classification.rs`) and the resolution of C#
base-list references it rests on (`query/csharp_resolution.rs`).

The index keeps the written type of a base list. A query adds what the reference
resolves to: nothing it derives is stored. The catalog is given as the source files
parse to it.
-/
namespace CleanCtx

namespace CsharpResolution

inductive TypeKind
  | «class» | interface
  deriving DecidableEq

def TypeKind.entityType : TypeKind → String
  | «class» => "Class"
  | interface => "Interface"

structure Declaration where
  kind : TypeKind
  path : List String
  name : String
  arity : Nat
  deriving DecidableEq

structure TypeShape where
  qualifier : List String
  name : String
  arity : Nat
  deriving DecidableEq

structure BaseReference where
  file : String
  owner : String
  «namespace» : List String
  nesting : List String
  written : String
  shape : TypeShape
  deriving DecidableEq

structure Catalog where
  declarations : List Declaration
  references : List BaseReference

structure ResolvedTarget where
  kind : TypeKind
  name : String
  deriving DecidableEq

def BaseReference.paths (reference : BaseReference) : List (List String) :=
  let shape := reference.shape
  let paths :=
    if shape.qualifier = [] then
      ((List.range (reference.nesting.length + 1)).reverse.map fun depth =>
        reference.namespace ++ reference.nesting.take depth ++ [shape.name]) ++ [[shape.name]]
    else
      [reference.namespace ++ shape.qualifier ++ [shape.name], shape.qualifier ++ [shape.name]]
  paths.destutter (· ≠ ·)

def edgeFile (edge : SemanticEdge) : Option String := edge.subject.file <|> edge.object.file

def BaseReference.stands (reference : BaseReference) (file : String) (edge : SemanticEdge) : Bool :=
  reference.file = file && reference.owner = edge.subject.name &&
    reference.written = edge.object.name

namespace Catalog

variable (catalog : Catalog)

def targetsAt (arity : Nat) (path : List String) : List ResolvedTarget :=
  (catalog.declarations.filter fun declaration =>
    declaration.path = path && declaration.arity = arity).map fun declaration =>
      { kind := declaration.kind, name := declaration.name }

def resolve (reference : BaseReference) : Option ResolvedTarget :=
  Scopes.resolve (catalog.targetsAt reference.shape.arity) reference.paths

def recognizesEdge (edge : SemanticEdge) : Bool :=
  (edgeFile edge).any fun file => catalog.references.any (·.stands file edge)

def resolveEdge (edge : SemanticEdge) : Option ResolvedTarget := do
  let file ← edgeFile edge
  let reference ← catalog.references.find? (·.stands file edge)
  catalog.resolve reference

/-- The spellings, anywhere in the catalog, of references to a type. -/
def writtenReferencesTo (kind : TypeKind) (name : String) : List String :=
  ((catalog.references.filterMap fun reference =>
    ((catalog.resolve reference).filter fun target =>
      target.kind = kind && target.name = name).map fun _ => reference.written).mergeSort).destutter
        (· ≠ ·)

end Catalog
end CsharpResolution

namespace Classification

open CsharpResolution

def builtinClass (identity : EntityKey) : Bool :=
  identity.domain = "builtin" && identity.entityType = "Class"

def isNeutralClassBase (edge : SemanticEdge) : Bool :=
  edge.relation = .hasBaseType && edge.subject.domain = "builtin" &&
    edge.subject.entityType = "Class" && edge.object.domain = "builtin" &&
    edge.object.entityType = "TypeRef"

def sameFact (left right : SemanticEdge) : Bool :=
  left.relation = right.relation && entityKey left.subject = entityKey right.subject &&
    entityKey left.object = entityKey right.object && left.callEvidence = right.callEvidence

def appendDistinct (edges derived : List SemanticEdge) : List SemanticEdge :=
  derived.foldl
    (fun edges candidate =>
      if edges.any (sameFact · candidate) then edges else edges ++ [candidate]) edges

/-- The fact that a base-list fact stands for when its type is known. -/
def typedFact (neutral : SemanticEdge) (kind : TypeKind) (name : String) : SemanticEdge where
  relation := match kind with
    | .class => .extends
    | .interface => .implements
  subject := neutral.subject
  object :=
    { domain := "builtin", entityType := kind.entityType, name, file := neutral.object.file }
  layer := "builtin"
  callEvidence := none

variable (index : WorkspaceIndex) (scope : Option WorkspaceScope) (catalog : Option Catalog)

def declares (kind : TypeKind) (name : String) : Bool :=
  index.hasIdentityInScope scope ⟨"builtin", kind.entityType, name⟩

def classify (neutral : SemanticEdge) : Option SemanticEdge :=
  match catalog.bind (·.resolveEdge neutral) with
  | some target => some (typedFact neutral target.kind target.name)
  | none =>
    if catalog.any (·.recognizesEdge neutral) then none
    else
      let target := neutral.object.name
      match declares index scope .class target, declares index scope .interface target with
      | true, false => some (typedFact neutral .class target)
      | false, true => some (typedFact neutral .interface target)
      | _, _ => none

def forward (identity : EntityKey) (classificationComplete : Bool) : List SemanticEdge :=
  let edges := index.forwardEdgesByIdentity scope identity
  if !classificationComplete || !builtinClass identity then edges
  else
    appendDistinct edges
      ((edges.filter isNeutralClassBase).filterMap (classify index scope catalog))

def targetKind (identity : EntityKey) : Option TypeKind :=
  if identity.domain ≠ "builtin" then none
  else if identity.entityType = "Class" then some .class
  else if identity.entityType = "Interface" then some .interface
  else none

def writtenNames (kind : TypeKind) (name : String) : List String :=
  ((name :: (catalog.map (·.writtenReferencesTo kind name)).getD []).mergeSort).destutter (· ≠ ·)

def reverse (identity : EntityKey) (classificationComplete : Bool) : List SemanticEdge :=
  let edges := index.reverseEdgesByIdentity scope identity
  match targetKind identity with
  | none => edges
  | some kind =>
    if !classificationComplete then edges
    else
      let neutral := (writtenNames catalog kind identity.name).flatMap fun written =>
        index.reverseEdgesByIdentity scope ⟨"builtin", "TypeRef", written⟩
      let derived := (neutral.filter isNeutralClassBase).filterMap (classify index scope catalog)
      appendDistinct edges (derived.filter (·.object.entityType = identity.entityType))

end Classification
end CleanCtx
