import CleanCtx.Library.Buckets

/-!
The workspace index (`workspace/index.rs` with `edges.rs`, `remove.rs` and
`coverage.rs`) and the scope of a query (`workspace/scope.rs`).

One index holds the evidence of all files. Every view of it is updated by hand:
entities, both adjacencies, the edge set, the edges and the entity keys of a
file, and the names. Counters are natural numbers, so that the saturating
subtraction of the source is the truncated one.
-/
namespace CleanCtx

inductive SemanticRelation
  | injects | hasInput | hasOutput | hasModel | hasSelector | hasTemplate | hasStyle
  | declaresInModule | importsModule | exportsFromModule | routeMapsTo | guardedBy | resolvedBy
  | dispatches | selects | handlesAction | callsService | hasStore | triggersReducer
  | producesAction | controllerAction | hasRoute | hasEntity | entityRelationship | mapsFrom
  | mapsTo | hubMethodTargets | tests | autowired | endpointMapsTo | beanProduces
  | configurationProperties | extends | implements | defines | calls | hasBaseType
  | hasConstructorParameterType
  deriving DecidableEq

structure CallEvidence where
  explicitArgCount : UInt64
  hasSpread : Bool
  deriving DecidableEq

structure EntityRef where
  domain : String
  entityType : String
  name : String
  file : Option String
  deriving DecidableEq

structure SemanticEdge where
  relation : SemanticRelation
  subject : EntityRef
  object : EntityRef
  layer : String
  callEvidence : Option CallEvidence
  deriving DecidableEq

/-- The triple `(domain, entity_type, name)`; the file is excluded. -/
structure EntityKey where
  domain : String
  entityType : String
  name : String
  deriving DecidableEq

def entityKey (entity : EntityRef) : EntityKey := ⟨entity.domain, entity.entityType, entity.name⟩

/-- The identity of an edge occurrence: who asserts it, and what it asserts. -/
structure EdgeKey where
  assertingFile : String
  relation : SemanticRelation
  subjectDomain : String
  subjectType : String
  subjectName : String
  objectDomain : String
  objectType : String
  objectName : String
  explicitArgCount : Option UInt64
  hasSpread : Option Bool
  deriving DecidableEq

namespace EdgeKey

def new (assertingFile : String) (edge : SemanticEdge) : EdgeKey where
  assertingFile
  relation := edge.relation
  subjectDomain := edge.subject.domain
  subjectType := edge.subject.entityType
  subjectName := edge.subject.name
  objectDomain := edge.object.domain
  objectType := edge.object.entityType
  objectName := edge.object.name
  explicitArgCount := edge.callEvidence.map (·.explicitArgCount)
  hasSpread := edge.callEvidence.map (·.hasSpread)

def subjectKey (key : EdgeKey) : EntityKey := ⟨key.subjectDomain, key.subjectType, key.subjectName⟩

def objectKey (key : EdgeKey) : EntityKey := ⟨key.objectDomain, key.objectType, key.objectName⟩

/-- `same_triple`: the key's relation, endpoints and call evidence. -/
def sameTriple (key : EdgeKey) (edge : SemanticEdge) : Bool :=
  key.relation = edge.relation && key.subjectDomain = edge.subject.domain &&
  key.subjectType = edge.subject.entityType && key.subjectName = edge.subject.name &&
  key.objectDomain = edge.object.domain && key.objectType = edge.object.entityType &&
  key.objectName = edge.object.name &&
  key.explicitArgCount = edge.callEvidence.map (·.explicitArgCount) &&
  key.hasSpread = edge.callEvidence.map (·.hasSpread)

def «matches» (key : EdgeKey) (assertingFile : String) (edge : SemanticEdge) : Bool :=
  key.assertingFile = assertingFile && key.sameTriple edge

end EdgeKey

structure StoredEdge where
  assertingFile : String
  edge : SemanticEdge
  deriving DecidableEq

namespace StoredEdge

def key (stored : StoredEdge) : EdgeKey := .new stored.assertingFile stored.edge

end StoredEdge

inductive SemanticFidelity
  | low | medium | high
  deriving DecidableEq

def SemanticFidelity.rank : SemanticFidelity → Nat
  | low => 0
  | medium => 1
  | high => 2

structure SemanticCoverage where
  fidelity : SemanticFidelity
  sourceHash : String
  deriving DecidableEq

structure WorkspaceIndex where
  entities : HashMap EntityKey (List EntityRef)
  forward : HashMap EntityKey (List StoredEdge)
  reverse : HashMap EntityKey (List StoredEdge)
  edgeSet : Finset EdgeKey
  fileMap : HashMap String (List EntityKey)
  fileEdges : HashMap String (List EdgeKey)
  nameIndex : HashMap String (List EntityKey)
  semanticCoverage : HashMap String SemanticCoverage
  totalEdgesInserted : Nat
  edgeCount : Nat

namespace WorkspaceIndex

def new : WorkspaceIndex where
  entities := ∅
  forward := ∅
  reverse := ∅
  edgeSet := ∅
  fileMap := ∅
  fileEdges := ∅
  nameIndex := ∅
  semanticCoverage := ∅
  totalEdgesInserted := 0
  edgeCount := 0

def pushNew (keys : List EntityKey) (key : EntityKey) : List EntityKey :=
  if key ∈ keys then keys else keys ++ [key]

/-- Register one occurrence; the second component collects the keys registered for a file. -/
def registerEntity (index : WorkspaceIndex) (key : EntityKey) (entity : EntityRef)
    (fileEntityKeys : List EntityKey) : WorkspaceIndex × List EntityKey :=
  let nameIndex :=
    index.nameIndex.insert entity.name (pushNew (bucket index.nameIndex entity.name) key)
  let occurrences := bucket index.entities key
  if occurrences.any (·.file = entity.file) then
    ({ index with nameIndex, entities := index.entities.insert key occurrences }, fileEntityKeys)
  else
    ({ index with nameIndex, entities := index.entities.insert key (occurrences ++ [entity]) },
      fileEntityKeys ++ [key])

def attachFile (file : String) (entity : EntityRef) : EntityRef :=
  { entity with file := some (entity.file.getD file) }

def attachFiles (file : String) (edge : SemanticEdge) : SemanticEdge :=
  { edge with subject := attachFile file edge.subject, object := attachFile file edge.object }

/-- A `Defines` edge from an identity to itself registers an entity and is no relationship. -/
def isRegistration (edge : SemanticEdge) : Bool :=
  edge.relation = .defines && entityKey edge.subject = entityKey edge.object

/-- Record an edge occurrence in every view of it. -/
def insertOccurrence (index : WorkspaceIndex) (file : String) (edge : SemanticEdge) :
    WorkspaceIndex :=
  let key := EdgeKey.new file edge
  { index with
    edgeSet := insert key index.edgeSet
    edgeCount := index.edgeCount + 1
    fileEdges := pushEntry index.fileEdges file key
    forward := pushEntry index.forward (entityKey edge.subject) { assertingFile := file, edge }
    reverse := pushEntry index.reverse (entityKey edge.object) { assertingFile := file, edge } }

/-- One iteration of `add_edges`. -/
def addEdge (file : String) (state : WorkspaceIndex × List EntityKey) (edge : SemanticEdge) :
    WorkspaceIndex × List EntityKey :=
  let index := { state.1 with totalEdgesInserted := state.1.totalEdgesInserted + 1 }
  let edge := attachFiles file edge
  let subjKey := entityKey edge.subject
  let objKey := entityKey edge.object
  if isRegistration edge then index.registerEntity subjKey edge.subject state.2
  else
    let subject := index.registerEntity subjKey edge.subject state.2
    let object := subject.1.registerEntity objKey edge.object subject.2
    if EdgeKey.new file edge ∈ object.1.edgeSet then object
    else (object.1.insertOccurrence file edge, object.2)

def addEdges (index : WorkspaceIndex) (file : String) (edges : List SemanticEdge) :
    WorkspaceIndex :=
  let added := edges.foldl (addEdge file) (index, [])
  if added.2 = [] then added.1
  else
    { added.1 with
      fileMap := added.1.fileMap.insert file (added.2.foldl pushNew (bucket added.1.fileMap file)) }

def dropOccurrence (index : WorkspaceIndex) (key : EdgeKey) : WorkspaceIndex :=
  { index with
    forward := retainAt index.forward key.subjectKey fun stored =>
      !key.matches stored.assertingFile stored.edge
    reverse := retainAt index.reverse key.objectKey fun stored =>
      !key.matches stored.assertingFile stored.edge }

/-- The first phase of `remove_file`: the edge occurrences the file asserted. -/
def removeOccurrences (index : WorkspaceIndex) (file : String) : WorkspaceIndex :=
  let removedKeys := bucket index.fileEdges file
  removedKeys.foldl
    (fun index key => dropOccurrence { index with edgeSet := index.edgeSet.erase key } key)
    { index with
      semanticCoverage := index.semanticCoverage.erase file
      fileEdges := index.fileEdges.erase file
      edgeCount := index.edgeCount - removedKeys.length }

/-- The other phases: the entity keys tracked to the file, the adjacency buckets of identities
that are gone, and the names the file represented. -/
def removeEntities (index : WorkspaceIndex) (file : String) (keys : List EntityKey) :
    WorkspaceIndex :=
  let entities := keys.foldl
    (fun entities key => pruneAt entities key fun e => e.file ≠ some file) index.entities
  let gone (key : EntityKey) : Bool := decide (key ∉ entities)
  let names := (keys.map (·.name)).dedup
  { index with
    fileMap := index.fileMap.erase file
    entities
    forward := keys.foldl (fun m key => if gone key then m.erase key else m) index.forward
    reverse := keys.foldl (fun m key => if gone key then m.erase key else m) index.reverse
    nameIndex := names.foldl
      (fun nameIndex name => pruneAt nameIndex name fun key => !gone key) index.nameIndex }

def removeFile (index : WorkspaceIndex) (file : String) : WorkspaceIndex :=
  let index := index.removeOccurrences file
  match index.fileMap.lookup file with
  | some keys => index.removeEntities file keys
  | none => index

def cover (index : WorkspaceIndex) (file : String) (coverage : SemanticCoverage) :
    WorkspaceIndex :=
  { index with semanticCoverage := index.semanticCoverage.insert file coverage }

def replaceSemanticProjection (index : WorkspaceIndex) (file : String) (edges : List SemanticEdge)
    (fidelity : SemanticFidelity) (sourceHash : String) : WorkspaceIndex :=
  ((index.removeFile file).addEdges file edges).cover file { fidelity, sourceHash }

end WorkspaceIndex

/-! Path identity, on a platform whose path separator is the slash. -/

/-- `Path::components`: empty components and later dots are dropped, the root is one. -/
def pathComponents (path : String) : List String :=
  let parts := (path.toList.splitOn '/').map String.ofList
  let named := parts.filter fun part => part ≠ "" ∧ part ≠ "."
  if path.toList.head? = some '/' then "/" :: named
  else if parts.head? = some "." then "." :: named
  else named

def componentsAreWithin (candidate root : List String) : Bool :=
  root.length ≤ candidate.length && (root.zip candidate).all fun part => part.1 = part.2

def componentsEqual (left right : List String) : Bool :=
  left.length = right.length && (left.zip right).all fun part => part.1 = part.2

/-- `is_within_root`; the file system decides what a canonical path is. -/
def isWithinRoot (canonicalIdentityKey : String → String) (candidate root : String) : Bool :=
  componentsAreWithin (pathComponents (canonicalIdentityKey candidate))
    (pathComponents (canonicalIdentityKey root))

structure WithinPath where
  parts : List String
  exactFile : Bool

def WithinPath.admits (within : WithinPath) (file : List String) : Bool :=
  if within.exactFile then componentsEqual file within.parts
  else componentsAreWithin file within.parts

structure WorkspaceScope where
  roots : List (List String)
  narrowing : Option WithinPath

def WorkspaceScope.admits (scope : WorkspaceScope) (assertingFile : String) : Bool :=
  let file := pathComponents assertingFile
  (scope.roots = [] || scope.roots.any (componentsAreWithin file)) &&
    scope.narrowing.all (·.admits file)

namespace WorkspaceIndex

def owners (index : WorkspaceIndex) : Finset String :=
  index.fileMap.keys ∪ index.fileEdges.keys ∪ index.semanticCoverage.keys

def removeFiles (index : WorkspaceIndex) (files : List String) : WorkspaceIndex :=
  files.foldl removeFile index

/-- The owners below a root, in the order in which a hash set happens to give them. -/
def OwnersInRoot (canonicalIdentityKey : String → String) (index : WorkspaceIndex) (root : String)
    (files : List String) : Prop :=
  files.Nodup ∧
    ∀ f, f ∈ files ↔ f ∈ index.owners ∧ isWithinRoot canonicalIdentityKey f root = true

/-- A result of `remove_files_in_root`: the owners are removed, and counted. -/
def RemovesFilesInRoot (canonicalIdentityKey : String → String) (index : WorkspaceIndex)
    (root : String) (result : WorkspaceIndex × Nat) : Prop :=
  ∃ files, OwnersInRoot canonicalIdentityKey index root files ∧
    result = (index.removeFiles files, files.length)

/-! Queries. -/

def selectedOccurrences (adjacency : HashMap EntityKey (List StoredEdge)) (key : EntityKey)
    (scope : Option WorkspaceScope) : List SemanticEdge :=
  ((bucket adjacency key).filter fun stored =>
    scope.all (·.admits stored.assertingFile)).map (·.edge)

def entityOccurrenceAdmitted (occurrence : EntityRef) (scope : Option WorkspaceScope) : Bool :=
  scope.all fun scope => occurrence.file.any scope.admits

variable (index : WorkspaceIndex) (scope : Option WorkspaceScope)

def entitiesByIdentity (key : EntityKey) : List EntityRef := bucket index.entities key

def forwardEdgesByIdentity (key : EntityKey) : List SemanticEdge :=
  selectedOccurrences index.forward key scope

def reverseEdgesByIdentity (key : EntityKey) : List SemanticEdge :=
  selectedOccurrences index.reverse key scope

def findEntitiesByName (name : String) : List EntityRef :=
  (bucket index.nameIndex name).flatMap fun key =>
    (bucket index.entities key).filter (entityOccurrenceAdmitted · scope)

def isInjectTarget (key : EntityKey) : Bool :=
  (bucket index.reverse key).any fun stored =>
    stored.edge.relation = .injects || stored.edge.relation = .autowired

def resolveInjectType (typeName : String) : List EntityRef :=
  (bucket index.nameIndex typeName).flatMap fun key =>
    if index.isInjectTarget key then bucket index.entities key else []

/-- The subjects of the `HasSelector` edges into the identities of a name, each once. -/
def selectorSubjects (selector : String) : List EntityKey :=
  ((bucket index.nameIndex selector).flatMap fun markerKey =>
    ((bucket index.reverse markerKey).filter (·.edge.relation = .hasSelector)).map
      (entityKey ·.edge.subject)).foldl pushNew []

def resolveSelector (selector : String) : List EntityRef :=
  (index.selectorSubjects selector).flatMap (bucket index.entities)

def isEmpty : Bool := index.edgeCount = 0

def entityIdentityCount : Nat := index.entities.keys.card

def entityOccurrenceCount : Nat := storedCount index.entities

def hasIdentityInScope (key : EntityKey) : Bool :=
  (bucket index.entities key).any (entityOccurrenceAdmitted · scope)

def hasAdjacencyEvidence (adjacency : HashMap EntityKey (List StoredEdge))
    (domain entityType : String) : Bool :=
  decide (∃ key ∈ adjacency.keys, key.domain = domain ∧ key.entityType = entityType ∧
    selectedOccurrences adjacency key scope ≠ [])

def hasForwardCapabilityEvidence (domain entityType : String) : Bool :=
  hasAdjacencyEvidence scope index.forward domain entityType

def hasReverseCapabilityEvidence (domain entityType : String) : Bool :=
  hasAdjacencyEvidence scope index.reverse domain entityType

def hasCurrentSemanticProjection (file : String) (fidelity : SemanticFidelity)
    (sourceHash : String) : Bool :=
  (index.semanticCoverage.lookup file).any fun coverage =>
    coverage.sourceHash = sourceHash && fidelity.rank ≤ coverage.fidelity.rank

end WorkspaceIndex
end CleanCtx
