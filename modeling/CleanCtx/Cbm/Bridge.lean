import CleanCtx.Cbm.Client
import CleanCtx.Library.PositionIndex
import CleanCtx.Workspace.Index

/-!
The graph bridge (`cbm/bridge.rs`, `cbm/bridge/*.rs`, `cbm/cache_store.rs`): the projects
it knows, the cache of query answers in memory and on disk, and the generations that tell
whether a project was edited since it was indexed.

What the file system, the clocks, the disk and the graph process do during one call is a
`Moment`. An answer carries, for no code to read, the root and the query it was given for
and the length of the log when it was inserted.
-/
namespace CleanCtx
namespace Cbm

def staysInSlug (c : Char) : Bool :=
  c.isAlphanum || c = '.' || c = '_' || c = '-'

/-- One turn of the loop of `cbm_project_slug`: the slug so far, and `last_dash`. -/
def slugStep (out : Text × Bool) (c : Char) : Text × Bool :=
  if staysInSlug c then (out.1 ++ [c], false)
  else if !out.2 && !out.1.isEmpty then (out.1 ++ ['-'], true)
  else if out.1.isEmpty then (out.1, true)
  else out

def cbmProjectSlug (canonicalRoot : Text) : Text :=
  let out := (canonicalRoot.foldl slugStep ([], false)).1
  let trimmed := (out.reverse.dropWhile (· = '-')).reverse
  if trimmed.isEmpty then "default".toList else trimmed

/-- The typed queries, with their arguments. -/
inductive GraphQuery
  | symbolImportance
  | blastRadius (symbol : Text) (depth : Nat)
  | deadCode
  | callEdges
  | architecture
  | crossLanguageEndpoint (methodName : Text)
  | queryGraph (cypher : Text)
  | search (query : Text)
  | tracePath (start target : Text)
  deriving DecidableEq

/-- The cache key. A trace from a symbol to itself is answered without the cache. -/
def GraphQuery.cacheKey : GraphQuery → Option Text
  | .symbolImportance => some "symbol_importance".toList
  | .blastRadius symbol _ => some ("blast:".toList ++ symbol)
  | .deadCode => some "dead_code".toList
  | .callEdges => some "call_edges".toList
  | .architecture => some "architecture".toList
  | .crossLanguageEndpoint methodName => some ("endpoint:".toList ++ methodName)
  | .queryGraph cypher => some ("cypher2:".toList ++ cypher)
  | .search query => some ("search:".toList ++ query)
  | .tracePath start target =>
      if start = target then none
      else some ("trace:".toList ++ (start ++ ':' :: target))

structure Answer where
  data : Value
  root : Option Text
  query : GraphQuery
  stamp : Nat

structure CachedGraphData where
  data : Answer
  expiresAt : Nat

structure GraphCacheKey where
  project : Text
  query : Text
  deriving DecidableEq

def GraphCacheKey.belongsTo (key : GraphCacheKey) (project : Text) : Bool := key.project = project

def GraphCacheKey.queryContains (key : GraphCacheKey) (value : Text) : Bool :=
  key.query.tails.any value.isPrefixOf

inductive IndexingState
  | notStarted
  | inProgress (startedAt : Nat)
  | complete
  | failed (msg : String)

inductive IndexingStatus
  | ready
  | stillIndexing (elapsedSecs : Nat)

structure ProjectFreshness where
  dirtyGeneration : Nat
  indexedGeneration : Nat

/-- Rows of `cbm_graph_cache`, by project root and cache key. -/
abbrev GraphCacheStore := HashMap (Text × Text) CachedGraphData

/-- `project_ids` is a hash map, which is iterated in any order; here its roots are listed, and so
iterated, in the order in which they were inserted last. -/
structure GraphBridge where
  client : Bool
  cache : HashMap GraphCacheKey CachedGraphData
  status : CbmStatus
  cacheTtl : Nat
  project : Option Text
  projectRoot : Text
  diskCache : Option GraphCacheStore
  indexingState : HashMap Text IndexingState
  freshness : HashMap Text ProjectFreshness
  projectIds : List (Text × Text)
  projectPaths : HashMap Text Text

/-- What the world does during one call. -/
structure Moment where
  canonicalize : Text → Option Text
  instant : Nat
  wall : Nat
  diskFails : Bool
  reply : Except CbmError Value
  clientStatus : CbmStatus

def CbmStatus.isAvailable : CbmStatus → Bool
  | .available => true
  | _ => false

/-- `Path::starts_with`. -/
def pathStartsWith (path root : Text) : Bool :=
  componentsAreWithin (pathComponents (String.ofList path)) (pathComponents (String.ofList root))

/-- `Path::file_name`. -/
def fileName (path : Text) : Option Text :=
  match (pathComponents (String.ofList path)).getLast? with
  | some name => if name = "/" ∨ name = "." ∨ name = ".." then none else some name.toList
  | none => none

/-- `max_by_key` on the length: the last of the longest. -/
def longest (roots : List Text) : Option Text :=
  roots.foldl (fun best root =>
    match best with
    | none => some root
    | some b => if byteLen b ≤ byteLen root then some root else some b) none

namespace GraphBridge

variable (b : GraphBridge) (m : Moment)

def projectStr : Text := b.project.getD "default".toList

def isAvailable : Bool :=
  b.status.isAvailable && (b.client || !decide (b.cache.keys = ∅))

def updateStatus : GraphBridge :=
  { b with status := if b.client then m.clientStatus else .unavailable }

def insertCbmProject (root : Text) : GraphBridge :=
  { b with
    projectPaths := b.projectPaths.insert (cbmProjectSlug root) root
    projectIds := b.projectIds.filter (·.1 ≠ root) ++ [(root, cbmProjectSlug root)] }

def resolveProjectId (raw : Text) : Text :=
  let trimmed := trim raw
  if '/' ∈ trimmed ∨ '\\' ∈ trimmed ∨ ':' ∈ trimmed ∨ (m.canonicalize trimmed).isSome then
    let canon := (m.canonicalize trimmed).getD trimmed
    (b.projectIds.lookup canon).getD (cbmProjectSlug canon)
  else if trimmed ∈ b.projectPaths then trimmed
  else
    match b.projectIds.find? fun entry => fileName entry.1 = some trimmed with
    | some entry => entry.2
    | none => trimmed

/-! The cache. -/

def diskKey (project key : Text) : Text := project ++ ':' :: key

/-- `GraphCacheStore::get`; an expired row is deleted. -/
def diskGet (disk : GraphCacheStore) (root key : Text) : Option Answer × GraphCacheStore :=
  if m.diskFails then (none, disk)
  else
    match disk.lookup (root, key) with
    | some row =>
        if m.wall < row.expiresAt then (some row.data, disk) else (none, disk.erase (root, key))
    | none => (none, disk)

def cachedValueFromDisk (project key : Text) : Option Answer × GraphBridge :=
  match b.diskCache, b.projectPaths.lookup project with
  | some disk, some root =>
      match diskGet m disk root (diskKey project key) with
      | (some data, disk) =>
          (some data, { b with
            diskCache := some disk
            cache := b.cache.insert ⟨project, key⟩ ⟨data, m.instant + b.cacheTtl⟩ })
      | (none, disk) => (none, { b with diskCache := some disk })
  | _, _ => (none, b)

/-- An entry in memory, else one on disk, which is then also in memory. -/
def cachedValueFor (project key : Text) : Option Answer × GraphBridge :=
  match b.cache.lookup ⟨project, key⟩ with
  | some cached =>
      if m.instant < cached.expiresAt then (some cached.data, b)
      else ({ b with cache := b.cache.erase ⟨project, key⟩ }).cachedValueFromDisk m project key
  | none => b.cachedValueFromDisk m project key

def cacheInsertFor (project key : Text) (value : Answer) : GraphBridge :=
  { b with
    cache := b.cache.insert ⟨project, key⟩ ⟨value, m.instant + b.cacheTtl⟩
    diskCache := b.diskCache.map fun disk =>
      match b.projectPaths.lookup project with
      | some root =>
          if m.diskFails then disk
          else disk.insert (root, diskKey project key) ⟨value, m.wall + b.cacheTtl * 1000⟩
      | none => disk }

def invalidateProjectCache (project : Text) : GraphBridge :=
  let project := b.resolveProjectId m project
  { b with
    cache := b.cache.retain fun key _ => !key.belongsTo project
    diskCache := b.diskCache.map fun disk =>
      match b.projectPaths.lookup project with
      | some root => if m.diskFails then disk else disk.retain fun key _ => key.1 ≠ root
      | none => disk }

def invalidateSymbol (symbol : Text) : GraphBridge :=
  { b with cache := b.cache.retain fun key _ =>
      !key.belongsTo b.projectStr || !key.queryContains symbol }

/-! Freshness and indexing. -/

/-- The project of a file and its root: the longest root that contains it, or the active one. -/
def resolveProjectForFile (file : Text) : Text × Text :=
  let fileCanon := (m.canonicalize file).getD file
  let repoRoot :=
    (longest ((b.projectIds.map Prod.fst).filter (pathStartsWith fileCanon))).getD b.projectRoot
  ((b.projectIds.lookup repoRoot).getD b.projectStr, repoRoot)

def freshnessOf (project : Text) : ProjectFreshness := (b.freshness.lookup project).getD ⟨0, 0⟩

def markDirty (project : Text) : GraphBridge :=
  let entry := b.freshnessOf project
  { b with
    freshness := b.freshness.insert project
      { entry with dirtyGeneration := entry.dirtyGeneration + 1 } }

def isProjectDirty (project : Text) : Bool :=
  match b.freshness.lookup project with
  | some entry => entry.indexedGeneration < entry.dirtyGeneration
  | none => false

def advanceIndexed (project : Text) (generation : Nat) : GraphBridge :=
  match b.freshness.lookup project with
  | some entry =>
      { b with
        freshness := b.freshness.insert project { entry with indexedGeneration := generation } }
  | none => b

def startIndexingFor (project : Text) : GraphBridge :=
  { b with indexingState := b.indexingState.insert project (.inProgress m.instant) }

def ensureTracked (slug : Text) : GraphBridge :=
  if slug ∈ b.projectPaths ∧ slug ∉ b.indexingState ∧ b.isAvailable then b.startIndexingFor m slug
  else b

def indexerDone (project : Text) : Except String Unit → GraphBridge
  | .ok () => { b with indexingState := b.indexingState.insert project .complete }
  | .error msg => { b with indexingState := b.indexingState.insert project (.failed msg) }

def setProject (project : Text) : GraphBridge :=
  let resolved := b.resolveProjectId m project
  ({ b with project := some resolved }).ensureTracked m resolved

def setWorkspaceRoot (root : Text) : GraphBridge :=
  let rootCanon := (m.canonicalize root).getD root
  if b.projectRoot = rootCanon then b
  else
    let slug := (b.projectIds.lookup rootCanon).getD (cbmProjectSlug rootCanon)
    let b := if (b.projectIds.lookup rootCanon).isSome then b else b.insertCbmProject rootCanon
    ({ b with projectRoot := rootCanon, project := some slug }).ensureTracked m slug

/-- `try_create_with_roots`, with the rows the disk cache holds. -/
def tryCreateWithRoots (launched : Bool) (cacheTtl : Nat) (disk : Option GraphCacheStore)
    (projectRoot : Text) (additionalRoots : List Text) : GraphBridge :=
  let root := (m.canonicalize projectRoot).getD projectRoot
  let primary : GraphBridge := {
    client := launched
    cache := ∅
    status := if launched then .available else .unavailable
    cacheTtl
    project := some (cbmProjectSlug root)
    projectRoot := root
    diskCache := disk
    indexingState := ∅
    freshness := ∅
    projectIds := []
    projectPaths := ∅ }
  let b := (additionalRoots.filterMap m.canonicalize).foldl
    (fun b extra => if (b.projectIds.lookup extra).isSome then b else b.insertCbmProject extra)
    (primary.insertCbmProject root)
  if launched then (b.projectIds.map Prod.snd).foldl (fun b slug => b.startIndexingFor m slug) b
  else b

end GraphBridge

/-- What a session remembers: edits marked, calls of `index_repository`, readiness answers and
answers served from the cache. -/
inductive Record
  | marked (project root : Text) (generation : Nat)
  | indexed (root : Text)
  | ready (project root : Text) (indexedGeneration : Nat)
  | served (project : Text) (stamp : Nat)

/-- A bridge in use. The log has the newest record first. -/
structure Session where
  bridge : GraphBridge
  log : List Record

namespace Session

variable (s : Session) (m : Moment)

def markProjectDirty (file : Text) : Session :=
  let (project, root) := s.bridge.resolveProjectForFile m file
  let bridge := s.bridge.markDirty project
  { bridge, log := .marked project root (bridge.freshnessOf project).dirtyGeneration :: s.log }

/-- A call of `index_repository`. -/
def index (root : Text) : Except CbmError Session :=
  if s.bridge.client then
    match m.reply with
    | .ok _ => .ok { s with log := .indexed root :: s.log }
    | .error e => .error e
  else .error (.launchError "CBM not available")

/-- The lazy reindex of `reindex_active_project` and of `ensure_indexed_for`. -/
def lazyReindex (project root : Text) : Except CbmError Session :=
  let dirtyGen := (s.bridge.freshnessOf project).dirtyGeneration
  (s.index m root).map fun s =>
    { s with bridge := (s.bridge.advanceIndexed project dirtyGen).invalidateProjectCache m project }

def reindexActiveProject : Except CbmError Session :=
  s.lazyReindex m s.bridge.projectStr s.bridge.projectRoot

def reindexForFile (file : Text) : Except CbmError Session :=
  if s.bridge.isAvailable then
    let (project, root) := s.bridge.resolveProjectForFile m file
    (s.index m root).map fun s => { s with bridge := s.bridge.invalidateProjectCache m project }
  else .error (.launchError "CBM not available")

/-- What the indexing state of a project says; more than a minute in progress is a failure. -/
def indexingGate (project : Text) : Except CbmError IndexingStatus × Session :=
  let setState := fun state =>
    { s with bridge :=
        { s.bridge with indexingState := s.bridge.indexingState.insert project state } }
  match (s.bridge.indexingState.lookup project).getD .notStarted with
  | .complete => (.ok .ready, setState .complete)
  | .inProgress startedAt =>
      if 60 < m.instant - startedAt then
        (.error (.launchError "indexing timed out"),
          setState (.failed "indexing timed out after 60s"))
      else (.ok (.stillIndexing (m.instant - startedAt)), setState (.inProgress startedAt))
  | .failed msg => (.error (.launchError msg), setState (.failed msg))
  | .notStarted => (.ok (.stillIndexing 0), setState .notStarted)

def ensureIndexed : Except CbmError IndexingStatus × Session :=
  if s.bridge.isAvailable then
    if s.bridge.isProjectDirty s.bridge.projectStr then
      match s.reindexActiveProject m with
      | .ok s => s.indexingGate m s.bridge.projectStr
      | .error e => (.error e, s)
    else s.indexingGate m s.bridge.projectStr
  else (.error (.launchError "CBM not available"), s)

def otherGate (project : Text) : Except CbmError IndexingStatus × Session :=
  if project ∈ s.bridge.projectPaths then s.indexingGate m project else (.ok .ready, s)

def ensureIndexedFor (project : Text) : Except CbmError IndexingStatus × Session :=
  if s.bridge.isAvailable then
    if s.bridge.project = some project then s.ensureIndexed m
    else if s.bridge.isProjectDirty project then
      match s.bridge.projectPaths.lookup project with
      | some root =>
          match s.lazyReindex m project root with
          | .ok s => s.otherGate m project
          | .error e => (.error e, s)
      | none => s.otherGate m project
    else s.otherGate m project
  else (.error (.launchError "CBM not available"), s)

def noteReady (project : Text) : Except CbmError IndexingStatus × Session → Session
  | (.ok .ready, s) =>
      match s.bridge.projectPaths.lookup project with
      | some root =>
          { s with log :=
              .ready project root (s.bridge.freshnessOf project).indexedGeneration :: s.log }
      | none => s
  | (_, s) => s

/-- The answer of the process is cached; of the failures only those of an endpoint are. -/
def fetch (project key : Text) (root : Option Text) (query : GraphQuery) : Session :=
  let answer := fun data => (⟨data, root, query, s.log.length⟩ : Answer)
  if s.bridge.client then
    let bridge := s.bridge.updateStatus m
    match m.reply, query with
    | .ok data, _ => { s with bridge := bridge.cacheInsertFor m project key (answer data) }
    | .error _, .crossLanguageEndpoint _ =>
        { s with bridge := bridge.cacheInsertFor m project key (answer .null) }
    | .error _, _ => { s with bridge }
  else
    match query with
    | .crossLanguageEndpoint _ =>
        { s with bridge := s.bridge.cacheInsertFor m project key (answer .null) }
    | _ => s

def isSkipped : GraphQuery → Bool
  | .crossLanguageEndpoint _ => !s.bridge.isAvailable
  | _ => false

def keyRead (query : GraphQuery) : Option Text :=
  if s.isSkipped query then none else query.cacheKey

/-- A typed query of a project: from the cache, else from the process. -/
def ask (project : Text) (root : Option Text) (query : GraphQuery) : Session :=
  match s.keyRead query with
  | none => s
  | some key =>
      match s.bridge.cachedValueFor m project key with
      | (some answer, bridge) => { bridge, log := .served project answer.stamp :: s.log }
      | (none, bridge) => { s with bridge }.fetch m project key root query

end Session

/-- Queries say for which root they are asked, when their project is the one of a root. -/
inductive Event
  | markProjectDirty (file : Text)
  | query (root : Option Text) (query : GraphQuery)
  | queryGraphScoped (root : Option Text) (cypher project : Text)
  | searchScoped (root : Option Text) (query project : Text)
  | reindexActiveProject
  | reindexForFile (file : Text)
  | ensureIndexed
  | ensureIndexedFor (project : Text)
  | setProject (project : Text)
  | setWorkspaceRoot (root : Text)
  | invalidateCache
  | invalidateSymbol (symbol : Text)
  | indexerDone (project : Text) (result : Except String Unit)

namespace Session

def askFor (s : Session) (m : Moment) (project : Text) (root : Option Text) (query : GraphQuery) :
    Option Session :=
  if root.all (cbmProjectSlug · = project) then some (s.ask m project root query) else none

/-- A failed reindex leaves the session as it was. -/
def orUnchanged (s : Session) : Except CbmError Session → Session
  | .ok s' => s'
  | .error _ => s

def step (s : Session) (event : Moment × Event) : Option Session :=
  let m := event.1
  match event.2 with
  | .markProjectDirty file => some (s.markProjectDirty m file)
  | .query root query => s.askFor m s.bridge.projectStr root query
  | .queryGraphScoped root cypher project =>
      s.askFor m (s.bridge.resolveProjectId m project) root (.queryGraph cypher)
  | .searchScoped root query project =>
      s.askFor m (s.bridge.resolveProjectId m project) root (.search query)
  | .reindexActiveProject => some (s.orUnchanged (s.reindexActiveProject m))
  | .reindexForFile file => some (s.orUnchanged (s.reindexForFile m file))
  | .ensureIndexed => some (noteReady s.bridge.projectStr (s.ensureIndexed m))
  | .ensureIndexedFor project => some (noteReady project (s.ensureIndexedFor m project))
  | .setProject project => some { s with bridge := s.bridge.setProject m project }
  | .setWorkspaceRoot root => some { s with bridge := s.bridge.setWorkspaceRoot m root }
  | .invalidateCache =>
      some { s with bridge := s.bridge.invalidateProjectCache m s.bridge.projectStr }
  | .invalidateSymbol symbol => some { s with bridge := s.bridge.invalidateSymbol symbol }
  | .indexerDone project result =>
      some { s with bridge := s.bridge.indexerDone project result }

end Session

end Cbm
end CleanCtx
