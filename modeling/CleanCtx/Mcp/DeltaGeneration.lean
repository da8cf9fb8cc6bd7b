import CleanCtx.Dictionary.Path
import CleanCtx.Ir.DeltaSequence
import CleanCtx.Sqlite.Purge

/-!
The generation of a delta (`handle_delta_code_context` of `mcp/tool_handlers/core/delta.rs`,
with `delta/persistence.rs`), after its recovery preflight. A request reads one state and
commits in a later one, while the publication clock of the file is held. The compiler, the
hash of a text and the identities derived from it are parameters, and so is what decides
that the candidate is still the newest of its source.
-/
namespace CleanCtx

namespace ContextState

variable (self : ContextState) (fileId : String)

def hasFile : Bool := (self.files.lookup fileId).isSome

def fileVersion : Option UInt64 := (self.files.lookup fileId).map (·.version)

def tracked : Bool := 0 < (self.fileVersion fileId).getD 0 && self.hasFile fileId

def getSourceHash : Option String := self.sourceHashes.lookup fileId

def isSourceUnchanged (sourceHash : String) : Bool :=
  match self.getSourceHash fileId with
  | none => false
  | some stored => stored = sourceHash

def setSourceHash (sourceHash : String) : ContextState :=
  { self with sourceHashes := self.sourceHashes.insert fileId sourceHash }

end ContextState

namespace Mcp

open Edit Sqlite

structure CompatibleSemanticProjection where
  semanticEdges : List SemanticEdge
  sourceHash : String
  fidelity : Fidelity
  deriving DecidableEq

structure PendingTransitionKey where
  name : String
  fromVersion : UInt64
  toVersion : UInt64
  deriving DecidableEq

structure PendingSemanticTransition where
  durableFile : String
  fromVersion : UInt64
  toVersion : UInt64
  targetSourceHash : String
  deltaIdentity : String
  semantic : CompatibleSemanticProjection
  compatibility : CompatibilityIdentities
  retired : Bool
  deriving DecidableEq

structure McpState where
  irContext : ContextState
  dict : PathDictionary
  contextFidelities : HashMap String Fidelity
  pendingSemanticTransitions : HashMap PendingTransitionKey PendingSemanticTransition
  semanticEdgeSnapshots : HashMap String (List SemanticEdge)
  persistedPaths : HashMap String String
  workspaceIndex : WorkspaceIndex
  persistenceStore : Option SqliteStore

structure DeltaEnv where
  semanticOwnerPath : String → String
  durableOwnerPath : String → String
  canonicalIdentityKey : String → String
  shortPathHash : String → String
  computeHash : String → String
  /-- By path, fidelity, file identity, previous version and source. -/
  compile : String → Fidelity → String → UInt64 → String →
    Except String (CompiledIR × List SemanticEdge)
  deriveIdentities : String → String → Except String CompatibilityIdentities
  sequenceDeltaIdentity : SequenceDelta → String
  autoSave : Bool
  now : Nat

structure DeltaRequest where
  resolvedPath : String
  fidelity : Fidelity
  source : String

inductive CompatibilityComponent
  | canonicalConfiguration | canonicalProducers
  deriving DecidableEq

inductive CompatibilityFailure
  | missingLegacyIdentity (component : CompatibilityComponent)
  | canonicalConfigurationIncompatible
  | canonicalProducerIncompatible
  deriving DecidableEq

inductive DeltaFailure
  | message (text : String)
  | invalidTuple (position : Nat) (tuple : Tuple)
  | invalidBaseline (error : SqliteStore.LoadFailure)
  | compatibility (failure : CompatibilityFailure)
  | hierarchy (error : IdentityError)
  | rejected (error : DeltaError)
  deriving DecidableEq

abbrev DeltaM := Method McpState DeltaFailure

namespace McpState

def aliasForPath (env : DeltaEnv) (state : McpState) (path : String) : Option String :=
  let owner := env.semanticOwnerPath path
  state.dict.aliasForPath owner (env.canonicalIdentityKey owner)

def rememberContextFidelity (name : String) (fidelity : Fidelity) (state : McpState) : McpState :=
  { state with contextFidelities := state.contextFidelities.insert name fidelity }

def rememberPersistedPath (env : DeltaEnv) (name filePath : String) (state : McpState) : McpState :=
  { state with
    persistedPaths := state.persistedPaths.insert name (env.durableOwnerPath filePath) }

def getOrCreateAlias (env : DeltaEnv) (path : String) (state : McpState) : McpState × String :=
  let owner := env.semanticOwnerPath path
  let created := state.dict.getOrCreateAlias owner (env.canonicalIdentityKey owner)
  ({ state with dict := created.1 }, created.2)

end McpState

def tuplesToCoreopsFrom (position : Nat) : List Tuple → Except DeltaFailure (List CoreOp)
  | [] => .ok []
  | tuple :: rest =>
      match tupleToOp tuple with
      | none => .error (.invalidTuple position tuple)
      | some op => (tuplesToCoreopsFrom (position + 1) rest).map (op :: ·)

def compiledFromTuples (fileId : String) (version : UInt64) (tuples : List Tuple) :
    Except DeltaFailure CompiledIR :=
  (tuplesToCoreopsFrom 0 tuples).map fun instructions => { fileId, instructions, version }

def ofResult {α : Type} (result : Except DeltaFailure α) : DeltaM α :=
  Method.ofLocal (Fallible.ofExcept result)

def checkedHierarchy (ir : CompiledIR) : DeltaM HierarchicalIR :=
  Method.ofLocal ((tryIrToHierarchical ir).adapt .hierarchy)

def readCheckpointRequired (env : DeltaEnv) (fidelity : Fidelity) : Bool :=
  env.autoSave || fidelity = .edit

def validateCanonical (loaded : SqliteStore.UntrustedDurableContext)
    (current : CompatibilityIdentities) : Except CompatibilityFailure Unit :=
  match loaded.compatibility.canonicalConfig with
  | none => .error (.missingLegacyIdentity .canonicalConfiguration)
  | some config =>
      if config ≠ current.canonicalConfig then .error .canonicalConfigurationIncompatible
      else
        match loaded.compatibility.canonicalProducers with
        | none => .error (.missingLegacyIdentity .canonicalProducers)
        | some producers =>
            if producers ≠ current.canonicalProducers then .error .canonicalProducerIncompatible
            else .ok ()

section Generation

variable (env : DeltaEnv)

def persistBaseline (filePath : String) (fidelity : Fidelity) (compiled : CompiledIR)
    (sourceHash : String) (semanticEdges : List SemanticEdge) (source : String) :
    DeltaM Unit := do
  let identities ← ofResult ((env.deriveIdentities source filePath).mapError .message)
  let binary ← Method.ofLocal (Fallible.ofRust (Binary.encode { compiled with fileId := filePath }))
  match (← get).persistenceStore with
  | none => pure ()
  | some store =>
      match store.saveContextTransaction env.shortPathHash env.now filePath fidelity "" binary
          sourceHash compiled.version semanticEdges 0 0 (some identities) with
      | .error _ =>
          throw (.message "canonical baseline and semantic edges were not persisted atomically")
      | .ok (saved, _) => modify fun state => { state with persistenceStore := some saved }

/-- `ensure_persisted_baseline`: what is stored must be what the session holds. -/
def ensurePersistedBaseline (filePath : String) (fidelity : Fidelity) (compiled : CompiledIR)
    (sourceHash source : String) : DeltaM Unit := do
  match (← get).persistenceStore with
  | none => pure ()
  | some store =>
      match store.latestRow filePath with
      | none =>
          match (← get).semanticEdgeSnapshots.lookup compiled.fileId with
          | none => throw (.message "missing authoritative semantic-edge baseline")
          | some semanticEdges =>
              persistBaseline env filePath fidelity compiled sourceHash semanticEdges source
              modify (McpState.rememberPersistedPath env compiled.fileId filePath)
      | some _ =>
          match ← Method.ofLocal ((store.loadDurableContext filePath none).adapt
              .invalidBaseline) with
          | none => throw (.message "Missing durable baseline owner")
          | some durable =>
              if durable.ir.fileId ≠ filePath ∨ durable.ir.version ≠ compiled.version ∨
                  durable.sourceHash ≠ sourceHash then
                throw (.message "Durable baseline does not match session canonical state")
              else do
                let current ← ofResult ((env.deriveIdentities source filePath).mapError .message)
                ofResult ((validateCanonical durable current).mapError .compatibility)

def rememberPendingTransition (name durableFile : String) (delta : SequenceDelta)
    (targetSourceHash : String) (semantic : CompatibleSemanticProjection)
    (compatibility : CompatibilityIdentities) : DeltaM Unit :=
  if delta.targetHash ≠ some targetSourceHash then
    throw (.message "generated delta target hash does not match semantic state")
  else if semantic.sourceHash ≠ targetSourceHash then
    throw (.message "generated semantic projection has wrong target hash")
  else
    let key : PendingTransitionKey :=
      { name, fromVersion := delta.fromVersion, toVersion := delta.toVersion }
    let transition : PendingSemanticTransition :=
      { durableFile, targetSourceHash, semantic, compatibility
        fromVersion := delta.fromVersion
        toVersion := delta.toVersion
        deltaIdentity := env.sequenceDeltaIdentity delta
        retired := false }
    modify fun state => { state with
      pendingSemanticTransitions := state.pendingSemanticTransitions.insert key transition }

/-- What a request has read and compiled before it may commit. -/
structure DeltaCandidate where
  pathAlias : String
  prevVersion : UInt64
  previousAuthority : Option (List Tuple × Option String)
  compiled : CompiledIR
  semanticEdges : List SemanticEdge
  sourceHash : String

inductive Prepared
  | cached (version : UInt64) (compiled : CompiledIR)
  | candidate (candidate : DeltaCandidate)

inductive DeltaResponse
  | cached (version : UInt64) (compiled : CompiledIR)
  | delta (delta : SequenceDelta)
  | full (version : UInt64) (compiled : CompiledIR)

/-- `compile_file_ir_candidate`, at the version after the one that was read. -/
def compileCandidate (request : DeltaRequest) (prevVersion : UInt64) (state : McpState) :
    Except DeltaFailure (CompiledIR × List SemanticEdge) :=
  let existingAlias := state.aliasForPath env request.resolvedPath
  let candidateId := existingAlias.getD request.resolvedPath
  let previousVersion := (existingAlias.bind state.irContext.fileVersion).getD 0
  ((env.compile request.resolvedPath request.fidelity candidateId previousVersion
    request.source).mapError .message).map fun (compiled, semanticEdges) =>
      ({ compiled with version := prevVersion + 1 }, semanticEdges)

/-- The handler up to its commit; an unchanged source is answered from the session. -/
def prepareDelta (request : DeltaRequest) : DeltaM Prepared := do
  let state ← get
  let pathAlias := (state.aliasForPath env request.resolvedPath).getD
    (env.semanticOwnerPath request.resolvedPath)
  let prevVersion := (state.irContext.fileVersion pathAlias).getD 0
  let tracked := state.irContext.tracked pathAlias
  let tuples := (state.irContext.getIr pathAlias).getD []
  let sourceHash := env.computeHash request.source
  if tracked ∧ state.irContext.isSourceUnchanged pathAlias sourceHash then
    let compiled ← ofResult (compiledFromTuples pathAlias prevVersion tuples)
    let _ ← checkedHierarchy compiled
    pure (.cached prevVersion compiled)
  else
    let (compiled, semanticEdges) ← ofResult (compileCandidate env request prevVersion state)
    pure (.candidate
      { pathAlias, prevVersion, compiled, semanticEdges, sourceHash
        previousAuthority :=
          if tracked then some (tuples, state.irContext.getSourceHash pathAlias) else none })

def authorityIsCurrent (request : DeltaRequest) (candidate : DeltaCandidate) (state : McpState) :
    Bool :=
  match candidate.previousAuthority with
  | some (instructions, previousHash) =>
      state.irContext.fileVersion candidate.pathAlias = some candidate.prevVersion &&
        state.irContext.getIr candidate.pathAlias = some instructions &&
        state.irContext.getSourceHash candidate.pathAlias = previousHash
  | none =>
      match state.aliasForPath env request.resolvedPath with
      | none => true
      | some name => !state.irContext.hasFile name

/-- A delta is remembered until it is applied; the live context stays as it is. -/
def rememberDelta (request : DeltaRequest) (candidate : DeltaCandidate) (delta : SequenceDelta) :
    DeltaM SequenceDelta := do
  let durableOwner := env.durableOwnerPath request.resolvedPath
  let delta := { delta with targetHash := some candidate.sourceHash }
  modify (McpState.rememberContextFidelity candidate.pathAlias request.fidelity)
  let compatibility ← ofResult
    ((env.deriveIdentities request.source durableOwner).mapError fun error =>
      .message ("cannot derive delta compatibility: " ++ error))
  rememberPendingTransition env candidate.pathAlias durableOwner delta candidate.sourceHash
    { semanticEdges := candidate.semanticEdges, sourceHash := candidate.sourceHash
      fidelity := request.fidelity } compatibility
  pure delta

def checkpointBaseline (request : DeltaRequest) (prevCompiled : CompiledIR)
    (previousHash : String) : DeltaM Unit :=
  if readCheckpointRequired env request.fidelity then
    ensurePersistedBaseline env (env.durableOwnerPath request.resolvedPath) request.fidelity
      prevCompiled previousHash request.source
  else pure ()

/-- Where nothing changed, the live context is taken to be one of the new text. -/
def publishTransition (request : DeltaRequest) (candidate : DeltaCandidate)
    (prevCompiled : CompiledIR) : DeltaM (Option SequenceDelta) := do
  match ← Method.ofLocal (Fallible.ofRust
      (SequenceDeltaComputer.compute prevCompiled candidate.compiled)) with
  | some delta => some <$> rememberDelta env request candidate delta
  | none =>
      modify fun state => { state with
        irContext := state.irContext.setSourceHash candidate.pathAlias candidate.sourceHash }
      pure none

def publishBaseline (request : DeltaRequest) (candidate : DeltaCandidate) : DeltaM CompiledIR := do
  let owner := env.semanticOwnerPath request.resolvedPath
  let edges := candidate.semanticEdges
  if readCheckpointRequired env request.fidelity then
    persistBaseline env (env.durableOwnerPath request.resolvedPath) request.fidelity
      candidate.compiled candidate.sourceHash edges request.source
  let (_, committedAlias) := (← get).getOrCreateAlias env owner
  let compiled := { candidate.compiled with fileId := committedAlias }
  modify fun state => (state.getOrCreateAlias env owner).1
  modify fun state => { state with
    irContext := state.irContext.loadIr compiled (some candidate.sourceHash) }
  modify (McpState.rememberContextFidelity committedAlias request.fidelity)
  modify fun state => { state with
    workspaceIndex := (state.workspaceIndex.removeFile owner).addEdges owner edges
    semanticEdgeSnapshots := state.semanticEdgeSnapshots.insert committedAlias edges }
  if (← get).persistenceStore.isSome then
    modify (McpState.rememberPersistedPath env committedAlias request.resolvedPath)
  pure compiled

/-- The `publish` closure of the commit; nothing if the authority is another one by now. -/
def publishDelta (request : DeltaRequest) (candidate : DeltaCandidate) :
    DeltaM (Option (Option SequenceDelta × CompiledIR)) := do
  if authorityIsCurrent env request candidate (← get) then
    match candidate.previousAuthority with
    | some (instructions, previousHash) =>
        let prevCompiled ← ofResult
          (compiledFromTuples candidate.pathAlias candidate.prevVersion instructions)
        checkpointBaseline env request prevCompiled (previousHash.getD candidate.sourceHash)
        let delta ← publishTransition env request candidate prevCompiled
        pure (some (delta, candidate.compiled))
    | none => do
        let compiled ← publishBaseline env request candidate
        pure (some (none, compiled))
  else pure none

def commitDelta (request : DeltaRequest) (candidate : DeltaCandidate) (newest : Bool) :
    DeltaM DeltaResponse := do
  let superseded : DeltaFailure := .message ("Delta authority was superseded by a newer " ++
    "same-file source snapshot; retry the request")
  if newest then
    match ← publishDelta env request candidate with
    | none => throw superseded
    | some (some delta, _) => pure (.delta delta)
    | some (none, compiled) =>
        let _ ← checkedHierarchy compiled
        let version := if candidate.prevVersion = 0 then compiled.version else candidate.prevVersion
        pure (.full version compiled)
  else throw superseded

/-- The request reads `started`, and commits in `ready`. -/
def handleDeltaCodeContext (request : DeltaRequest) (newest : Bool) (started ready : McpState) :
    Rust (Except DeltaFailure DeltaResponse × McpState) :=
  match (prepareDelta env request).call started with
  | .error panic => .error panic
  | .ok (.error error, _) => .ok (.error error, ready)
  | .ok (.ok (.cached version compiled), _) => .ok (.ok (.cached version compiled), ready)
  | .ok (.ok (.candidate candidate), _) => (commitDelta env request candidate newest).call ready

end Generation

end Mcp
end CleanCtx
