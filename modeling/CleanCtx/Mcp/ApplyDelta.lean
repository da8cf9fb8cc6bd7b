import CleanCtx.Mcp.DeltaGeneration

/-!
The application of a delta (`handle_apply_delta` of `mcp/tool_handlers/core/delta_apply.rs`),
after its recovery preflight. A delta with edits needs the transition that was remembered
when it was generated, and is stored with the semantic edges of its target. The source of
a file and the text that is stored with a delta are parameters; the text of the answer is
left out.
-/
namespace CleanCtx

open Edit

def SemanticFidelity.fromCompilation : Fidelity → Option SemanticFidelity
  | .low => some .low
  | .medium => some .medium
  | .high => some .high
  | .edit | .verbatim => none

namespace Sqlite.PersistedDelta

def normalized (filePath : String) : PersistedDelta → PersistedDelta
  | sequence delta => sequence { delta with file := filePath }
  | legacy delta => legacy { delta with file := filePath }

def call (state : ContextState) : PersistedDelta → Rust (Except DeltaError UInt64 × ContextState)
  | sequence delta => (ContextState.applySequence delta).call state
  | legacy delta => (ContextState.apply delta).call state

def editType : PersistedDelta → String
  | sequence _ => "sequence_v2"
  | legacy _ => "legacy"

def Mutating : PersistedDelta → Prop
  | sequence delta => delta.edits ≠ []
  | legacy delta => delta.ops.adds ≠ [] ∨ delta.ops.mods ≠ [] ∨ delta.ops.dels ≠ []

instance : DecidablePred Mutating
  | sequence delta => inferInstanceAs (Decidable (delta.edits ≠ []))
  | legacy delta =>
      inferInstanceAs (Decidable (delta.ops.adds ≠ [] ∨ delta.ops.mods ≠ [] ∨ delta.ops.dels ≠ []))

end Sqlite.PersistedDelta

namespace Mcp

open Sqlite

structure ApplyEnv extends DeltaEnv where
  readSource : String → Except String String
  /-- By durable file, fidelity, target and its edges. -/
  renderFileContext : String → Fidelity → CompiledIR → List SemanticEdge → String

/-- A delta comes in one of the two protocols in which it is stored. -/
structure ApplyRequest where
  delta : PersistedDelta
  currentVersion : Option Int

namespace McpState

variable (state : McpState)

def durableFile (name : String) : String :=
  ((state.persistedPaths.lookup name).or (state.dict.pathForAlias name)).getD name

def pendingTransition (env : DeltaEnv) (name durableFile : String) (delta : SequenceDelta) :
    Except DeltaFailure PendingSemanticTransition :=
  match state.pendingSemanticTransitions.lookup
      { name, fromVersion := delta.fromVersion, toVersion := delta.toVersion } with
  | none => .error (.message "missing authoritative semantic-edge snapshot for delta")
  | some transition =>
      if transition.durableFile ≠ durableFile then
        .error (.message "pending semantic-edge snapshot has wrong file identity")
      else if delta.targetHash ≠ some transition.targetSourceHash then
        .error (.message "pending semantic-edge snapshot has wrong target hash")
      else if transition.deltaIdentity ≠ env.sequenceDeltaIdentity delta then
        .error (.message "pending semantic-edge snapshot does not match delta transition")
      else .ok transition

def consumePendingTransition (name : String) (fromVersion toVersion : UInt64) : McpState :=
  { state with pendingSemanticTransitions :=
      state.pendingSemanticTransitions.erase { name, fromVersion, toVersion } }

def publishCompatibleSemanticProjection (env : DeltaEnv) (name filePath : String)
    (projection : CompatibleSemanticProjection) : McpState :=
  let canonicalPath := env.semanticOwnerPath filePath
  { state with
    semanticEdgeSnapshots := state.semanticEdgeSnapshots.insert name projection.semanticEdges
    workspaceIndex :=
      match SemanticFidelity.fromCompilation projection.fidelity with
      | some fidelity => state.workspaceIndex.replaceSemanticProjection canonicalPath
          projection.semanticEdges fidelity projection.sourceHash
      | none => (state.workspaceIndex.removeFile canonicalPath).addEdges canonicalPath
          projection.semanticEdges }

end McpState

section Application

variable (env : ApplyEnv)

/-- The identities of the target, or those of the source as it stands. -/
def baselineIdentities (filePath unread underived : String) :
    Option CompatibilityIdentities → Except DeltaFailure CompatibilityIdentities
  | some identities => .ok identities
  | none =>
      match env.readSource filePath with
      | .error error => .error (.message (unread ++ ": " ++ error))
      | .ok source => (env.deriveIdentities source filePath).mapError fun error =>
          .message (underived ++ ": " ++ error)

def persistBaselineWithIdentities (filePath : String) (fidelity : Fidelity)
    (compiled : CompiledIR) (sourceHash : String) (semanticEdges : List SemanticEdge)
    (identities : CompatibilityIdentities) : DeltaM Unit := do
  let binary ← Method.ofLocal (Fallible.ofRust (Binary.encode { compiled with fileId := filePath }))
  match (← get).persistenceStore with
  | none => pure ()
  | some store =>
      match store.saveContextTransaction env.shortPathHash env.now filePath fidelity "" binary
          sourceHash compiled.version semanticEdges 0 0 (some identities) with
      | .error _ =>
          throw (.message "canonical baseline and semantic edges were not persisted atomically")
      | .ok (saved, _) => modify fun state => { state with persistenceStore := some saved }

/-- `ensure_persisted_baseline_with_identities`, with a store. -/
def ensurePersistedBaselineWithIdentities (store : SqliteStore) (filePath : String)
    (fidelity : Fidelity) (compiled : CompiledIR) (sourceHash : String)
    (targetIdentities : Option CompatibilityIdentities) : DeltaM Unit := do
  match store.latestRow filePath with
  | none =>
      match (← get).semanticEdgeSnapshots.lookup compiled.fileId with
      | none => throw (.message "missing authoritative semantic-edge baseline")
      | some semanticEdges =>
          let identities ← ofResult (baselineIdentities env filePath
            "cannot derive durable compatibility" "compatibility identity derivation failed"
            targetIdentities)
          persistBaselineWithIdentities env filePath fidelity compiled sourceHash semanticEdges
            identities
          modify (McpState.rememberPersistedPath env.toDeltaEnv compiled.fileId filePath)
  | some _ =>
      match ← Method.ofLocal ((store.loadDurableContext filePath none).adapt .invalidBaseline) with
      | none => throw (.message "Missing durable baseline owner")
      | some durable =>
          if durable.ir.fileId ≠ filePath ∨ durable.ir.version ≠ compiled.version ∨
              durable.sourceHash ≠ sourceHash then
            throw (.message "Durable baseline does not match session canonical state")
          else do
            let current ← ofResult (baselineIdentities env filePath
              "cannot validate durable compatibility" "cannot derive durable compatibility"
              targetIdentities)
            ofResult ((validateCanonical durable current).mapError .compatibility)

def ensureApplyBaseline (name filePath : String) (fidelity : Fidelity)
    (targetIdentities : Option CompatibilityIdentities) : DeltaM Unit := do
  let state ← get
  match state.persistenceStore with
  | none => pure ()
  | some store =>
      match state.irContext.getIr name, state.irContext.fileVersion name,
          state.irContext.getSourceHash name with
      | none, _, _ => throw (.message "missing canonical baseline for delta application")
      | some _, none, _ => throw (.message "missing canonical baseline version")
      | some _, some _, none => throw (.message "missing canonical baseline source hash")
      | some instructions, some version, some sourceHash => do
          let compiled ← ofResult (compiledFromTuples name version instructions)
          ensurePersistedBaselineWithIdentities env store filePath fidelity compiled sourceHash
            targetIdentities

def persistedContextId (filePath : String) : DeltaM (Option String) := do
  match (← get).persistenceStore with
  | none => pure none
  | some store =>
      match store.latestRow filePath with
      | none => throw (.message ("No persisted baseline for delta file: " ++ filePath))
      | some row => pure (some row.id)

def transitionFor (delta : PersistedDelta) (durableFile : String) (state : McpState) :
    Except DeltaFailure (Option PendingSemanticTransition) :=
  if delta.Mutating then
    match delta with
    | .sequence delta =>
        (state.pendingTransition env.toDeltaEnv delta.file durableFile delta).map some
    | .legacy _ => .error (.message
        "mutating legacy delta application lacks authoritative semantic-edge state")
  else .ok none

def applied (delta : PersistedDelta) (state : ContextState) : DeltaM (UInt64 × ContextState) :=
  match delta.call state with
  | .error panic => Method.ofLocal (Fallible.ofRust (.error panic))
  | .ok (.error error, _) => throw (.rejected error)
  | .ok (.ok version, candidate) => pure (version, candidate)

def persistApplied (delta : PersistedDelta) (durableFile : String)
    (transition : Option PendingSemanticTransition) (contextId : Option String)
    (compact sourceHash : String) (version : UInt64) : DeltaM Unit := do
  match transition, contextId, (← get).persistenceStore with
  | some transition, some contextId, some store =>
      match store.appendDeltaWithSemantics env.now contextId (delta.normalized durableFile)
          delta.editType compact
          { filePath := durableFile, sourceHash, version, edges := transition.semantic.semanticEdges }
          transition.compatibility with
      | .error _ =>
          throw (.message "canonical delta and semantic edges were not persisted atomically")
      | .ok store => modify fun state => { state with persistenceStore := some store }
  | some _, none, some _ =>
      throw (.message "canonical delta and semantic edges were not persisted atomically")
  | none, some contextId, some store =>
      match store.appendDelta env.now contextId (delta.normalized durableFile)
          (some delta.editType) with
      | .error _ =>
          throw (.message "accepted delta was not persisted by its scoped transaction")
      | .ok store => modify fun state => { state with persistenceStore := some store }
  | _, _, _ => pure ()

def targetHash (name : String) (transition : Option PendingSemanticTransition)
    (candidate : ContextState) (version : UInt64) : String :=
  ((transition.map (·.targetSourceHash)).or (candidate.getSourceHash name)).getD
    ("ir-" ++ name ++ "-" ++ toString version)

/-- The closure that runs while the publication clock of the file is held. -/
def commitApplied (delta : PersistedDelta) (durableFile : String) (fidelity : Fidelity)
    (transition : Option PendingSemanticTransition) (contextId : Option String) :
    DeltaM (UInt64 × CompiledIR) := do
  if transition.any (·.retired) then
    throw (.message "pending semantic transition was retired by workspace refresh")
  let state ← get
  let name := delta.file
  let (version, candidate) ← applied delta state.irContext
  let sourceHash := targetHash name transition candidate version
  let candidate := candidate.setSourceHash name sourceHash
  match candidate.getIr name with
  | none => throw (.message "applied delta lost canonical target state")
  | some tuples => do
      let target ← ofResult (compiledFromTuples name version tuples)
      let _ ← checkedHierarchy target
      let edges := ((transition.map (·.semantic.semanticEdges)).or
        (state.semanticEdgeSnapshots.lookup name)).getD []
      persistApplied env delta durableFile transition contextId
        (env.renderFileContext durableFile fidelity target edges) sourceHash version
      modify fun state => { state with irContext := candidate }
      match transition with
      | none => pure (version, target)
      | some transition => do
          modify fun state => state.publishCompatibleSemanticProjection env.toDeltaEnv name
            durableFile transition.semantic
          modify fun state => state.consumePendingTransition name delta.fromVersion version
          pure (version, target)

def handleApplyDelta (request : ApplyRequest) : DeltaM (UInt64 × CompiledIR) := do
  let delta := request.delta
  if request.currentVersion ≠ some (asI64 delta.fromVersion) then
    throw (.message ("Version mismatch: client has v" ++
      (match request.currentVersion with
        | none => "None"
        | some version => "Some(" ++ toString version ++ ")") ++
      ", delta expects from v" ++ toString delta.fromVersion))
  let state ← get
  let durableFile := state.durableFile delta.file
  match state.contextFidelities.lookup delta.file with
  | none => throw (.message "missing authoritative fidelity for delta application")
  | some fidelity => do
      let transition ← ofResult (transitionFor env delta durableFile state)
      ensureApplyBaseline env delta.file durableFile fidelity (transition.map (·.compatibility))
      let contextId ← persistedContextId durableFile
      commitApplied env delta durableFile fidelity transition contextId

end Application

end Mcp
end CleanCtx
