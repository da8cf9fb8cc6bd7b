import CleanCtx.Ir.Accessors
import CleanCtx.Ir.BinaryRoundTrip
import CleanCtx.Ir.Hierarchical
import CleanCtx.Library.CrashLogic
import CleanCtx.Workspace.Index

/-!
The commit of a structural edit and its recovery (`mcp/tool_handlers/edit.rs`,
`mcp/sqlite_store/edit_intent.rs` and `semantic_state.rs`, with the snapshots of
`mcp/durable_semantics.rs`). The durable state is that of one file: its bytes, its
context row and its intent row. A statement, a transaction and a rename are one
write each; the stored JSON of a record is the record.
-/
namespace CleanCtx
namespace Edit

inductive Fidelity
  | low | medium | high | edit | verbatim
  deriving DecidableEq

structure CompatibilityIdentities where
  canonicalConfig : String
  canonicalProducers : String
  semanticConfig : String
  semanticProducers : String
  deriving DecidableEq

structure PersistedCompatibilityIdentities where
  canonicalConfig : Option String
  canonicalProducers : Option String
  semanticConfig : Option String
  semanticProducers : Option String
  deriving DecidableEq

structure DurableSemanticSnapshot where
  filePath : String
  sourceHash : String
  version : UInt64
  edges : List SemanticEdge
  deriving DecidableEq

structure EditIntent where
  transitionId : String
  filePath : String
  priorHash : String
  targetHash : String
  priorVersion : UInt64
  targetVersion : UInt64
  priorSource : List UInt8
  targetSource : List UInt8
  targetIr : List UInt8
  targetEdges : List SemanticEdge
  fidelity : Fidelity
  stagePath : String
  deriving DecidableEq

structure StoredIntent where
  intent : EditIntent
  edges : DurableSemanticSnapshot
  compatibility : PersistedCompatibilityIdentities
  deriving DecidableEq

/-- The context row of a file with its semantic snapshot. -/
structure DurableContext where
  filePath : String
  fidelity : Fidelity
  compactOutput : String
  irBinary : List UInt8
  sourceHash : String
  rawTokens : UInt64
  compressedTokens : UInt64
  snapshot : DurableSemanticSnapshot
  identities : Option CompatibilityIdentities
  deriving DecidableEq

/-- What survives a crash, for one file. -/
structure Store where
  source : List UInt8
  context : Option DurableContext
  intent : Option StoredIntent
  deriving DecidableEq

inductive EditRecovery
  | none | priorRestored | targetCommitted
  deriving DecidableEq

inductive RecoveryError
  | message (text : String)
  | decode (error : Binary.BinaryDecodeError)
  deriving DecidableEq

section Statements

/-- `INSERT INTO edit_intents`, whose primary key is the file. -/
def insertEditIntent (intent : EditIntent) (identities : Option CompatibilityIdentities) :
    Durable Store (Except String Unit) :=
  Durable.write fun store =>
    match store.intent with
    | some _ => (store, .error "UNIQUE constraint failed: edit_intents.file_path")
    | none =>
        let snapshot : DurableSemanticSnapshot :=
          { filePath := intent.filePath
            sourceHash := intent.targetHash
            version := intent.targetVersion
            edges := intent.targetEdges }
        let row : StoredIntent :=
          { intent := { intent with targetEdges := [] }
            edges := snapshot
            compatibility :=
              { canonicalConfig := identities.map (·.canonicalConfig)
                canonicalProducers := identities.map (·.canonicalProducers)
                semanticConfig := identities.map (·.semanticConfig)
                semanticProducers := identities.map (·.semanticProducers) } }
        ({ store with intent := some row }, .ok ())

/-- `DELETE FROM edit_intents`; one row must go. -/
def clearEditIntent (transitionId : String) : Durable Store (Except RecoveryError Unit) :=
  Durable.write fun store =>
    if store.intent.any fun stored => stored.intent.transitionId = transitionId then
      ({ store with intent := none }, .ok ())
    else (store, .error (.message "edit intent ownership changed unexpectedly"))

/-- `save_context_transaction`: the rows of the file are replaced by the new ones. -/
def saveContext (filePath : String) (fidelity : Fidelity) (compactOutput : String)
    (irBinary : List UInt8) (sourceHash : String) (version : UInt64) (edges : List SemanticEdge)
    (rawTokens compressedTokens : UInt64) (identities : Option CompatibilityIdentities) :
    Durable Store Unit :=
  Durable.write fun store =>
    let row : DurableContext :=
      { filePath, fidelity, compactOutput, irBinary, sourceHash, rawTokens, compressedTokens
        snapshot := { filePath, sourceHash, version, edges }
        identities }
    ({ store with context := some row }, ())

def replaceSource (bytes : List UInt8) : Durable Store Unit :=
  Durable.write fun store => ({ store with source := bytes }, ())

end Statements

section Recovery

def validateRelationEvidence (relation : SemanticRelation) (evidence : Option CallEvidence) :
    Except RecoveryError Unit :=
  match decide (relation = .calls), evidence with
  | true, none => .error (.message "durable Calls edge is missing call evidence")
  | true, some _ | false, none => .ok ()
  | false, some _ => .error (.message "durable non-Calls edge carries call evidence")

def DurableSemanticSnapshot.restoreEdges (snapshot : DurableSemanticSnapshot) :
    Except RecoveryError (List SemanticEdge) :=
  snapshot.edges.mapM fun edge => do
    validateRelationEvidence edge.relation edge.callEvidence
    pure edge

def completeIdentities (value : PersistedCompatibilityIdentities) :
    Except RecoveryError (Option CompatibilityIdentities) :=
  match value.canonicalConfig, value.canonicalProducers, value.semanticConfig,
      value.semanticProducers with
  | none, none, none, none => .ok none
  | some canonicalConfig, some canonicalProducers, some semanticConfig, some semanticProducers =>
      .ok (some { canonicalConfig, canonicalProducers, semanticConfig, semanticProducers })
  | _, _, _, _ => .error (.message "edit intent has a partial compatibility envelope")

/-- The checks of a stored intent before its target is committed. -/
def restoreTarget (filePath : String) (stored : StoredIntent) :
    Except RecoveryError (List SemanticEdge × Option CompatibilityIdentities) := do
  let targetIr ← (Binary.decode stored.intent.targetIr).mapError .decode
  if targetIr.fileId ≠ filePath ∨ targetIr.version ≠ stored.intent.targetVersion then
    .error (.message "edit intent target IR identity/version mismatch")
  else if stored.edges.filePath ≠ filePath ∨ stored.edges.sourceHash ≠ stored.intent.targetHash ∨
      stored.edges.version ≠ stored.intent.targetVersion then
    .error (.message "edit intent semantic snapshot identity mismatch")
  else do
    let edges ← stored.edges.restoreEdges
    let identities ← completeIdentities stored.compatibility
    pure (edges, identities)

variable (hash : List UInt8 → String)

def settle (transitionId : String) (answer : EditRecovery) :
    Durable Store (Except RecoveryError EditRecovery) := do
  let cleared ← clearEditIntent transitionId
  pure (cleared.map fun _ => answer)

/-- The recovery of a stored intent: the bytes of the file tell how far the edit came. -/
def recoverStored (filePath : String) (actual : List UInt8) (stored : StoredIntent) :
    Durable Store (Except RecoveryError EditRecovery) :=
  let intent := stored.intent
  let actualHash := hash actual
  if actualHash = intent.priorHash ∧ actual = intent.priorSource then
    settle intent.transitionId .priorRestored
  else if actualHash ≠ intent.targetHash ∨ actual ≠ intent.targetSource then
    pure (.error (.message ("irreconcilable edit recovery mismatch for " ++ filePath ++
      ": prior=" ++ intent.priorHash ++ ", target=" ++ intent.targetHash ++ ", actual=" ++
      actualHash)))
  else
    match restoreTarget filePath stored with
    | .error error => pure (.error error)
    | .ok (edges, identities) => do
        saveContext filePath intent.fidelity "" intent.targetIr intent.targetHash
          intent.targetVersion edges 0 0 identities
        settle intent.transitionId .targetCommitted

def recoverEditIntent (filePath : String) : Durable Store (Except RecoveryError EditRecovery) := do
  let store ← Durable.read
  match store.intent with
  | none => pure (.ok .none)
  | some stored => recoverStored hash filePath store.source stored

end Recovery

/-- A compiled edit candidate. Its accessor facts come from the pattern layer, and exactly its
call edges carry call evidence. -/
structure Candidate where
  ir : CompiledIR
  semanticEdges : List SemanticEdge
  recognized : ∀ methodId facts, CoreOp.patternFacts methodId facts ∈ ir.instructions →
    ∀ fact ∈ facts, fact.Recognized
  evidenced : ∀ edge ∈ semanticEdges, edge.callEvidence.isSome = true ↔ edge.relation = .calls

structure PreparedEdit where
  filePath : String
  stagePath : String
  priorSource : List UInt8
  priorVersion : UInt64
  targetSource : List UInt8
  candidate : Candidate
  compatibility : CompatibilityIdentities
  addressable : Binary.Addressable { candidate.ir with fileId := filePath }

/-- The steps that fail, each with the text of its error. -/
structure Faults where
  stage : Option String
  identities : Option String
  establish : Option String
  persist : Option String
  commit : Option String
  clear : Option String
  restore : Option String
  compensate : Option String

inductive CommitAnswer
  | committed
  | stale
  | projectionFailed (error : IdentityError)
  | failed (message : String)
  | panicked (panic : Panic)
  deriving DecidableEq

section Commit

variable {α : Type}

/-- A step that fails leaves the durable state as it was. -/
def attempt (fault : Option String) (step : Durable Store α) : Durable Store (Except String α) :=
  match fault with
  | some error => pure (.error error)
  | none => do
      let value ← step
      pure (.ok value)

variable (hash : List UInt8 → String)

namespace PreparedEdit

def priorHash (edit : PreparedEdit) : String := hash edit.priorSource
def targetHash (edit : PreparedEdit) : String := hash edit.targetSource
def targetVersion (edit : PreparedEdit) : UInt64 := edit.candidate.ir.version
def durableIr (edit : PreparedEdit) : CompiledIR :=
  { edit.candidate.ir with fileId := edit.filePath }

/-- `edit_transition_id` -/
def transitionId (edit : PreparedEdit) : String :=
  hash (utf8 ("edit:v1:" ++ edit.filePath ++ ":" ++ edit.priorHash hash ++ ":" ++
    edit.targetHash hash ++ ":" ++ toString edit.priorVersion ++ ":" ++
    toString edit.targetVersion))

def intent (edit : PreparedEdit) (targetBinary : List UInt8) : EditIntent :=
  { transitionId := edit.transitionId hash
    filePath := edit.filePath
    priorHash := edit.priorHash hash
    targetHash := edit.targetHash hash
    priorVersion := edit.priorVersion
    targetVersion := edit.targetVersion
    priorSource := edit.priorSource
    targetSource := edit.targetSource
    targetIr := targetBinary
    targetEdges := edit.candidate.semanticEdges
    fidelity := .edit
    stagePath := edit.stagePath }

end PreparedEdit

def establishEditIntent (faults : Faults) (edit : PreparedEdit) (targetBinary : List UInt8) :
    Durable Store (Except String Unit) := do
  let inserted ← attempt faults.establish
    (insertEditIntent (edit.intent hash targetBinary) (some edit.compatibility))
  match inserted with
  | .error error => pure (.error error)
  | .ok (.error error) => pure (.error ("Cannot establish durable edit intent: " ++ error))
  | .ok (.ok ()) => pure (.ok ())

/-- `commit_edit_semantics`: after the save, a failure to clear is only a warning. -/
def commitEditSemantics (faults : Faults) (edit : PreparedEdit) (targetBinary : List UInt8) :
    Durable Store (Except String Unit) := do
  let saved ← attempt faults.commit
    (saveContext edit.filePath .edit "" targetBinary (edit.targetHash hash) edit.targetVersion
      edit.candidate.semanticEdges 0 0 (some edit.compatibility))
  match saved with
  | .error error => pure (.error error)
  | .ok () => do
      let _ ← attempt faults.clear (clearEditIntent (edit.transitionId hash))
      pure (.ok ())

def clearEditIntentBestEffort (faults : Faults) (edit : PreparedEdit) : Durable Store Unit := do
  let _ ← attempt faults.compensate (clearEditIntent (edit.transitionId hash))
  pure ()

/-- After a failed commit of the semantics: put the prior bytes back, then drop the intent. -/
def restorePrior (faults : Faults) (edit : PreparedEdit) (error : String) :
    Durable Store CommitAnswer := do
  let restored ← attempt faults.restore (replaceSource edit.priorSource)
  match restored with
  | .error recovery =>
      pure (.failed ("Durable edit commit failed (" ++ error ++ "); exact source recovery failed (" ++
        recovery ++ "); recovery intent retained"))
  | .ok () => do
      clearEditIntentBestEffort hash faults edit
      pure (.failed ("Durable edit commit failed; exact prior source restored: " ++ error))

/-- The commit section once the target bytes are staged and encoded. -/
def commitStaged (faults : Faults) (edit : PreparedEdit) (targetBinary : List UInt8) :
    Durable Store CommitAnswer := do
  let established ← establishEditIntent hash faults edit targetBinary
  match established with
  | .error error => pure (.failed error)
  | .ok () => do
      let persisted ← attempt faults.persist (replaceSource edit.targetSource)
      match persisted with
      | .error error => do
          clearEditIntentBestEffort hash faults edit
          pure (.failed ("Atomic source replacement failed: " ++ error))
      | .ok () => do
          let committed ← commitEditSemantics hash faults edit targetBinary
          match committed with
          | .error error => restorePrior hash faults edit error
          | .ok () => pure .committed

/-- The handler from its check of the candidate on. -/
def commitEdit (faults : Faults) (edit : PreparedEdit) : Durable Store CommitAnswer :=
  match ExceptT.run (tryIrToHierarchical edit.candidate.ir) with
  | .error panic => pure (.panicked panic)
  | .ok (.error error) => pure (.projectionFailed error)
  | .ok (.ok _) => do
      let store ← Durable.read
      if store.source ≠ edit.priorSource then pure .stale
      else
        match faults.stage, Binary.encode edit.durableIr, faults.identities with
        | some error, _, _ => pure (.failed error)
        | none, .error panic, _ => pure (.panicked panic)
        | none, .ok _, some error =>
            pure (.failed ("Edited compatibility identity derivation failed: " ++ error))
        | none, .ok targetBinary, none => commitStaged hash faults edit targetBinary

end Commit

end Edit
end CleanCtx
