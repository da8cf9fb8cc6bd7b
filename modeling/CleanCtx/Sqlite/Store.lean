import CleanCtx.Edit.Intent
import CleanCtx.Ir.ReplayTransaction
import Mathlib.Data.List.Sort

/-!
The durable store (`mcp/sqlite_store.rs`, with `semantic_state.rs`, `replay.rs` and
`deletion.rs`). A table is the list of its rows in the order of their insertion. The
JSON columns hold what the code writes into them: a stored record stands for its text,
and no text fails to parse. A transaction that fails, at a statement of its own or at
one the database refuses, leaves the tables as they were. The hash of a path is a
parameter, and so is the time that stands for `datetime('now')`.
-/
namespace CleanCtx
namespace Sqlite

open Edit

inductive PersistedDelta
  | sequence (delta : SequenceDelta)
  | legacy (delta : IRDelta)
  deriving DecidableEq

structure ContextRow where
  id : String
  filePath : String
  contentHash : String
  sourceHash : String
  fidelity : Fidelity
  irBinary : List UInt8
  prettyText : String
  updatedAt : Nat
  rawTokens : UInt64
  compressedTokens : UInt64
  canonicalConfig : Option String
  canonicalProducers : Option String
  deriving DecidableEq

structure DeltaRow where
  contextId : String
  editSequence : Nat
  payload : PersistedDelta
  editType : Option String
  appliedAt : Nat
  deriving DecidableEq

structure SnapshotRow where
  contextId : String
  filePath : String
  sourceHash : String
  semanticVersion : Int
  snapshot : DurableSemanticSnapshot
  semanticConfig : Option String
  semanticProducers : Option String
  deriving DecidableEq

structure SqliteStore where
  contexts : List ContextRow
  deltas : List DeltaRow
  snapshots : List SnapshotRow
  /-- The file and the staged path of each edit intent. -/
  editIntents : List (String × String)
  deriving DecidableEq

/-- `version as i64`. -/
def asI64 (version : UInt64) : Int :=
  if version.toNat < 2 ^ 63 then version.toNat else (version.toNat : Int) - 2 ^ 64

inductive StoreError
  | statement (message : String)
  | unknownContext (contextId : String)
  | fileMismatch (expected found : String)
  deriving DecidableEq

namespace SqliteStore

def empty : SqliteStore := { contexts := [], deltas := [], snapshots := [], editIntents := [] }

section Statements

/-- `SELECT .. WHERE file_path = ?1 ORDER BY updated_at DESC LIMIT 1`. -/
def latestRow (store : SqliteStore) (filePath : String) : Option ContextRow :=
  ((store.contexts.filter (·.filePath = filePath)).insertionSort
    fun a b => b.updatedAt ≤ a.updatedAt).head?

def rowById (store : SqliteStore) (contextId : String) : Option ContextRow :=
  store.contexts.find? (·.id = contextId)

/-- `DELETE FROM contexts WHERE file_path = ?1`, with the rows that go by cascade. -/
def deleteContexts (store : SqliteStore) (filePath : String) : SqliteStore :=
  let gone := (store.contexts.filter (·.filePath = filePath)).map (·.id)
  { store with
    contexts := store.contexts.filter (·.filePath ≠ filePath)
    deltas := store.deltas.filter (·.contextId ∉ gone)
    snapshots := store.snapshots.filter (·.contextId ∉ gone) }

/-- `INSERT INTO contexts`: the id is the primary key, the content hash is unique. -/
def insertContext (store : SqliteStore) (row : ContextRow) : Except StoreError SqliteStore :=
  if store.contexts.any (·.id = row.id) then
    .error (.statement "UNIQUE constraint failed: contexts.id")
  else if store.contexts.any (·.contentHash = row.contentHash) then
    .error (.statement "UNIQUE constraint failed: contexts.content_hash")
  else .ok { store with contexts := store.contexts ++ [row] }

/-- `UPDATE contexts SET .. WHERE id = ?`. -/
def updateContext (store : SqliteStore) (contextId : String) (f : ContextRow → ContextRow) :
    SqliteStore :=
  { store with contexts := store.contexts.map fun row => if row.id = contextId then f row else row }

/-- `write_semantic_snapshot`: the context and the version are the primary key. -/
def writeSemanticSnapshot (store : SqliteStore) (contextId : String)
    (snapshot : DurableSemanticSnapshot) (identities : Option CompatibilityIdentities) :
    SqliteStore :=
  { store with
    snapshots := (store.snapshots.filter fun row =>
        ¬(row.contextId = contextId ∧ row.semanticVersion = asI64 snapshot.version)) ++
      [{ contextId
         filePath := snapshot.filePath
         sourceHash := snapshot.sourceHash
         semanticVersion := asI64 snapshot.version
         snapshot
         semanticConfig := identities.map (·.semanticConfig)
         semanticProducers := identities.map (·.semanticProducers) }] }

/-- `COALESCE(MAX(edit_sequence), 0) + 1`; a value that is no `i32` is an error, and then it is one. -/
def nextSequence (store : SqliteStore) (contextId : String) : Nat :=
  let next := ((store.deltas.filter (·.contextId = contextId)).map (·.editSequence)).foldl max 0 + 1
  if next < 2 ^ 31 then next else 1

end Statements

section Operations

variable (shortPathHash : String → String)

/-- `ContextStore::save_context`. The id is checked against the rows before the file's own go. -/
def saveContext (now : Nat) (filePath : String) (fidelity : Fidelity) (compressedOutput : String)
    (irBinary : List UInt8) (sourceHash : String) (rawTokens compressedTokens : UInt64)
    (store : SqliteStore) : Except StoreError (SqliteStore × String) := do
  let preferredId := "ctx-" ++ sourceHash
  let collides := (store.rowById preferredId).any (·.filePath ≠ filePath)
  let id := if collides then preferredId ++ "-" ++ shortPathHash filePath else preferredId
  let store ← (store.deleteContexts filePath).insertContext
    { id, filePath, sourceHash, fidelity, irBinary, rawTokens, compressedTokens
      contentHash := sourceHash ++ ":" ++ shortPathHash filePath
      prettyText := compressedOutput
      updatedAt := now
      canonicalConfig := none
      canonicalProducers := none }
  pure (store, id)

/-- The body of `save_context_transaction`. -/
def saveContextTransaction (now : Nat) (filePath : String) (fidelity : Fidelity)
    (compactOutput : String) (irBinary : List UInt8) (sourceHash : String) (version : UInt64)
    (semanticEdges : List SemanticEdge) (rawTokens compressedTokens : UInt64)
    (identities : Option CompatibilityIdentities) (store : SqliteStore) :
    Except StoreError (SqliteStore × String) := do
  let (store, contextId) ← saveContext shortPathHash now filePath fidelity compactOutput irBinary
    sourceHash rawTokens compressedTokens store
  let snapshot : DurableSemanticSnapshot := { filePath, sourceHash, version, edges := semanticEdges }
  let store :=
    match identities with
    | some identities => store.updateContext contextId fun row =>
        { row with
          canonicalConfig := some identities.canonicalConfig
          canonicalProducers := some identities.canonicalProducers }
    | none => store
  pure (store.writeSemanticSnapshot contextId snapshot identities, contextId)

/-- `ContextStore::append_delta`. -/
def appendDelta (now : Nat) (contextId : String) (payload : PersistedDelta)
    (editType : Option String) (store : SqliteStore) : Except StoreError SqliteStore :=
  match store.rowById contextId with
  | none => .error (.unknownContext contextId)
  | some _ =>
      let row : DeltaRow :=
        { contextId, editSequence := store.nextSequence contextId, payload, editType
          appliedAt := now }
      .ok ({ store with deltas := store.deltas ++ [row] }.updateContext contextId
        fun row => { row with updatedAt := now })

/-- The body of `append_delta_with_semantics`. -/
def appendDeltaWithSemantics (now : Nat) (contextId : String) (payload : PersistedDelta)
    (editType compactOutput : String) (snapshot : DurableSemanticSnapshot)
    (identities : CompatibilityIdentities) (store : SqliteStore) : Except StoreError SqliteStore := do
  match store.rowById contextId with
  | none => .error (.unknownContext contextId)
  | some persisted =>
      if persisted.filePath ≠ snapshot.filePath then
        .error (.fileMismatch persisted.filePath snapshot.filePath)
      else do
        let store ← appendDelta now contextId payload (some editType) store
        let store := store.updateContext contextId fun row =>
          { row with sourceHash := snapshot.sourceHash, prettyText := compactOutput }
        pure (store.writeSemanticSnapshot contextId snapshot (some identities))

/-- What was deleted, and the staged file of an edit that was under way. -/
structure DeletedContext where
  count : Nat
  recoveryStage : Option String
  deriving DecidableEq

/-- The body of `delete_context_transactionally`: only a single owner is deleted. -/
def deleteContext (filePath : String) (store : SqliteStore) : SqliteStore × DeletedContext :=
  let count := (store.contexts.filter (·.filePath = filePath)).length
  if count ≠ 1 then (store, { count, recoveryStage := none })
  else
    ({ store.deleteContexts filePath with
        editIntents := store.editIntents.filter (·.1 ≠ filePath) },
      { count, recoveryStage := store.editIntents.lookup filePath })

end Operations

section Loading

inductive LoadFailure
  | decode (error : Binary.BinaryDecodeError)
  | replay (error : DeltaError)
  | edges (error : RecoveryError)
  | message (text : String)
  deriving DecidableEq

/-- A structurally decoded context that nothing vouches for yet. -/
structure UntrustedDurableContext where
  ir : CompiledIR
  semanticEdges : List SemanticEdge
  sourceHash : String
  fidelity : Fidelity
  compatibility : PersistedCompatibilityIdentities
  deriving DecidableEq

/-- One delta replayed, by the protocol it was written in. -/
def replayDelta (state : ContextState) (delta : PersistedDelta) : Fallible LoadFailure ContextState :=
  let outcome :=
    match delta with
    | .sequence delta => (ContextState.applySequence delta).call state
    | .legacy delta => (ContextState.apply delta).call state
  match outcome with
  | .error panic => ExceptT.mk (.error panic)
  | .ok (.error error, _) => throw (.replay error)
  | .ok (.ok _, state) => pure state

def decodeTuples (tuples : List Tuple) : Fallible LoadFailure (List CoreOp) :=
  match tuples.mapM tupleToOp with
  | some ops => pure ops
  | none => throw (.message "invalid replayed canonical tuple")

/-- The deltas of a context in the order of their sequence numbers, up to a target. -/
def deltasUpTo (store : SqliteStore) (contextId : String) (target : Option UInt32) : List DeltaRow :=
  (store.deltas.filter fun row => row.contextId = contextId ∧
    row.editSequence ≤ (target.getD (.ofNat (2 ^ 32 - 1))).toNat).insertionSort
      fun a b => a.editSequence ≤ b.editSequence

def loadContextWithDeltas (store : SqliteStore) (filePath : String) (target : Option UInt32) :
    Fallible LoadFailure (Option (CompiledIR × UInt32)) :=
  match store.latestRow filePath with
  | none => pure none
  | some row =>
      match Binary.decode row.irBinary with
      | .error error => throw (.decode error)
      | .ok ir => do
          if ir.fileId ≠ filePath then
            throw (.message ("persisted binary file identity mismatch: expected " ++ filePath ++
              ", found " ++ ir.fileId))
          let state ← ((store.deltasUpTo row.id target).map (·.payload)).foldlM replayDelta
            (ContextState.new.loadIr ir none)
          let instructions ← decodeTuples ((state.getIr filePath).getD [])
          let version := ((state.files.lookup filePath).map (·.version)).getD 1
          pure (some ({ fileId := filePath, instructions, version }, version.toUInt32))

/-- `COALESCE(NULLIF(c.source_hash, ''), c.content_hash)`. -/
def ContextRow.metadataHash (row : ContextRow) : String :=
  if row.sourceHash = "" then row.contentHash else row.sourceHash

/-- The checks of the snapshot row that was found for a replayed IR. The record was parsed from its
column, and the compatibility identities are the texts that their columns were written with. -/
def admitSnapshot (filePath : String) (row : ContextRow) (target : Option UInt32) (ir : CompiledIR)
    (stored : SnapshotRow) : Except LoadFailure UntrustedDurableContext :=
  if stored.filePath ≠ filePath ∨ stored.snapshot.filePath ≠ filePath then
    .error (.message "semantic-edge snapshot file identity mismatch")
  else if stored.sourceHash ≠ stored.snapshot.sourceHash then
    .error (.message "canonical and semantic-edge source hashes do not match")
  else if target.isNone ∧ stored.snapshot.sourceHash ≠ ContextRow.metadataHash row then
    .error (.message "latest canonical and semantic-edge source hashes do not match")
  else if stored.semanticVersion < 0 ∨ stored.semanticVersion.toNat ≠ ir.version.toNat ∨
      stored.snapshot.version ≠ ir.version then
    .error (.message ("canonical and semantic-edge versions do not match: IR v" ++
      toString ir.version ++ ", edges v" ++ toString stored.snapshot.version))
  else do
    let semanticEdges ← stored.snapshot.restoreEdges.mapError .edges
    pure
      { ir, semanticEdges
        sourceHash := stored.snapshot.sourceHash
        fidelity := row.fidelity
        compatibility :=
          { canonicalConfig := row.canonicalConfig
            canonicalProducers := row.canonicalProducers
            semanticConfig := stored.semanticConfig
            semanticProducers := stored.semanticProducers } }

/-- Loading from columns that the code wrote: payloads, snapshots and identities parse. -/
def loadDurableContext (store : SqliteStore) (filePath : String) (target : Option UInt32) :
    Fallible LoadFailure (Option UntrustedDurableContext) :=
  match store.latestRow filePath with
  | none => pure none
  | some row => do
      match ← store.loadContextWithDeltas filePath target with
      | none => throw (.message ("missing canonical IR for " ++ filePath))
      | some (ir, _) =>
          match store.snapshots.find? fun snapshot =>
              snapshot.contextId = row.id ∧ snapshot.semanticVersion = asI64 ir.version with
          | none => throw (.message ("missing semantic-edge snapshot for " ++ filePath))
          | some stored => do
              let context ← Fallible.ofExcept (admitSnapshot filePath row target ir stored)
              pure (some context)

end Loading

end SqliteStore
end Sqlite
end CleanCtx
