import CleanCtx.Sqlite.Rows

/-!
The buffered store (`mcp/buffered_store.rs`). Writes wait in a queue until a flush runs them
in one transaction; a clear takes the file's operations out of the queue and its rows out of
the database at once. The database keeps, beside its tables, the list of the queued
operations that were applied to it. What the database refuses is up to each attempt, and a
refused COMMIT leaves its transaction open.
-/
namespace CleanCtx
namespace Sqlite

/-- The arguments of `save_context`; no blob is the empty one. -/
structure SavedContext where
  filePath : String
  fidelity : Edit.Fidelity
  compressedOutput : String
  irBinary : List UInt8
  sourceHash : String
  rawTokens : UInt64
  compressedTokens : UInt64
  deriving DecidableEq

inductive WriteOp
  | saveContext (context : SavedContext)
  | appendDelta (contextId : String) (payload : PersistedDelta) (editType : Option String)
  | clearFile (filePath : String)
  deriving DecidableEq

structure Database where
  tables : SqliteStore
  applied : List WriteOp
  deriving DecidableEq

structure Connection where
  committed : Database
  /-- What the statements of the open transaction see. -/
  transaction : Option Database
  deriving DecidableEq

/-- One attempt at a flush: its clock, and the statements that the database refuses. -/
structure Attempt where
  clock : Nat → Nat
  refusesBegin : Bool
  refuses : Nat → Bool
  refusesCommit : Bool

structure BufferedStore where
  inner : Connection
  innerPoisoned : Bool
  pending : List WriteOp
  pendingPoisoned : Bool
  deriving DecidableEq

inductive FlushError
  | lockPoisoned
  | beginFailed
  | saveContextFailed
  | appendDeltaFailed
  | commitFailed
  deriving DecidableEq

variable (shortPathHash : String → String)

namespace WriteOp

def apply (now : Nat) : WriteOp → SqliteStore → Except StoreError SqliteStore
  | saveContext context, store =>
      match store.saveContext shortPathHash now context.filePath context.fidelity
          context.compressedOutput context.irBinary context.sourceHash context.rawTokens
          context.compressedTokens with
      | .error error => .error error
      | .ok (store, _) => .ok store
  | appendDelta contextId payload editType, store =>
      store.appendDelta now contextId payload editType
  | clearFile filePath, store => .ok (store.deleteContexts filePath)

def applyAll (clock : Nat → Nat) : Nat → List WriteOp → SqliteStore →
    Except StoreError SqliteStore
  | _, [], store => .ok store
  | i, op :: ops, store =>
      match op.apply shortPathHash (clock i) store with
      | .error error => .error error
      | .ok store => applyAll clock (i + 1) ops store

end WriteOp

namespace Database

def write (database : Database) (op : WriteOp) (tables : SqliteStore) : Database :=
  { tables, applied := database.applied ++ [op] }

end Database

namespace Connection

def new (store : SqliteStore) : Connection :=
  { committed := { tables := store, applied := [] }, transaction := none }

def view (connection : Connection) : Database :=
  connection.transaction.getD connection.committed

/-- `SqliteStore::clear_file`, in the transaction that is open if there is one. -/
def clearFile (connection : Connection) (filePath : String) : Connection :=
  let cleared := { connection.view with
    tables := connection.view.tables.deleteContexts filePath }
  match connection.transaction with
  | some _ => { connection with transaction := some cleared }
  | none => { connection with committed := cleared }

/-- The loop of `try_flush_ops` over its operations. The result of a clear is not looked at. -/
def flushOps (attempt : Attempt) : Nat → List WriteOp → Database → Except FlushError Database
  | _, [], database => .ok database
  | i, .clearFile filePath :: ops, database =>
      flushOps attempt (i + 1) ops <|
        if attempt.refuses i then database
        else database.write (.clearFile filePath) (database.tables.deleteContexts filePath)
  | i, .saveContext context :: ops, database =>
      if attempt.refuses i then .error .saveContextFailed
      else
        match (WriteOp.saveContext context).apply shortPathHash (attempt.clock i)
            database.tables with
        | .error _ => .error .saveContextFailed
        | .ok tables =>
            flushOps attempt (i + 1) ops (database.write (.saveContext context) tables)
  | i, .appendDelta contextId payload editType :: ops, database =>
      if attempt.refuses i then .error .appendDeltaFailed
      else
        match (WriteOp.appendDelta contextId payload editType).apply shortPathHash
            (attempt.clock i) database.tables with
        | .error _ => .error .appendDeltaFailed
        | .ok tables =>
            flushOps attempt (i + 1) ops
              (database.write (.appendDelta contextId payload editType) tables)

/-- `try_flush_ops` on the connection behind the lock. An operation that fails rolls the
transaction back; a COMMIT that fails does not. -/
def tryFlushOps (attempt : Attempt) (ops : List WriteOp) (connection : Connection) :
    Except FlushError Nat × Connection :=
  if attempt.refusesBegin ∨ connection.transaction.isSome then (.error .beginFailed, connection)
  else
    match flushOps shortPathHash attempt 0 ops connection.committed with
    | .error error => (.error error, { connection with transaction := none })
    | .ok database =>
        if attempt.refusesCommit then
          (.error .commitFailed, { connection with transaction := some database })
        else (.ok ops.length, { committed := database, transaction := none })

/-- The attempts one after another, until one succeeds. -/
def retry (ops : List WriteOp) : List Attempt → Connection → Bool × Connection
  | [], connection => (false, connection)
  | attempt :: attempts, connection =>
      match connection.tryFlushOps shortPathHash attempt ops with
      | (.ok _, connection) => (true, connection)
      | (.error _, connection) => retry ops attempts connection

end Connection

def maxRetries : Nat := 3

namespace BufferedStore

def new (store : SqliteStore) : BufferedStore :=
  { inner := .new store, innerPoisoned := false, pending := [], pendingPoisoned := false }

def queue (store : BufferedStore) (op : WriteOp) : BufferedStore :=
  if store.pendingPoisoned then store else { store with pending := store.pending ++ [op] }

section ContextStore

/-- `ContextStore::save_context`: the id is made up. -/
def saveContext (store : BufferedStore) (context : SavedContext) : BufferedStore × String :=
  (store.queue (.saveContext context), "ctx-" ++ context.sourceHash)

def appendDelta (store : BufferedStore) (contextId : String) (payload : PersistedDelta)
    (editType : Option String) : BufferedStore :=
  store.queue (.appendDelta contextId payload editType)

def ownedContextIds (store : BufferedStore) (filePath : String) : List String :=
  let committed :=
    if store.innerPoisoned then none
    else (store.inner.view.tables.latestRow filePath).map fun row =>
      "ctx-" ++ SqliteStore.ContextRow.metadataHash row
  store.pending.filterMap (fun op =>
    match op with
    | .saveContext context =>
        if context.filePath = filePath then some ("ctx-" ++ context.sourceHash) else none
    | _ => none) ++ committed.toList

def keeps (filePath : String) (owned : List String) : WriteOp → Bool
  | .saveContext context => context.filePath ≠ filePath
  | .clearFile cleared => cleared ≠ filePath
  | .appendDelta contextId _ _ => contextId ∉ owned

/-- `ContextStore::clear_file`. -/
def clearFile (store : BufferedStore) (filePath : String) : BufferedStore :=
  { store with
    pending :=
      if store.pendingPoisoned then store.pending
      else store.pending.filter (keeps filePath (store.ownedContextIds filePath))
    inner := if store.innerPoisoned then store.inner else store.inner.clearFile filePath }

end ContextStore

def retry (script : Nat → Attempt) (store : BufferedStore) : Bool × Connection :=
  if store.innerPoisoned then (false, store.inner)
  else store.inner.retry shortPathHash store.pending ((List.range maxRetries).map script)

/-- `flush`, with the operations that other clones of the store queue while it runs. -/
def flush (script : Nat → Attempt) (meanwhile : List WriteOp) (store : BufferedStore) :
    Nat × BufferedStore :=
  let ops := store.pending
  if ops.isEmpty then (0, store)
  else
    let (succeeded, inner) := store.retry shortPathHash script
    let queued := meanwhile.foldl queue { store with inner, pending := [] }
    if succeeded then (ops.length, queued)
    else if queued.pendingPoisoned then (0, queued)
    else (0, { queued with pending := ops ++ queued.pending })

end BufferedStore
end Sqlite
end CleanCtx
