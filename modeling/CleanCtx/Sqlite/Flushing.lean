import CleanCtx.Sqlite.Buffered

/-!
What a flush does to the database and to the queue. The attempts before the first one whose
operations go through change nothing; that attempt decides. If its COMMIT is refused, the
transaction stays open and no later attempt can begin.
-/
namespace CleanCtx
namespace Sqlite

variable {shortPathHash : String → String} {attempt : Attempt} {attempts : List Attempt}
  {op : WriteOp} {ops meanwhile : List WriteOp} {database database' : Database}
  {connection : Connection} {i : Nat}

namespace Attempt

/-- No clear among the operations from a position on is refused. -/
def ClearsGoThrough (attempt : Attempt) (i : Nat) (ops : List WriteOp) : Prop :=
  ∀ k filePath, ops[k]? = some (.clearFile filePath) → attempt.refuses (i + k) = false

theorem clearsGoThrough_cons :
    attempt.ClearsGoThrough i (op :: ops) ↔
      (∀ filePath, op = .clearFile filePath → attempt.refuses i = false) ∧
        attempt.ClearsGoThrough (i + 1) ops := by
  constructor
  · intro h
    refine ⟨fun filePath hop => h 0 filePath (congrArg some hop), fun k filePath hk => ?_⟩
    rw [Nat.add_right_comm]
    exact h (k + 1) filePath hk
  · rintro ⟨hfirst, hrest⟩ k filePath hk
    cases k with
    | zero => exact hfirst filePath (Option.some.inj hk)
    | succ k => exact Nat.add_right_comm i 1 k ▸ hrest k filePath hk

variable (shortPathHash)

/-- BEGIN goes through, and every operation whose result is looked at. -/
def passes (attempt : Attempt) (ops : List WriteOp) (database : Database) : Bool :=
  !attempt.refusesBegin &&
    (Connection.flushOps shortPathHash attempt 0 ops database).toOption.isSome

end Attempt

namespace Connection

section Operations

/-- The operation takes place, or it is a clear that was refused. -/
theorem flushOps_cons :
    flushOps shortPathHash attempt i (op :: ops) database = .ok database' ↔
      (attempt.refuses i = false ∧ ∃ tables,
        op.apply shortPathHash (attempt.clock i) database.tables = .ok tables ∧
        flushOps shortPathHash attempt (i + 1) ops (database.write op tables) = .ok database') ∨
      (attempt.refuses i = true ∧ (∃ filePath, op = .clearFile filePath) ∧
        flushOps shortPathHash attempt (i + 1) ops database = .ok database') := by
  cases op with
  | clearFile filePath =>
      rw [flushOps]
      cases attempt.refuses i <;> simp [WriteOp.apply]
  | saveContext context =>
      rw [flushOps]
      cases attempt.refuses i
      · cases (WriteOp.saveContext context).apply shortPathHash (attempt.clock i)
          database.tables <;> simp
      · simp
  | appendDelta contextId payload editType =>
      rw [flushOps]
      cases attempt.refuses i
      · cases (WriteOp.appendDelta contextId payload editType).apply shortPathHash
          (attempt.clock i) database.tables <;> simp
      · simp

theorem flushOps_length (h : flushOps shortPathHash attempt i ops database = .ok database') :
    database'.applied.length ≤ database.applied.length + ops.length := by
  induction ops generalizing i database with
  | nil =>
      cases h
      exact Nat.le_refl _
  | cons op ops ih =>
      rw [List.length_cons]
      rcases flushOps_cons.mp h with ⟨-, tables, -, hrest⟩ | ⟨-, -, hrest⟩
      · have hle := ih hrest
        rw [Database.write, List.length_append, List.length_singleton] at hle
        omega
      · have hle := ih hrest
        omega

theorem flushOps_applied (h : flushOps shortPathHash attempt i ops database = .ok database') :
    database'.applied = database.applied ++ ops ↔ attempt.ClearsGoThrough i ops := by
  induction ops generalizing i database with
  | nil =>
      cases h
      exact iff_of_true (List.append_nil _).symm nofun
  | cons op ops ih =>
      rw [Attempt.clearsGoThrough_cons]
      rcases flushOps_cons.mp h with ⟨hrefuses, tables, -, hrest⟩ | ⟨hrefuses, ⟨filePath, rfl⟩, hrest⟩
      · rw [← ih hrest, Database.write, List.append_assoc]
        exact (and_iff_right fun _ _ => hrefuses).symm
      · refine iff_of_false (fun happlied => ?_) fun hclears => ?_
        · have hle := flushOps_length hrest
          rw [happlied, List.length_append, List.length_cons] at hle
          omega
        · cases hrefuses.symm.trans (hclears.1 filePath rfl)

/-- What the applied operations make of the tables. -/
theorem flushOps_tables (h : flushOps shortPathHash attempt i ops database = .ok database')
    (hclears : attempt.ClearsGoThrough i ops) :
    WriteOp.applyAll shortPathHash attempt.clock i ops database.tables = .ok database'.tables := by
  induction ops generalizing i database with
  | nil =>
      cases h
      rfl
  | cons op ops ih =>
      obtain ⟨hfirst, hclears⟩ := Attempt.clearsGoThrough_cons.mp hclears
      rcases flushOps_cons.mp h with ⟨-, tables, happly, hrest⟩ | ⟨hrefuses, ⟨filePath, rfl⟩, -⟩
      · rw [WriteOp.applyAll, happly]
        exact ih hrest hclears
      · cases hrefuses.symm.trans (hfirst filePath rfl)

end Operations

section Retrying

theorem retry_open (h : connection.transaction.isSome) :
    connection.retry shortPathHash ops attempts = (false, connection) := by
  induction attempts with
  | nil => rfl
  | cons attempt attempts ih =>
      rw [retry, tryFlushOps, if_pos (Or.inr h)]
      exact ih

/-- An attempt that does not pass leaves the connection as it was. -/
theorem tryFlushOps_not_passes (hopen : connection.transaction = none)
    (h : attempt.passes shortPathHash ops connection.committed = false) :
    ∃ error, connection.tryFlushOps shortPathHash attempt ops = (.error error, connection) := by
  rw [tryFlushOps]
  cases hbegin : attempt.refusesBegin with
  | true => exact ⟨_, if_pos (Or.inl rfl)⟩
  | false =>
      rw [if_neg (by simp [hopen])]
      rw [Attempt.passes, hbegin, Bool.not_false, Bool.true_and] at h
      cases hops : flushOps shortPathHash attempt 0 ops connection.committed with
      | error error =>
          refine ⟨error, ?_⟩
          rw [← hopen]
      | ok database =>
          rw [hops] at h
          cases h

theorem tryFlushOps_passes (hopen : connection.transaction = none)
    (h : attempt.passes shortPathHash ops connection.committed = true) :
    ∃ database, flushOps shortPathHash attempt 0 ops connection.committed = .ok database ∧
      connection.tryFlushOps shortPathHash attempt ops =
        if attempt.refusesCommit then
          (.error .commitFailed, { connection with transaction := some database })
        else (.ok ops.length, { committed := database, transaction := none }) := by
  obtain ⟨hbegin, hops⟩ := (Bool.and_eq_true _ _).mp h
  rw [Bool.not_eq_true'] at hbegin
  cases hresult : flushOps shortPathHash attempt 0 ops connection.committed with
  | error error =>
      rw [hresult] at hops
      cases hops
  | ok database =>
      refine ⟨database, rfl, ?_⟩
      rw [tryFlushOps, if_neg (by simp [hopen, hbegin]), hresult]

theorem retry_none (hopen : connection.transaction = none)
    (h : attempts.find? (·.passes shortPathHash ops connection.committed) = none) :
    connection.retry shortPathHash ops attempts = (false, connection) := by
  induction attempts with
  | nil => rfl
  | cons attempt attempts ih =>
      rw [List.find?_cons] at h
      split at h
      · cases h
      · next hfails =>
        obtain ⟨error, htry⟩ := tryFlushOps_not_passes hopen hfails
        rw [retry, htry]
        exact ih h

/-- The first attempt that passes decides. -/
theorem retry_some (hopen : connection.transaction = none)
    (h : attempts.find? (·.passes shortPathHash ops connection.committed) = some attempt) :
    ∃ database, flushOps shortPathHash attempt 0 ops connection.committed = .ok database ∧
      connection.retry shortPathHash ops attempts =
        if attempt.refusesCommit then (false, { connection with transaction := some database })
        else (true, { committed := database, transaction := none }) := by
  induction attempts with
  | nil => cases h
  | cons first attempts ih =>
      rw [List.find?_cons] at h
      split at h
      · next hpasses =>
        cases h
        obtain ⟨database, hops, htry⟩ := tryFlushOps_passes hopen hpasses
        refine ⟨database, hops, ?_⟩
        rw [retry, htry]
        cases attempt.refusesCommit with
        | true => exact retry_open rfl
        | false => rfl
      · next hfails =>
        obtain ⟨error, htry⟩ := tryFlushOps_not_passes hopen hfails
        rw [retry, htry]
        exact ih h

end Retrying

end Connection

namespace BufferedStore

variable {store : BufferedStore} {script : Nat → Attempt}

/-- What a flush makes of the store: nothing but what was queued meanwhile, or every queued
operation, once and in order. -/
def AllOrNothing (shortPathHash : String → String) (store : BufferedStore)
    (meanwhile : List WriteOp) (outcome : Nat × BufferedStore) : Prop :=
  if outcome.1 = 0 ∧ store.pending ≠ [] then
    outcome.2.inner.committed = store.inner.committed ∧ outcome.2.inner.transaction = none ∧
      outcome.2.pending = store.pending ++ meanwhile
  else
    outcome.2.inner.committed.applied = store.inner.committed.applied ++ store.pending ∧
      ∃ clock, WriteOp.applyAll shortPathHash clock 0 store.pending store.inner.committed.tables =
        .ok outcome.2.inner.committed.tables

def deciding (shortPathHash : String → String) (script : Nat → Attempt) (store : BufferedStore) :
    Option Attempt :=
  if store.innerPoisoned then none
  else ((List.range maxRetries).map script).find?
    (·.passes shortPathHash store.pending store.inner.committed)

/-- No transaction is open, and the attempt that decides goes through to its end. -/
def FlushesSoundly (shortPathHash : String → String) (script : Nat → Attempt)
    (store : BufferedStore) : Prop :=
  store.pending = [] ∨ store.inner.transaction = none ∧
    match store.deciding shortPathHash script with
    | some attempt =>
        attempt.refusesCommit = false ∧ attempt.ClearsGoThrough 0 store.pending
    | none => store.pendingPoisoned = false

theorem foldl_queue (store : BufferedStore) (ops : List WriteOp) :
    ops.foldl queue store =
      if store.pendingPoisoned then store else { store with pending := store.pending ++ ops } := by
  induction ops generalizing store with
  | nil => simp
  | cons op ops ih =>
      rw [List.foldl_cons, ih, queue]
      cases hpoisoned : store.pendingPoisoned with
      | true => simp [hpoisoned]
      | false => simp

theorem flush_nil (h : store.pending = []) :
    store.flush shortPathHash script meanwhile = (0, store) := by
  rw [flush, h]
  rfl

theorem flush_failed (hpending : store.pending ≠ []) {inner : Connection}
    (h : store.retry shortPathHash script = (false, inner)) :
    store.flush shortPathHash script meanwhile =
      (0, { store with
        inner
        pending := if store.pendingPoisoned then [] else store.pending ++ meanwhile }) := by
  rw [flush, if_neg (by simpa using hpending), h]
  dsimp only
  rw [if_neg Bool.false_ne_true, foldl_queue]
  cases hpoisoned : store.pendingPoisoned <;> simp

theorem flush_succeeded (hpending : store.pending ≠ []) {inner : Connection}
    (h : store.retry shortPathHash script = (true, inner)) :
    store.flush shortPathHash script meanwhile =
      (store.pending.length, { store with
        inner
        pending := if store.pendingPoisoned then [] else meanwhile }) := by
  rw [flush, if_neg (by simpa using hpending), h]
  dsimp only
  rw [if_pos rfl, foldl_queue]
  simp only [List.nil_append]
  split <;> rfl

section Retry

theorem retry_open (h : store.inner.transaction.isSome) :
    store.retry shortPathHash script = (false, store.inner) := by
  rw [retry]
  split
  · rfl
  · exact Connection.retry_open h

theorem retry_undecided (hopen : store.inner.transaction = none)
    (h : store.deciding shortPathHash script = none) :
    store.retry shortPathHash script = (false, store.inner) := by
  rw [deciding] at h
  rw [retry]
  split
  · rfl
  · next hpoisoned =>
    rw [if_neg hpoisoned] at h
    exact Connection.retry_none hopen h

theorem retry_decided (hopen : store.inner.transaction = none)
    (h : store.deciding shortPathHash script = some attempt) :
    ∃ database, Connection.flushOps shortPathHash attempt 0 store.pending store.inner.committed =
        .ok database ∧
      store.retry shortPathHash script =
        if attempt.refusesCommit then
          (false, { store.inner with transaction := some database })
        else (true, { committed := database, transaction := none }) := by
  rw [deciding] at h
  rw [retry]
  split
  · next hpoisoned =>
    rw [if_pos hpoisoned] at h
    cases h
  · next hpoisoned =>
    rw [if_neg hpoisoned] at h
    exact Connection.retry_some hopen h

end Retry

/-- A flush that says it succeeded ran its operations in one transaction. -/
theorem flush_success (hpending : store.pending ≠ []) (hopen : store.inner.transaction = none)
    (h : (store.flush shortPathHash script meanwhile).1 = store.pending.length) :
    ∃ attempt, Connection.flushOps shortPathHash attempt 0 store.pending store.inner.committed =
      .ok (store.flush shortPathHash script meanwhile).2.inner.committed := by
  have hcount : store.pending.length ≠ 0 := fun h => hpending (List.length_eq_zero_iff.mp h)
  have hnot : ∀ inner, store.retry shortPathHash script ≠ (false, inner) := by
    intro inner hfailed
    rw [flush_failed hpending hfailed] at h
    exact hcount h.symm
  cases hfirst : store.deciding shortPathHash script with
  | none => cases hnot _ (retry_undecided hopen hfirst)
  | some attempt =>
      obtain ⟨database, hops, hretry⟩ := retry_decided hopen hfirst
      split at hretry
      · cases hnot _ hretry
      · refine ⟨attempt, ?_⟩
        rw [flush_succeeded hpending hretry]
        exact hops

/-- A flush that failed leaves the queue and the database exactly if no transaction is open after
it and the queue can be locked. -/
theorem allOrNothing_failed (hpending : store.pending ≠ []) {inner : Connection}
    (h : store.retry shortPathHash script = (false, inner))
    (hcommitted : inner.committed = store.inner.committed) :
    AllOrNothing shortPathHash store meanwhile (store.flush shortPathHash script meanwhile) ↔
      inner.transaction = none ∧ store.pendingPoisoned = false := by
  rw [AllOrNothing, flush_failed hpending h, if_pos ⟨rfl, hpending⟩]
  dsimp only
  cases store.pendingPoisoned with
  | true =>
      refine iff_of_false (fun ⟨_, _, hqueue⟩ => ?_) (fun ⟨_, hlock⟩ => ?_)
      · exact hpending (List.append_eq_nil_iff.mp hqueue.symm).1
      · cases hlock
  | false => simp [hcommitted]

/-- A flush that succeeded applied every operation exactly if no clear was refused. -/
theorem allOrNothing_succeeded (hpending : store.pending ≠ [])
    (hops : Connection.flushOps shortPathHash attempt 0 store.pending store.inner.committed =
      .ok database)
    (h : store.retry shortPathHash script =
      (true, { committed := database, transaction := none })) :
    AllOrNothing shortPathHash store meanwhile (store.flush shortPathHash script meanwhile) ↔
      attempt.ClearsGoThrough 0 store.pending := by
  have hcount : store.pending.length ≠ 0 := fun h => hpending (List.length_eq_zero_iff.mp h)
  rw [AllOrNothing, flush_succeeded hpending h, if_neg fun h => hcount h.1]
  dsimp only
  rw [Connection.flushOps_applied hops]
  exact and_iff_left_of_imp fun hclears => ⟨_, Connection.flushOps_tables hops hclears⟩

/-- A flush changes nothing or applies every operation exactly if the attempt that decides goes
through to its end. -/
theorem flush_allOrNothing_iff (shortPathHash : String → String) (script : Nat → Attempt)
    (meanwhile : List WriteOp) (store : BufferedStore) :
    AllOrNothing shortPathHash store meanwhile (store.flush shortPathHash script meanwhile) ↔
      store.FlushesSoundly shortPathHash script := by
  by_cases hpending : store.pending = []
  · rw [flush_nil hpending, AllOrNothing, if_neg fun h => h.2 hpending, hpending]
    exact iff_of_true ⟨(List.append_nil _).symm, fun _ => 0, rfl⟩ (Or.inl hpending)
  rw [FlushesSoundly, or_iff_right hpending]
  cases hopen : store.inner.transaction with
  | some database =>
      rw [allOrNothing_failed hpending (retry_open (by rw [hopen]; rfl)) rfl, hopen]
      exact iff_of_false (fun h => nomatch h.1) fun h => nomatch h.1
  | none =>
      rw [and_iff_right rfl]
      cases hfirst : store.deciding shortPathHash script with
      | none =>
          rw [allOrNothing_failed hpending (retry_undecided hopen hfirst) rfl]
          exact and_iff_right hopen
      | some attempt =>
          obtain ⟨database, hops, hretry⟩ := retry_decided hopen hfirst
          cases hcommit : attempt.refusesCommit with
          | true =>
              rw [hcommit, if_pos rfl] at hretry
              rw [allOrNothing_failed hpending hretry rfl]
              exact iff_of_false (fun h => nomatch h.1) fun h => nomatch hcommit.symm.trans h.1
          | false =>
              rw [hcommit, if_neg Bool.false_ne_true] at hretry
              rw [allOrNothing_succeeded hpending hops hretry]
              exact (and_iff_right hcommit).symm

/-- One file that waits to be saved. -/
def oneSave : BufferedStore :=
  ((BufferedStore.new .empty).saveContext
    { filePath := "a.rs", fidelity := .high, compressedOutput := "", irBinary := [],
      sourceHash := "9f3c", rawTokens := 0, compressedTokens := 0 }).1

def firstCommitRefused (i : Nat) : Attempt :=
  { clock := fun _ => 0, refusesBegin := false, refuses := fun _ => false, refusesCommit := i = 0 }

/-- The flush gives up with the transaction of its first attempt open. -/
theorem not_flush_allOrNothing :
    ¬AllOrNothing (fun path => path) oneSave []
      (oneSave.flush (fun path => path) firstCommitRefused []) := by
  rw [AllOrNothing, if_pos (by decide)]
  rintro ⟨-, hclosed, -⟩
  exact absurd hclosed (by decide)

end BufferedStore
end Sqlite
end CleanCtx
