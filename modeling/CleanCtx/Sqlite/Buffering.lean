import CleanCtx.Library.Runs
import CleanCtx.Sqlite.Flushing
import Mathlib.Data.List.Find

/-!
A program of saves, deltas and clears, run on a buffered store and on the store itself. The
queue, replayed over the tables behind it, is the store of the direct run up to the times of
its rows. A save or a delta is appended to the replay. A clear takes the file's operations
out of the queue and the file's rows out of the tables, and that commutes with the replay
as long as the operations that stay do not meet the rows that go.
-/
namespace CleanCtx
namespace Sqlite

def ContextRow.untimed (row : ContextRow) : ContextRow := { row with updatedAt := 0 }

def DeltaRow.untimed (delta : DeltaRow) : DeltaRow := { delta with appliedAt := 0 }

variable {shortPathHash : String → String} {now : Nat} {filePath contextId : String}
  {context : SavedContext} {op : WriteOp} {ops : List WriteOp} {owned : List String}
  {store store' : SqliteStore}

section Operations

namespace WriteOp

variable (shortPathHash)

def savedRow (now : Nat) (context : SavedContext) (store : SqliteStore) : ContextRow :=
  let preferredId := "ctx-" ++ context.sourceHash
  let collides := (store.rowById preferredId).any (·.filePath ≠ context.filePath)
  { id := if collides then preferredId ++ "-" ++ shortPathHash context.filePath else preferredId
    filePath := context.filePath
    sourceHash := context.sourceHash
    fidelity := context.fidelity
    irBinary := context.irBinary
    rawTokens := context.rawTokens
    compressedTokens := context.compressedTokens
    contentHash := context.sourceHash ++ ":" ++ shortPathHash context.filePath
    prettyText := context.compressedOutput
    updatedAt := now
    canonicalConfig := none
    canonicalProducers := none }

/-- What becomes of the tables; an operation that fails leaves them alone. -/
def settle (now : Nat) (op : WriteOp) (store : SqliteStore) : SqliteStore :=
  match op.apply shortPathHash now store with
  | .ok store => store
  | .error _ => store

def replay (ops : List WriteOp) (store : SqliteStore) : SqliteStore :=
  ops.foldl (fun store op => op.settle shortPathHash 0 store) store

variable {shortPathHash}

theorem apply_saveContext :
    (saveContext context).apply shortPathHash now store =
      (store.deleteContexts context.filePath).insertContext
        (savedRow shortPathHash now context store) := by
  rw [apply, SqliteStore.saveContext, savedRow]
  cases (store.deleteContexts context.filePath).insertContext _ <;> rfl

theorem settle_of_ok (h : op.apply shortPathHash now store = .ok store') :
    op.settle shortPathHash now store = store' := by
  rw [settle, h]

theorem replay_concat (ops : List WriteOp) (op : WriteOp) (store : SqliteStore) :
    replay shortPathHash (ops ++ [op]) store =
      op.settle shortPathHash 0 (replay shortPathHash ops store) := by
  rw [replay, List.foldl_append]
  rfl

end WriteOp

end Operations

section Untimed

namespace SqliteStore

/-- The tables without the times of their rows. -/
def untimed (store : SqliteStore) : SqliteStore :=
  { store with
    contexts := store.contexts.map ContextRow.untimed
    deltas := store.deltas.map DeltaRow.untimed }

theorem rowById_untimed (store : SqliteStore) (contextId : String) :
    store.untimed.rowById contextId = (store.rowById contextId).map ContextRow.untimed :=
  List.find?_map

theorem deleteContexts_untimed (store : SqliteStore) (filePath : String) :
    store.untimed.deleteContexts filePath = (store.deleteContexts filePath).untimed := by
  have hgone : (store.untimed.contexts.filter (·.filePath = filePath)).map (·.id) =
      (store.contexts.filter (·.filePath = filePath)).map (·.id) := by
    rw [untimed, List.filter_map, List.map_map]
    rfl
  rw [deleteContexts, hgone, untimed, deleteContexts, untimed]
  simp only [List.filter_map]
  rfl

theorem insertContext_untimed (store : SqliteStore) (row : ContextRow) :
    store.untimed.insertContext row.untimed = (store.insertContext row).map untimed := by
  have hids : store.untimed.contexts.any (·.id = row.untimed.id) =
      store.contexts.any (·.id = row.id) := List.any_map
  have hhashes : store.untimed.contexts.any (·.contentHash = row.untimed.contentHash) =
      store.contexts.any (·.contentHash = row.contentHash) := List.any_map
  rw [insertContext, insertContext, hids, hhashes]
  split
  · rfl
  · split
    · rfl
    · simp [Except.map, untimed]

theorem nextSequence_untimed (store : SqliteStore) (contextId : String) :
    store.untimed.nextSequence contextId = store.nextSequence contextId := by
  rw [nextSequence, nextSequence, untimed, List.filter_map, List.map_map]
  rfl

end SqliteStore

open SqliteStore

theorem WriteOp.apply_untimed (op : WriteOp) (now : Nat) (store : SqliteStore) :
    op.apply shortPathHash 0 store.untimed = (op.apply shortPathHash now store).map untimed := by
  cases op with
  | saveContext context =>
      rw [apply_saveContext, apply_saveContext, deleteContexts_untimed, ← insertContext_untimed]
      congr 1
      rw [savedRow, rowById_untimed, savedRow]
      cases store.rowById ("ctx-" ++ context.sourceHash) <;> rfl
  | appendDelta contextId payload editType =>
      rw [apply, SqliteStore.appendDelta, rowById_untimed, apply, SqliteStore.appendDelta]
      cases store.rowById contextId with
      | none => rfl
      | some row =>
          rw [Option.map_some]
          dsimp only
          rw [nextSequence_untimed]
          simp only [Except.map, untimed, updateContext, List.map_map, List.map_append]
          congr 3
          funext row
          simp only [Function.comp_apply, ContextRow.untimed]
          split <;> simp_all
  | clearFile filePath =>
      rw [apply, apply, deleteContexts_untimed]
      rfl

theorem WriteOp.settle_untimed (op : WriteOp) (now : Nat) (store : SqliteStore) :
    op.settle shortPathHash 0 store.untimed = (op.settle shortPathHash now store).untimed := by
  rw [settle, settle, apply_untimed op now]
  cases op.apply shortPathHash now store <;> rfl

theorem WriteOp.settle_congr (op : WriteOp) (now : Nat) (h : store.untimed = store'.untimed) :
    (op.settle shortPathHash 0 store).untimed = (op.settle shortPathHash now store').untimed := by
  rw [← settle_untimed, ← settle_untimed, h]

/-- What operations that all go through make of the tables is their replay. -/
theorem WriteOp.applyAll_untimed {clock : Nat → Nat} {i : Nat} {last : SqliteStore}
    (h : applyAll shortPathHash clock i ops store = .ok last)
    (hsame : store.untimed = store'.untimed) :
    last.untimed = (replay shortPathHash ops store').untimed := by
  induction ops generalizing i store store' with
  | nil =>
      cases h
      exact hsame
  | cons op ops ih =>
      rw [applyAll] at h
      cases happly : op.apply shortPathHash (clock i) store with
      | error error =>
          rw [happly] at h
          cases h
      | ok next =>
          rw [happly] at h
          refine ih h ?_
          rw [← settle_of_ok happly]
          exact (settle_congr op (clock i) hsame.symm).symm

end Untimed

section Keys

open SqliteStore

theorem SqliteStore.Keyed.insertSaved (h : store.Keyed)
    (hinsert : (store.deleteContexts context.filePath).insertContext
      (WriteOp.savedRow shortPathHash now context store) = .ok store') : store'.Keyed := by
  obtain ⟨hid, rfl⟩ := insertContext_ok hinsert
  refine (h.deleteContexts context.filePath).withContext hid fun hfile => ?_
  obtain ⟨row, hrow, heq⟩ := List.mem_map.mp hfile
  exact (mem_deleteContexts.mp hrow).2 heq

theorem SqliteStore.Keyed.apply (h : store.Keyed)
    (happly : op.apply shortPathHash now store = .ok store') : store'.Keyed := by
  cases op with
  | saveContext context =>
      rw [WriteOp.apply_saveContext] at happly
      exact h.insertSaved happly
  | appendDelta contextId payload editType =>
      obtain ⟨howner, rfl⟩ := appendDelta_ok happly
      have hkeeps : KeepsKeys fun row : ContextRow => { row with updatedAt := now } :=
        ⟨fun _ => rfl, fun _ => rfl⟩
      let delta : DeltaRow :=
        ⟨contextId, store.nextSequence contextId, payload, editType, now⟩
      exact (h.withDelta (show delta.contextId ∈ _ from howner)).updateContext hkeeps contextId
  | clearFile filePath =>
      cases happly
      exact h.deleteContexts filePath

theorem SqliteStore.Keyed.settle (h : store.Keyed) (op : WriteOp) :
    (op.settle shortPathHash now store).Keyed := by
  rw [WriteOp.settle]
  split
  · next happly => exact h.apply happly
  · exact h

end Keys

section Clearing

open SqliteStore

namespace SqliteStore

/-- A context as it is once a file has gone, if it is not one of the file's. -/
theorem rowById_deleteContexts
    (h : ∀ row ∈ store.contexts, row.id = contextId → row.filePath ≠ filePath) :
    (store.deleteContexts filePath).rowById contextId = store.rowById contextId := by
  rw [rowById, deleteContexts, List.find?_filter]
  refine List.find?_congr fun row hrow => ?_
  by_cases hid : row.id = contextId
  · simp [hid, h row hrow hid]
  · simp [hid]

theorem rowById_deleteContexts_gone
    (h : ∀ row ∈ store.contexts, row.id = contextId → row.filePath = filePath) :
    (store.deleteContexts filePath).rowById contextId = none := by
  refine List.find?_eq_none.mpr fun row hrow hid => ?_
  obtain ⟨hmem, hfile⟩ := mem_deleteContexts.mp hrow
  exact hfile (h row hmem (of_decide_eq_true hid))

theorem deleteContexts_self (store : SqliteStore) (filePath : String) :
    (store.deleteContexts filePath).deleteContexts filePath = store.deleteContexts filePath := by
  have hnone : (store.deleteContexts filePath).contexts.filter (·.filePath = filePath) = [] :=
    List.filter_eq_nil_iff.mpr fun row hrow hfile =>
      (mem_deleteContexts.mp hrow).2 (of_decide_eq_true hfile)
  rw [deleteContexts, hnone]
  simp [deleteContexts]

/-- The rows of one file are not those of another. -/
theorem filter_file_deleteContexts {other : String} (h : other ≠ filePath) :
    (store.deleteContexts filePath).contexts.filter (·.filePath = other) =
      store.contexts.filter (·.filePath = other) := by
  rw [deleteContexts, List.filter_filter]
  refine List.filter_congr fun row _ => ?_
  by_cases hrow : row.filePath = other
  · simp [hrow, h]
  · simp [hrow]

theorem deleteContexts_comm {other : String} (h : other ≠ filePath) :
    (store.deleteContexts other).deleteContexts filePath =
      (store.deleteContexts filePath).deleteContexts other := by
  have htwice : ∀ first second : String, second ≠ first →
      (store.deleteContexts first).deleteContexts second =
        { store with
          contexts := (store.contexts.filter (·.filePath ≠ first)).filter (·.filePath ≠ second)
          deltas := (store.deltas.filter (·.contextId ∉ (store.contexts.filter
            (·.filePath = first)).map (·.id))).filter (·.contextId ∉ (store.contexts.filter
            (·.filePath = second)).map (·.id))
          snapshots := (store.snapshots.filter (·.contextId ∉ (store.contexts.filter
            (·.filePath = first)).map (·.id))).filter (·.contextId ∉ (store.contexts.filter
            (·.filePath = second)).map (·.id)) } := by
    intro first second hne
    rw [deleteContexts, filter_file_deleteContexts hne]
    rfl
  rw [htwice other filePath h.symm, htwice filePath other h, List.filter_comm,
    List.filter_comm (l := store.deltas), List.filter_comm (l := store.snapshots)]

/-- A file's new context goes with the file. -/
theorem Keyed.deleteContexts_withContext {row : ContextRow} (h : store.Keyed)
    (hid : row.id ∉ store.contexts.map (·.id))
    (hfile : row.filePath ∉ store.contexts.map (·.filePath)) :
    (store.withContext row).deleteContexts row.filePath = store := by
  have hnone : store.contexts.filter (·.filePath = row.filePath) = [] :=
    List.filter_eq_nil_iff.mpr fun other hother heq =>
      hfile (List.mem_map.mpr ⟨other, hother, of_decide_eq_true heq⟩)
  have hgone : ((store.withContext row).contexts.filter (·.filePath = row.filePath)).map (·.id) =
      [row.id] := by
    rw [SqliteStore.withContext, List.filter_append, hnone]
    simp
  have hcontexts : store.contexts.filter (·.filePath ≠ row.filePath) = store.contexts :=
    List.filter_eq_self.mpr fun other hother => decide_eq_true fun heq =>
      hfile (List.mem_map.mpr ⟨other, hother, heq⟩)
  have hdeltas : store.deltas.filter (·.contextId ∉ [row.id]) = store.deltas :=
    List.filter_eq_self.mpr fun delta hdelta => decide_eq_true fun heq =>
      hid (List.mem_singleton.mp heq ▸ h.deltas delta hdelta)
  have hsnapshots : store.snapshots.filter (·.contextId ∉ [row.id]) = store.snapshots :=
    List.filter_eq_self.mpr fun snapshot hsnapshot => decide_eq_true fun heq =>
      hid (List.mem_singleton.mp heq ▸ h.snapshots snapshot hsnapshot)
  rw [SqliteStore.deleteContexts, hgone]
  simp only [SqliteStore.withContext, List.filter_append, hcontexts, hdeltas, hsnapshots]
  simp

theorem withContext_deleteContexts {row : ContextRow} (h : row.filePath ≠ filePath) :
    (store.withContext row).deleteContexts filePath =
      (store.deleteContexts filePath).withContext row := by
  have hgone : (store.withContext row).contexts.filter (·.filePath = filePath) =
      store.contexts.filter (·.filePath = filePath) := by
    rw [withContext, List.filter_append]
    simp [h]
  rw [deleteContexts, hgone]
  simp [withContext, deleteContexts, h]

theorem any_deleteContexts {p : ContextRow → Bool}
    (h : ∀ row ∈ store.contexts, p row → row.filePath ≠ filePath) :
    (store.deleteContexts filePath).contexts.any p = store.contexts.any p := by
  rw [Bool.eq_iff_iff, List.any_eq_true, List.any_eq_true]
  constructor
  · rintro ⟨row, hrow, hp⟩
    exact ⟨row, (mem_deleteContexts.mp hrow).1, hp⟩
  · rintro ⟨row, hrow, hp⟩
    exact ⟨row, mem_deleteContexts.mpr ⟨hrow, h row hrow hp⟩, hp⟩

/-- A context that is not the file's, and meets none of its rows, is inserted as without them. -/
theorem insertContext_deleteContexts {row : ContextRow} (hfile : row.filePath ≠ filePath)
    (h : ∀ other ∈ store.contexts, other.filePath = filePath →
      other.id ≠ row.id ∧ other.contentHash ≠ row.contentHash) :
    (store.deleteContexts filePath).insertContext row =
      (store.insertContext row).map (·.deleteContexts filePath) := by
  rw [insertContext, insertContext,
    any_deleteContexts fun other hother hid hgone =>
      (h other hother hgone).1 (of_decide_eq_true hid),
    any_deleteContexts fun other hother hhash hgone =>
      (h other hother hgone).2 (of_decide_eq_true hhash)]
  split
  · rfl
  · split
    · rfl
    · exact congrArg Except.ok (withContext_deleteContexts hfile).symm

variable {f : ContextRow → ContextRow}

theorem KeepsKeys.updateContext_deleteContexts (hf : KeepsKeys f) (store : SqliteStore)
    (contextId filePath : String) :
    (store.updateContext contextId f).deleteContexts filePath =
      (store.deleteContexts filePath).updateContext contextId f := by
  have hkeeps : ∀ row, (if row.id = contextId then f row else row).filePath = row.filePath ∧
      (if row.id = contextId then f row else row).id = row.id := by
    intro row
    split
    · exact ⟨hf.filePath row, hf.id row⟩
    · exact ⟨rfl, rfl⟩
  have hgone : ((store.updateContext contextId f).contexts.filter (·.filePath = filePath)).map
      (·.id) = (store.contexts.filter (·.filePath = filePath)).map (·.id) := by
    simp only [updateContext, List.filter_map, List.map_map, Function.comp_def, hkeeps]
  rw [deleteContexts, hgone]
  simp only [updateContext, deleteContexts, List.filter_map, Function.comp_def, hkeeps]

theorem withDelta_deleteContexts (store : SqliteStore) (delta : DeltaRow) (filePath : String) :
    (store.withDelta delta).deleteContexts filePath =
      if delta.contextId ∈ (store.contexts.filter (·.filePath = filePath)).map (·.id) then
        store.deleteContexts filePath
      else (store.deleteContexts filePath).withDelta delta := by
  simp only [deleteContexts, withDelta, List.filter_append, List.filter_cons, List.filter_nil]
  split
  · next hkept =>
    rw [if_neg (of_decide_eq_true hkept)]
    rfl
  · next hgone =>
    rw [if_pos (not_not.mp fun hkept => hgone (decide_eq_true hkept)), List.append_nil]
    rfl

theorem updateContext_absent (h : contextId ∉ store.contexts.map (·.id)) :
    store.updateContext contextId f = store := by
  have hrows : store.contexts.map (fun row => if row.id = contextId then f row else row) =
      store.contexts := by
    refine (List.map_congr_left fun row hrow => if_neg fun hid => ?_).trans (List.map_id' _)
    exact h (List.mem_map.mpr ⟨row, hrow, hid⟩)
  rw [updateContext, hrows]

end SqliteStore

namespace WriteOp

variable (shortPathHash)

/-- The operation, if it stays when the file is cleared, does not meet the file's rows; and if it
goes, it is about them. -/
def Separate (filePath : String) (owned : List String) (store : SqliteStore) : WriteOp → Prop
  | saveContext context => context.filePath ≠ filePath →
      ∀ row ∈ store.contexts, row.filePath = filePath →
        row.id ≠ "ctx-" ++ context.sourceHash ∧
        row.id ≠ "ctx-" ++ context.sourceHash ++ "-" ++ shortPathHash context.filePath ∧
        row.contentHash ≠ context.sourceHash ++ ":" ++ shortPathHash context.filePath
  | appendDelta contextId _ _ => contextId ∈ owned →
      ∀ row ∈ store.contexts, row.id = contextId → row.filePath = filePath
  | clearFile _ => True

variable {shortPathHash}

theorem settle_deleteContexts
    (h : op.apply shortPathHash now (store.deleteContexts filePath) =
      (op.apply shortPathHash now store).map (·.deleteContexts filePath)) :
    op.settle shortPathHash now (store.deleteContexts filePath) =
      (op.settle shortPathHash now store).deleteContexts filePath := by
  rw [settle, settle, h]
  cases op.apply shortPathHash now store <;> rfl

/-- A save of another file that stays. -/
theorem Separate.saveContext_kept (hfile : context.filePath ≠ filePath)
    (h : (saveContext context).Separate shortPathHash filePath owned store) :
    (saveContext context).settle shortPathHash now (store.deleteContexts filePath) =
      ((saveContext context).settle shortPathHash now store).deleteContexts filePath := by
  have hsame : savedRow shortPathHash now context (store.deleteContexts filePath) =
      savedRow shortPathHash now context store := by
    rw [savedRow, rowById_deleteContexts fun row hrow hid hgone =>
      (h hfile row hrow hgone).1 hid]
    rfl
  refine settle_deleteContexts ?_
  rw [apply_saveContext, apply_saveContext, hsame, deleteContexts_comm hfile.symm]
  refine insertContext_deleteContexts hfile fun row hrow hgone => ?_
  obtain ⟨hid, hdisambiguated, hhash⟩ := h hfile row (mem_deleteContexts.mp hrow).1 hgone
  refine ⟨?_, hhash⟩
  rw [savedRow]
  dsimp only
  split
  · exact hdisambiguated
  · exact hid

/-- A save of the file itself, which goes. -/
theorem saveContext_gone (hkeyed : store.Keyed) (hfile : context.filePath = filePath) :
    ((saveContext context).settle shortPathHash now store).deleteContexts filePath =
      store.deleteContexts filePath := by
  subst hfile
  rw [settle]
  split
  · next happly =>
    rw [apply_saveContext] at happly
    obtain ⟨hid, rfl⟩ := insertContext_ok happly
    refine @Keyed.deleteContexts_withContext _ (savedRow shortPathHash now context store)
      (hkeyed.deleteContexts context.filePath) hid fun hstays => ?_
    obtain ⟨row, hrow, heq⟩ := List.mem_map.mp hstays
    exact (mem_deleteContexts.mp hrow).2 heq
  · rfl

/-- A delta of the file's own context goes with the file. -/
theorem appendDelta_gone {payload : PersistedDelta}
    {editType : Option String}
    (h : ∀ row ∈ store.contexts, row.id = contextId → row.filePath = filePath) :
    ((appendDelta contextId payload editType).settle shortPathHash now store).deleteContexts
      filePath = store.deleteContexts filePath := by
  rw [settle]
  split
  · next happly =>
    obtain ⟨howner, rfl⟩ := appendDelta_ok happly
    have hkeeps : KeepsKeys fun row : ContextRow => { row with updatedAt := now } :=
      ⟨fun _ => rfl, fun _ => rfl⟩
    obtain ⟨row, hrow, rfl⟩ := List.mem_map.mp howner
    have hgone : row.id ∈ (store.contexts.filter (·.filePath = filePath)).map (·.id) :=
      List.mem_map.mpr ⟨row, List.mem_filter.mpr ⟨hrow, decide_eq_true (h row hrow rfl)⟩, rfl⟩
    rw [hkeeps.updateContext_deleteContexts, withDelta_deleteContexts, if_pos hgone]
    refine updateContext_absent fun hstays => ?_
    obtain ⟨other, hother, hid⟩ := List.mem_map.mp hstays
    obtain ⟨hmem, hfile⟩ := mem_deleteContexts.mp hother
    exact hfile (h other hmem hid)
  · rfl

/-- A delta that stays lands on the same context, or on none once the file has gone. -/
theorem appendDelta_kept (hkeyed : store.Keyed) {payload : PersistedDelta}
    {editType : Option String} :
    (appendDelta contextId payload editType).settle shortPathHash now
        (store.deleteContexts filePath) =
      ((appendDelta contextId payload editType).settle shortPathHash now store).deleteContexts
        filePath := by
  by_cases hown : ∀ row ∈ store.contexts, row.id = contextId → row.filePath = filePath
  · rw [appendDelta_gone hown, settle, apply, SqliteStore.appendDelta,
      rowById_deleteContexts_gone hown]
  · simp only [not_forall] at hown
    obtain ⟨row, hrow, rfl, hfile⟩ := hown
    have hothers : ∀ other ∈ store.contexts, other.id = row.id → other.filePath ≠ filePath := by
      intro other hother hid
      cases hkeyed.eq_of_id hother hrow hid
      exact hfile
    have hkeeps : KeepsKeys fun row : ContextRow => { row with updatedAt := now } :=
      ⟨fun _ => rfl, fun _ => rfl⟩
    have hnext : (store.deleteContexts filePath).nextSequence row.id =
        store.nextSequence row.id := by
      rw [nextSequence, ← deltasOf, hkeyed.deltasOf_deleteContexts hrow hfile]
      rfl
    refine settle_deleteContexts ?_
    rw [apply, SqliteStore.appendDelta, rowById_deleteContexts hothers, apply,
      SqliteStore.appendDelta]
    cases store.rowById row.id with
    | none => rfl
    | some found =>
        refine congrArg Except.ok ?_
        have hstays := withDelta_deleteContexts store
          ⟨row.id, store.nextSequence row.id, payload, editType, now⟩ filePath
        rw [if_neg (hkeyed.not_gone hrow hfile), withDelta, withDelta] at hstays
        dsimp only
        rw [hkeeps.updateContext_deleteContexts, hstays, hnext]

/-- A clear commutes with an operation that stays, and swallows one that goes. -/
theorem Separate.deleteContexts_settle (hkeyed : store.Keyed)
    (h : op.Separate shortPathHash filePath owned store) :
    (op.settle shortPathHash now store).deleteContexts filePath =
      if BufferedStore.keeps filePath owned op then
        op.settle shortPathHash now (store.deleteContexts filePath)
      else store.deleteContexts filePath := by
  cases op with
  | saveContext context =>
      by_cases hfile : context.filePath = filePath
      · rw [if_neg (by simpa [BufferedStore.keeps] using hfile)]
        exact saveContext_gone hkeyed hfile
      · rw [if_pos (by simpa [BufferedStore.keeps] using hfile)]
        exact (h.saveContext_kept hfile).symm
  | appendDelta contextId payload editType =>
      by_cases howned : contextId ∈ owned
      · rw [if_neg (by simpa [BufferedStore.keeps] using howned)]
        exact appendDelta_gone (h howned)
      · rw [if_pos (by simpa [BufferedStore.keeps] using howned)]
        exact (appendDelta_kept hkeyed).symm
  | clearFile cleared =>
      by_cases hfile : cleared = filePath
      · rw [if_neg (by simpa [BufferedStore.keeps] using hfile), hfile]
        exact deleteContexts_self store filePath
      · rw [if_pos (by simpa [BufferedStore.keeps] using hfile)]
        exact deleteContexts_comm hfile

/-- The replay after a clear is the replay before it without the file. -/
theorem replay_clear (hkeyed : store.Keyed)
    (h : Runs.Along (fun store op => some (op.settle shortPathHash 0 store))
      (Separate shortPathHash filePath owned) store ops) :
    replay shortPathHash (ops.filter (BufferedStore.keeps filePath owned))
        (store.deleteContexts filePath) =
      (replay shortPathHash ops store).deleteContexts filePath := by
  induction ops generalizing store with
  | nil => rfl
  | cons op ops ih =>
      obtain ⟨hop, hrest⟩ := h
      have hnext := ih (hkeyed.settle op) (hrest _ rfl)
      rw [hop.deleteContexts_settle hkeyed] at hnext
      rw [List.filter_cons]
      split
      · next hkept =>
        rw [if_pos hkept] at hnext
        exact hnext
      · next hgone =>
        rw [if_neg hgone] at hnext
        exact hnext

end WriteOp

end Clearing

section Programs

open SqliteStore

/-- A call on a context store. A delta names its context by the position of the save that
returned its id. -/
inductive ContextCall
  | saveContext (context : SavedContext)
  | appendDelta (save : Nat) (payload : PersistedDelta) (editType : Option String)
  | clearFile (filePath : String)
  deriving DecidableEq

/-- A program on a buffered store and on the store itself, with the ids that their saves returned;
a save that failed returned none. -/
structure Twin where
  buffered : BufferedStore
  bufferedIds : List String
  direct : SqliteStore
  directIds : List (Option String)
  deriving DecidableEq

namespace Twin

def new (store : SqliteStore) : Twin :=
  { buffered := .new store, bufferedIds := [], direct := store, directIds := [] }

variable (shortPathHash)

/-- One call on both stores, at a time. -/
def step (twin : Twin) : ContextCall × Nat → Option Twin
  | (.saveContext context, now) =>
      let (buffered, id) := twin.buffered.saveContext context
      let directId := ((WriteOp.saveContext context).apply shortPathHash now twin.direct).toOption.map
        fun _ => (WriteOp.savedRow shortPathHash now context twin.direct).id
      some
        { buffered
          bufferedIds := twin.bufferedIds ++ [id]
          direct := (WriteOp.saveContext context).settle shortPathHash now twin.direct
          directIds := twin.directIds ++ [directId] }
  | (.appendDelta save payload editType, now) =>
      match twin.bufferedIds[save]?, twin.directIds[save]? with
      | some id, some directId => some
          { twin with
            buffered := twin.buffered.appendDelta id payload editType
            direct :=
              match directId with
              | some directId =>
                  (WriteOp.appendDelta directId payload editType).settle shortPathHash now
                    twin.direct
              | none => twin.direct }
      | _, _ => none
  | (.clearFile filePath, now) => some
      { twin with
        buffered := twin.buffered.clearFile filePath
        direct := (WriteOp.clearFile filePath).settle shortPathHash now twin.direct }

/-- The made-up ids do not matter to the call. A delta has the id that the store gave its context,
or neither id has a context; a clear meets no operation of another file. -/
def Unambiguous (twin : Twin) : ContextCall × Nat → Prop
  | (.saveContext _, _) => True
  | (.appendDelta save _ _, _) =>
      ∀ id directId, twin.bufferedIds[save]? = some id → twin.directIds[save]? = some directId →
        directId = some id ∨ twin.direct.rowById id = none ∧
          ∀ found, directId = some found → twin.direct.rowById found = none
  | (.clearFile filePath, _) =>
      Runs.Along (fun store op => some (op.settle shortPathHash 0 store))
        (WriteOp.Separate shortPathHash filePath (twin.buffered.ownedContextIds filePath))
        twin.buffered.inner.committed.tables twin.buffered.pending

variable {shortPathHash}

/-- The queue, replayed over the tables behind it, is the store of the direct run. -/
structure Replays (shortPathHash : String → String) (twin : Twin) : Prop where
  closed : twin.buffered.inner.transaction = none
  inner : twin.buffered.innerPoisoned = false
  pending : twin.buffered.pendingPoisoned = false
  noClear : ∀ op ∈ twin.buffered.pending, ∀ filePath, op ≠ .clearFile filePath
  keyed : twin.buffered.inner.committed.tables.Keyed
  direct : (WriteOp.replay shortPathHash twin.buffered.pending
    twin.buffered.inner.committed.tables).untimed = twin.direct.untimed

theorem replays_new (h : store.Keyed) : (new store).Replays shortPathHash :=
  ⟨rfl, rfl, rfl, nofun, h, rfl⟩

variable {twin twin' : Twin} {event : ContextCall × Nat}

/-- A queued operation is one more of the replay. -/
theorem Replays.queue (h : twin.Replays shortPathHash) (now : Nat)
    (hop : ∀ filePath, op ≠ .clearFile filePath) (ids : List String)
    (directIds : List (Option String)) :
    Replays shortPathHash
      { buffered := twin.buffered.queue op
        bufferedIds := ids
        direct := op.settle shortPathHash now twin.direct
        directIds } := by
  have hqueue : twin.buffered.queue op =
      { twin.buffered with pending := twin.buffered.pending ++ [op] } := by
    rw [BufferedStore.queue, if_neg (by rw [h.pending]; exact Bool.false_ne_true)]
  refine ⟨?_, ?_, ?_, ?_, ?_, ?_⟩ <;> dsimp only <;> rw [hqueue]
  · exact h.closed
  · exact h.inner
  · exact h.pending
  · intro queued hqueued
    rcases List.mem_append.mp hqueued with hold | hnew
    · exact h.noClear queued hold
    · cases List.mem_singleton.mp hnew
      exact hop
  · exact h.keyed
  · rw [WriteOp.replay_concat]
    exact WriteOp.settle_congr op now h.direct

/-- A delta whose context is nowhere changes neither store. -/
theorem settle_appendDelta_absent (h : store.rowById contextId = none) (payload : PersistedDelta)
    (editType : Option String) :
    (WriteOp.appendDelta contextId payload editType).settle shortPathHash now store = store := by
  rw [WriteOp.settle, WriteOp.apply, SqliteStore.appendDelta, h]

theorem Replays.step (h : twin.Replays shortPathHash) (hevent : twin.Unambiguous shortPathHash event)
    (hstep : twin.step shortPathHash event = some twin') : twin'.Replays shortPathHash := by
  obtain ⟨call, now⟩ := event
  cases call with
  | saveContext context =>
      cases hstep
      exact h.queue now (by simp) _ _
  | appendDelta save payload editType =>
      rw [Twin.step] at hstep
      split at hstep
      · next id directId hid hdirectId =>
        cases hstep
        rcases hevent id directId hid hdirectId with rfl | ⟨hnone, hnowhere⟩
        · exact h.queue now (by simp) _ _
        · have hqueued := @Replays.queue _ (.appendDelta id payload editType) twin h now (by simp)
            twin.bufferedIds twin.directIds
          rw [settle_appendDelta_absent hnone] at hqueued
          cases directId with
          | none => exact hqueued
          | some found =>
              dsimp only
              rw [settle_appendDelta_absent (hnowhere found rfl)]
              exact hqueued
      · cases hstep
  | clearFile filePath =>
      cases hstep
      have hinner : (twin.buffered.clearFile filePath).inner =
          { twin.buffered.inner with committed := { twin.buffered.inner.committed with
            tables := twin.buffered.inner.committed.tables.deleteContexts filePath } } := by
        rw [BufferedStore.clearFile, h.inner]
        simp [Connection.clearFile, Connection.view, h.closed]
      have hpending : (twin.buffered.clearFile filePath).pending =
          twin.buffered.pending.filter
            (BufferedStore.keeps filePath (twin.buffered.ownedContextIds filePath)) := by
        rw [BufferedStore.clearFile, h.pending, if_neg Bool.false_ne_true]
      refine ⟨?_, h.inner, h.pending, ?_, ?_, ?_⟩ <;> dsimp only
      · rw [hinner]
        exact h.closed
      · rw [hpending]
        exact fun op hop => h.noClear op (List.mem_of_mem_filter hop)
      · rw [hinner]
        exact h.keyed.deleteContexts filePath
      · rw [hinner, hpending]
        dsimp only
        rw [WriteOp.replay_clear h.keyed hevent, ← deleteContexts_untimed, h.direct,
          deleteContexts_untimed]
        rfl

variable {script : Nat → Attempt} {meanwhile : List WriteOp} {events : List (ContextCall × Nat)}

/-- What a flush that succeeded leaves in the database. -/
theorem Replays.flush (h : twin.Replays shortPathHash)
    (hsuccess : (twin.buffered.flush shortPathHash script meanwhile).1 = twin.buffered.pending.length) :
    (twin.buffered.flush shortPathHash script meanwhile).2.inner.committed.tables.untimed =
      twin.direct.untimed := by
  by_cases hpending : twin.buffered.pending = []
  · rw [BufferedStore.flush_nil hpending, ← h.direct, hpending]
    rfl
  · obtain ⟨attempt, hops⟩ := BufferedStore.flush_success hpending h.closed hsuccess
    have hclears : attempt.ClearsGoThrough 0 twin.buffered.pending := fun k filePath hk =>
      absurd rfl (h.noClear _ (List.mem_of_getElem? hk) filePath)
    rw [WriteOp.applyAll_untimed (Connection.flushOps_tables hops hclears) rfl]
    exact h.direct

/-- The contexts of each file, and their deltas, are the same up to their times. -/
def SameContexts (store store' : SqliteStore) : Prop :=
  ∀ filePath,
    (store.contexts.filter (·.filePath = filePath)).map ContextRow.untimed =
      (store'.contexts.filter (·.filePath = filePath)).map ContextRow.untimed ∧
    ∀ contextId, (store.deltasOf contextId).map DeltaRow.untimed =
      (store'.deltasOf contextId).map DeltaRow.untimed

theorem sameContexts_of_untimed (h : store.untimed = store'.untimed) :
    SameContexts store store' := by
  have hcontexts : ∀ (store : SqliteStore) (filePath : String),
      (store.contexts.filter (·.filePath = filePath)).map ContextRow.untimed =
        store.untimed.contexts.filter (·.filePath = filePath) := by
    intro store filePath
    rw [untimed, List.filter_map]
    rfl
  have hdeltas : ∀ (store : SqliteStore) (contextId : String),
      (store.deltasOf contextId).map DeltaRow.untimed = store.untimed.deltasOf contextId := by
    intro store contextId
    rw [deltasOf, deltasOf, untimed, List.filter_map]
    rfl
  intro filePath
  refine ⟨?_, fun contextId => ?_⟩
  · rw [hcontexts, hcontexts, h]
  · rw [hdeltas, hdeltas, h]

/-- A program whose calls are not ambiguous leaves in a buffered store, once a flush succeeds, what
it leaves in the store itself. -/
theorem buffering_transparent {store : SqliteStore} (hkeyed : store.Keyed)
    (hrun : Runs.run (step shortPathHash) (new store) events = some twin)
    (hevents : Runs.Along (step shortPathHash) (Unambiguous shortPathHash) (new store) events)
    (hsuccess : (twin.buffered.flush shortPathHash script meanwhile).1 =
      twin.buffered.pending.length) :
    SameContexts (twin.buffered.flush shortPathHash script meanwhile).2.inner.committed.tables
      twin.direct := by
  have hreplays : twin.Replays shortPathHash :=
    Runs.invariant_along (fun _ _ _ h hevent hstep => h.step hevent hstep) (replays_new hkeyed)
      hevents hrun
  exact sameContexts_of_untimed (hreplays.flush hsuccess)

def savedFile (filePath : String) : SavedContext :=
  { filePath, fidelity := .high, compressedOutput := "", irBinary := [], sourceHash := "9f3c"
    rawTokens := 0, compressedTokens := 0 }

def oneDelta (save : Nat) : ContextCall :=
  .appendDelta save
    (.sequence
      { deltaVersion := sequenceDeltaVersion, file := "a.rs", fromVersion := 1, toVersion := 2
        targetHash := none, edits := [], intent := none })
    none

def accepting (_ : Nat) : Attempt :=
  { clock := fun _ => 0, refusesBegin := false, refuses := fun _ => false, refusesCommit := false }

/-- A file is saved and edited, and another one cleared. -/
def oneFile : Twin :=
  (Runs.run (step fun path => path) (new .empty)
    [(.saveContext (savedFile "a.rs"), 0), (oneDelta 0, 0), (.clearFile "b.rs", 0)]).getD
      (new .empty)

theorem buffering_transparent_oneFile :
    SameContexts (oneFile.buffered.flush (fun path => path) accepting []).2.inner.committed.tables
      oneFile.direct := by
  have hrun : Runs.run (step fun path => path) (new .empty)
      [(.saveContext (savedFile "a.rs"), 0), (oneDelta 0, 0), (.clearFile "b.rs", 0)] =
        some oneFile := by
    decide
  refine buffering_transparent keyed_empty hrun ⟨trivial, fun s hs => ?_⟩ (by decide)
  cases hs
  refine ⟨fun id directId hid hdirectId => ?_, fun s hs => ?_⟩
  · cases hid
    cases hdirectId
    exact Or.inl (by decide)
  · cases hs
    refine ⟨⟨fun _ => nofun, fun s hs => ?_⟩, fun _ _ => trivial⟩
    cases hs
    exact ⟨fun howned => absurd howned (by decide), fun _ _ => trivial⟩

/-- Two files with the same contents, the second of which is edited. -/
def twoFiles : Twin :=
  (Runs.run (step fun path => path) (new .empty)
    [(.saveContext (savedFile "a.rs"), 0), (.saveContext (savedFile "b.rs"), 0),
      (oneDelta 1, 0)]).getD (new .empty)

/-- In the buffered store the delta lands on the first file. -/
theorem not_buffering_transparent :
    Runs.run (step fun path => path) (new .empty)
      [(.saveContext (savedFile "a.rs"), 0), (.saveContext (savedFile "b.rs"), 0),
        (oneDelta 1, 0)] = some twoFiles ∧
    (twoFiles.buffered.flush (fun path => path) accepting []).1 =
      twoFiles.buffered.pending.length ∧
    ¬SameContexts
      (twoFiles.buffered.flush (fun path => path) accepting []).2.inner.committed.tables
      twoFiles.direct := by
  refine ⟨by decide, by decide, fun h => ?_⟩
  exact absurd ((h "a.rs").2 "ctx-9f3c") (by decide)

end Twin

end Programs

end Sqlite
end CleanCtx
