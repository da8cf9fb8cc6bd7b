import CleanCtx.Sqlite.Refinement

/-!
The age-based purge of delta rows (`purge_old_deltas`). A load replays every delta row of
the file's context, and each delta that is replayed makes the version grow by what it
declares. So a load that answered still answers the same after a purge exactly if none of
the rows that it replays was old.
-/
namespace CleanCtx
namespace Sqlite

def secondsPerDay : Nat := 24 * 60 * 60

namespace PersistedDelta

def file : PersistedDelta → String
  | sequence delta => delta.file
  | legacy delta => delta.file

def fromVersion : PersistedDelta → UInt64
  | sequence delta => delta.fromVersion
  | legacy delta => delta.fromVersion

def toVersion : PersistedDelta → UInt64
  | sequence delta => delta.toVersion
  | legacy delta => delta.toVersion

def gain (delta : PersistedDelta) : Nat := delta.toVersion.toNat - delta.fromVersion.toNat

end PersistedDelta

namespace SqliteStore

/-- `DELETE FROM deltas WHERE applied_at < datetime('now', '-N days')`, with the number of rows.
A time before the first one that can be written deletes none. -/
def purgeOldDeltas (now : Nat) (days : UInt32) (store : SqliteStore) : SqliteStore × Nat :=
  let cutOff := now - days.toNat * secondsPerDay
  ({ store with deltas := store.deltas.filter fun row => ¬row.appliedAt < cutOff },
    store.deltas.countP fun row => row.appliedAt < cutOff)

/-- What two loads agree on. -/
def Agree (context context' : UntrustedDurableContext) : Prop :=
  context'.ir = context.ir ∧ context'.sourceHash = context.sourceHash ∧
    context'.semanticEdges = context.semanticEdges

/-- None of the deltas that a load of the file replays was applied before the time. -/
def Fresh (store : SqliteStore) (filePath : String) (cutOff : Nat) : Prop :=
  ∀ row, store.latestRow filePath = some row →
    ∀ delta ∈ store.deltasUpTo row.id none, cutOff ≤ delta.appliedAt

variable {store : SqliteStore} {filePath : String} {now : Nat} {days : UInt32}

section Replay

variable {state state' : ContextState} {deltas : List PersistedDelta}

def Holds (state : ContextState) (filePath : String) (version : Nat) : Prop :=
  (∀ other, other ≠ filePath → state.files.lookup other = none) ∧
    ∃ found, state.files.lookup filePath = some found ∧ found.version.toNat = version

theorem replayDelta_call {delta : PersistedDelta} (h : replayDelta state delta = pure state') :
    ∃ v, (match delta with
      | .sequence delta => (ContextState.applySequence delta).call state
      | .legacy delta => (ContextState.apply delta).call state) = .ok (.ok v, state') := by
  unfold replayDelta at h
  dsimp only at h
  split at h
  · cases h
  · cases h
  · next v _ hcall =>
    cases h
    exact ⟨v, hcall⟩

/-- A delta is replayed on the version that it names, and to a later one. -/
theorem replayDelta_ok {delta : PersistedDelta} (h : replayDelta state delta = pure state') :
    (∃ found, state.files.lookup delta.file = some found ∧ found.version = delta.fromVersion ∧
      delta.fromVersion < delta.toVersion) ∧
      ContextState.Published state state' delta.file delta.toVersion := by
  obtain ⟨v, hcall⟩ := replayDelta_call h
  cases delta with
  | sequence delta =>
      obtain ⟨rfl, hpublished⟩ :=
        (ContextState.transacts_applySequence delta state).onSuccess v state' hcall
      refine ⟨?_, hpublished⟩
      dsimp only at hcall
      rw [ContextState.applySequence] at hcall
      split at hcall
      · cases hcall
      · exact ContextState.checked_of_call hcall
  | legacy delta =>
      obtain ⟨rfl, hpublished⟩ :=
        (ContextState.transacts_apply delta state).onSuccess v state' hcall
      exact ⟨ContextState.checked_of_call hcall, hpublished⟩

/-- A replayed delta names the file that is held, at the version that is held. -/
theorem Holds.names {version : Nat} {delta : PersistedDelta} (hstate : Holds state filePath version)
    (h : SqliteStore.replayDelta state delta = pure state') :
    delta.file = filePath ∧ delta.fromVersion.toNat = version := by
  obtain ⟨⟨found, hfound, hfrom, -⟩, -⟩ := replayDelta_ok h
  obtain ⟨hothers, current, hcurrent, hversion⟩ := hstate
  obtain hfile : delta.file = filePath := by
    by_contra hne
    rw [hothers _ hne] at hfound
    cases hfound
  rw [hfile] at hfound
  obtain rfl := Option.some.inj (hcurrent.symm.trans hfound)
  exact ⟨hfile, hfrom ▸ hversion⟩

/-- A replayed delta moves the version by its gain. -/
theorem Holds.replayDelta {version : Nat} {delta : PersistedDelta}
    (hstate : Holds state filePath version)
    (h : SqliteStore.replayDelta state delta = pure state') :
    0 < delta.gain ∧ Holds state' filePath (version + delta.gain) := by
  obtain ⟨rfl, rfl⟩ := hstate.names h
  obtain ⟨⟨-, -, -, hnewer⟩, hpublished⟩ := replayDelta_ok h
  obtain ⟨-, updated, -, hupdated, hto, -⟩ := hpublished.named
  have hlt := UInt64.lt_iff_toNat_lt.mp hnewer
  refine ⟨Nat.sub_pos_of_lt hlt, fun other hother => ?_, updated, hupdated, ?_⟩
  · rw [hpublished.others other hother, hstate.1 other hother]
  · rw [hto, PersistedDelta.gain]
    omega

theorem Holds.replay {version : Nat} (hstate : Holds state filePath version)
    (h : deltas.foldlM SqliteStore.replayDelta state = pure state') :
    (∀ delta ∈ deltas, 0 < delta.gain) ∧
      Holds state' filePath (version + (deltas.map PersistedDelta.gain).sum) := by
  induction deltas generalizing state version with
  | nil =>
      cases h
      exact ⟨nofun, hstate⟩
  | cons delta deltas ih =>
      rw [List.foldlM_cons] at h
      obtain ⟨next, hnext, hrest⟩ := Fallible.bind_eq_pure.mp h
      obtain ⟨hgain, hholds⟩ := hstate.replayDelta hnext
      obtain ⟨hgains, hlast⟩ := ih hholds hrest
      refine ⟨List.forall_mem_cons.mpr ⟨hgain, hgains⟩, ?_⟩
      rw [List.map_cons, List.sum_cons, ← Nat.add_assoc]
      exact hlast

theorem holds_loadIr (ir : CompiledIR) :
    Holds (ContextState.new.loadIr ir none) ir.fileId ir.version.toNat := by
  refine ⟨fun other hother => ?_, _, Finmap.lookup_insert _, ?_⟩
  · exact Finmap.lookup_insert_of_ne _ hother
  · rw [FileState.fromCompiled_version]

end Replay

def gains (store : SqliteStore) (contextId : String) : List Nat :=
  (store.deltasUpTo contextId none).map (·.payload.gain)

theorem loadContextWithDeltas_version {ir : CompiledIR} {version : UInt32} {row : ContextRow}
    (hrow : store.latestRow filePath = some row)
    (h : store.loadContextWithDeltas filePath none = pure (some (ir, version))) :
    ∃ base, Binary.decode row.irBinary = .ok base ∧ (∀ gain ∈ store.gains row.id, 0 < gain) ∧
      ir.version.toNat = base.version.toNat + (store.gains row.id).sum := by
  rw [loadContextWithDeltas, hrow] at h
  dsimp only at h
  split at h
  · cases h
  · next base hdecode =>
    split at h
    · obtain ⟨_, hthrown, -⟩ := Fallible.bind_eq_pure.mp h
      cases hthrown
    · next hfile =>
      obtain ⟨state, hreplay, hrest⟩ := Fallible.bind_eq_pure.mp h
      obtain ⟨instructions, -, hlast⟩ := Fallible.bind_eq_pure.mp hrest
      obtain ⟨hpositive, -, found, hfound, hversion⟩ :=
        (not_not.mp hfile ▸ holds_loadIr base).replay hreplay
      rw [hfound] at hlast
      cases hlast
      rw [List.map_map] at hversion
      refine ⟨base, hdecode, fun gain hgain => ?_, hversion⟩
      obtain ⟨delta, hdelta, rfl⟩ := List.mem_map.mp hgain
      exact hpositive _ (List.mem_map.mpr ⟨delta, hdelta, rfl⟩)

theorem admitSnapshot_ir {row : ContextRow} {ir : CompiledIR} {stored : SnapshotRow}
    {context : UntrustedDurableContext}
    (h : Fallible.ofExcept (admitSnapshot filePath row none ir stored) = pure context) :
    context.ir = ir := by
  have hadmitted : admitSnapshot filePath row none ir stored = .ok context := Except.ok.inj h
  rw [admitSnapshot] at hadmitted
  split at hadmitted
  · cases hadmitted
  split at hadmitted
  · cases hadmitted
  split at hadmitted
  · cases hadmitted
  split at hadmitted
  · cases hadmitted
  cases hedges : stored.snapshot.restoreEdges with
  | error error =>
      rw [hedges] at hadmitted
      cases hadmitted
  | ok edges =>
      rw [hedges] at hadmitted
      cases hadmitted
      rfl

/-- What a load answers is at the version of the baseline and the gains. -/
theorem loadDurableContext_version {context : UntrustedDurableContext} {row : ContextRow}
    (hrow : store.latestRow filePath = some row)
    (h : store.loadDurableContext filePath none = pure (some context)) :
    ∃ base, Binary.decode row.irBinary = .ok base ∧ (∀ gain ∈ store.gains row.id, 0 < gain) ∧
      context.ir.version.toNat = base.version.toNat + (store.gains row.id).sum := by
  rw [loadDurableContext, hrow] at h
  dsimp only at h
  obtain ⟨found, hload, hrest⟩ := Fallible.bind_eq_pure.mp h
  cases found with
  | none => cases hrest
  | some found =>
      obtain ⟨ir, version⟩ := found
      dsimp only at hrest
      split at hrest
      · cases hrest
      · next stored _ =>
        obtain ⟨admitted, hadmitted, hlast⟩ := Fallible.bind_eq_pure.mp hrest
        cases hlast
        rw [admitSnapshot_ir hadmitted]
        exact loadContextWithDeltas_version hrow hload

section Purge

theorem latestRow_purgeOldDeltas (filePath : String) :
    (purgeOldDeltas now days store).1.latestRow filePath = store.latestRow filePath := rfl

/-- The deltas that a load replays after a purge are those of them that it keeps. -/
theorem gains_purgeOldDeltas (contextId : String) :
    ((purgeOldDeltas now days store).1.gains contextId).Perm
      (((store.deltasUpTo contextId none).filter fun delta =>
        ¬delta.appliedAt < now - days.toNat * secondsPerDay).map (·.payload.gain)) := by
  have hkept : ((purgeOldDeltas now days store).1.deltasUpTo contextId none).Perm
      ((store.deltasUpTo contextId none).filter fun delta =>
        ¬delta.appliedAt < now - days.toNat * secondsPerDay) := by
    refine (List.perm_insertionSort _ _).trans ?_
    rw [purgeOldDeltas, List.filter_comm]
    exact ((List.perm_insertionSort _ _).symm).filter _
  exact hkept.map _

theorem deltasUpTo_purgeOldDeltas {contextId : String}
    (h : ∀ delta ∈ store.deltasUpTo contextId none,
      now - days.toNat * secondsPerDay ≤ delta.appliedAt) :
    (purgeOldDeltas now days store).1.deltasUpTo contextId none =
      store.deltasUpTo contextId none := by
  rw [deltasUpTo, deltasUpTo, purgeOldDeltas, List.filter_comm, List.filter_eq_self.mpr]
  intro delta hdelta
  have hle := h delta ((List.mem_insertionSort _).mpr hdelta)
  simpa using hle

theorem loadDurableContext_purgeOldDeltas
    (h : store.Fresh filePath (now - days.toNat * secondsPerDay)) :
    (purgeOldDeltas now days store).1.loadDurableContext filePath none =
      store.loadDurableContext filePath none := by
  rw [loadDurableContext, loadDurableContext, latestRow_purgeOldDeltas]
  cases hrow : store.latestRow filePath with
  | none => rfl
  | some row =>
      rw [loadContextWithDeltas, loadContextWithDeltas, latestRow_purgeOldDeltas, hrow]
      dsimp only
      rw [deltasUpTo_purgeOldDeltas (h row hrow)]
      rfl

/-- A load that answered still answers the same after a purge exactly if none of the deltas that
it replays is older than the cut-off. -/
theorem purgeOldDeltas_keeps_iff (now : Nat) (days : UInt32) {context : UntrustedDurableContext}
    (h : store.loadDurableContext filePath none = pure (some context)) :
    (∃ context', (purgeOldDeltas now days store).1.loadDurableContext filePath none =
        pure (some context') ∧ Agree context context') ↔
      store.Fresh filePath (now - days.toNat * secondsPerDay) := by
  constructor
  · rintro ⟨context', h', hir, -⟩ row hrow delta hdelta
    obtain ⟨base, hbase, hpositive, hversion⟩ := loadDurableContext_version hrow h
    obtain ⟨base', hbase', -, hversion'⟩ :=
      loadDurableContext_version ((latestRow_purgeOldDeltas filePath).trans hrow) h'
    cases hbase.symm.trans hbase'
    rw [hir, hversion, (gains_purgeOldDeltas row.id).sum_eq] at hversion'
    by_contra hold
    have hlost := Lists.sum_map_filter_lt (f := (·.payload.gain))
      (p := fun delta : DeltaRow => ¬delta.appliedAt < now - days.toNat * secondsPerDay) hdelta
      (by simpa using hold) (hpositive _ (List.mem_map.mpr ⟨delta, hdelta, rfl⟩))
    exact Nat.lt_irrefl _ (Nat.add_left_cancel hversion' ▸ hlost)
  · intro hfresh
    exact ⟨context, (loadDurableContext_purgeOldDeltas hfresh).trans h, rfl, rfl, rfl⟩

/-- A file, named by its first letter, is saved at version one and edited at the given time. -/
def saveAndEdit (filePath : String) (letter : UInt8) (sourceHash : String) (now : Nat)
    (store : SqliteStore) : Except StoreError SqliteStore := do
  let (store, contextId) ← saveContextTransaction (fun path => path) now filePath .high ""
    [204, 2, 4, 1, 1, 4, letter, 46, 114, 115, 0, 0] sourceHash 1 [] 0 0 none store
  store.appendDeltaWithSemantics now contextId
    (.sequence
      { deltaVersion := sequenceDeltaVersion, file := filePath, fromVersion := 1, toVersion := 2
        targetHash := none, edits := [], intent := none })
    "edit" "" { filePath, sourceHash := "7b21", version := 2, edges := [] } noIdentities

/-- One file is edited at the start and another one two days later. -/
def editedStore : SqliteStore :=
  let stored : Except StoreError SqliteStore := do
    let store ← saveAndEdit "a.rs" 97 "9f3c" 0 .empty
    saveAndEdit "b.rs" 98 "4d1e" (2 * secondsPerDay) store
  stored.toOption.getD .empty

def answered (m : Fallible LoadFailure (Option UntrustedDurableContext)) :
    Option UntrustedDurableContext :=
  ((ExceptT.run m).toOption.bind Except.toOption).bind id

theorem exists_of_answered {m : Fallible LoadFailure (Option UntrustedDurableContext)}
    (h : (answered m).isSome) : ∃ context, m = pure (some context) := by
  match m with
  | .ok (.ok (some context)) => exact ⟨context, rfl⟩
  | .ok (.ok none) | .ok (.error _) | .error _ => cases h

theorem editedStore_answered : ∀ filePath ∈ ["a.rs", "b.rs"],
    (answered (editedStore.loadDurableContext filePath none)).isSome := by
  decide +kernel

/-- Two days after its edit the file cannot be loaded any more, if a purge takes what is older than
a day. -/
theorem not_purgeOldDeltas_keeps : ∃ context,
    editedStore.loadDurableContext "a.rs" none = pure (some context) ∧
      ¬∃ context', (purgeOldDeltas (2 * secondsPerDay) 1 editedStore).1.loadDurableContext "a.rs"
        none = pure (some context') ∧ Agree context context' := by
  obtain ⟨context, hcontext⟩ := exists_of_answered (editedStore_answered "a.rs" (by simp))
  refine ⟨context, hcontext, ?_⟩
  rintro ⟨context', hcontext', -⟩
  have hnone : (answered ((purgeOldDeltas (2 * secondsPerDay) 1 editedStore).1.loadDurableContext
      "a.rs" none)).isSome = false := by decide +kernel
  rw [hcontext'] at hnone
  cases hnone

/-- A purge that takes the edit of one file leaves the other file alone. -/
theorem purgeOldDeltas_keeps_iff_edited : ∃ context,
    editedStore.loadDurableContext "b.rs" none = pure (some context) ∧
      (purgeOldDeltas (2 * secondsPerDay) 1 editedStore).2 = 1 ∧
      ((∃ context', (purgeOldDeltas (2 * secondsPerDay) 1 editedStore).1.loadDurableContext "b.rs"
          none = pure (some context') ∧ Agree context context') ↔
        editedStore.Fresh "b.rs" (2 * secondsPerDay - (1 : UInt32).toNat * secondsPerDay)) ∧
      editedStore.Fresh "b.rs" (2 * secondsPerDay - (1 : UInt32).toNat * secondsPerDay) := by
  obtain ⟨context, hcontext⟩ := exists_of_answered (editedStore_answered "b.rs" (by simp))
  have hfresh : ∀ row ∈ editedStore.latestRow "b.rs", ∀ delta ∈ editedStore.deltasUpTo row.id none,
      2 * secondsPerDay - (1 : UInt32).toNat * secondsPerDay ≤ delta.appliedAt := by
    decide +kernel
  exact ⟨context, hcontext, by decide +kernel,
    purgeOldDeltas_keeps_iff (2 * secondsPerDay) 1 hcontext, hfresh⟩

end Purge

end SqliteStore
end Sqlite
end CleanCtx
