import Mathlib.Algebra.Ring.Nat
import CleanCtx.Edit.Recovery
import CleanCtx.Sqlite.Rows

/-!
What a load answers. The rows of a context hold a publication if the baseline and the
deltas replay to its tuples and the snapshot at its version carries its edges; a load of
the file then answers the publication.
-/
namespace CleanCtx
namespace Sqlite

open Edit

structure Published where
  tuples : List Tuple
  ir : CompiledIR
  sourceHash : String
  edges : List SemanticEdge
  deriving DecidableEq

def Published.snapshot (p : Published) (filePath : String) : DurableSemanticSnapshot :=
  { filePath, sourceHash := p.sourceHash, version := p.ir.version, edges := p.edges }

namespace SqliteStore

/-- Exactly the call edges carry call evidence, so that the stored edges can be restored. -/
def Evidenced (edges : List SemanticEdge) : Prop :=
  ∀ edge ∈ edges, edge.callEvidence.isSome = true ↔ edge.relation = .calls

def replay (deltas : List DeltaRow) (ir : CompiledIR) : Fallible LoadFailure ContextState :=
  (deltas.map (·.payload)).foldlM replayDelta (ContextState.new.loadIr ir none)

/-- The deltas are numbered from one on, in the order in which they were appended. -/
structure Numbered (deltas : List DeltaRow) : Prop where
  sequences : deltas.map (·.editSequence) = List.range' 1 deltas.length
  bounded : deltas.length < 2 ^ 31

/-- A stored snapshot is that of the publication. -/
structure Carries (stored : SnapshotRow) (owner : String) (p : Published) : Prop where
  filePath : stored.filePath = owner
  sourceHash : stored.sourceHash = p.sourceHash
  version : stored.semanticVersion = asI64 p.ir.version
  snapshot : stored.snapshot = p.snapshot owner

structure RowHolds (row : ContextRow) (deltas : List DeltaRow) (snapshots : List SnapshotRow)
    (p : Published) : Prop where
  numbered : Numbered deltas
  replays : ∃ ir state, Binary.decode row.irBinary = .ok ir ∧ ir.fileId = row.filePath ∧
    replay deltas ir = pure state ∧ state.Stores row.filePath p.tuples p.ir.version
  fileId : p.ir.fileId = row.filePath
  decodes : p.tuples.mapM tupleToOp = some p.ir.instructions
  bounded : p.ir.version.toNat < 2 ^ 63
  sourceHash : row.sourceHash = p.sourceHash
  hashed : p.sourceHash ≠ ""
  evidenced : Evidenced p.edges
  snapshot : ∃ stored, snapshots.find? (·.semanticVersion = asI64 p.ir.version) = some stored ∧
    Carries stored row.filePath p

section Numbered

variable {deltas : List DeltaRow}

theorem Numbered.mem (h : Numbered deltas) {delta : DeltaRow} (hdelta : delta ∈ deltas) :
    delta.editSequence ≤ deltas.length := by
  have hmem : delta.editSequence ∈ List.range' 1 deltas.length :=
    h.sequences ▸ List.mem_map.mpr ⟨delta, hdelta, rfl⟩
  have := List.mem_range'_1.mp hmem
  omega

theorem Numbered.sorted (h : Numbered deltas) :
    deltas.Pairwise fun a b => a.editSequence ≤ b.editSequence := by
  have hrange := List.pairwise_lt_range' (s := 1) (n := deltas.length)
  rw [← h.sequences, List.pairwise_map] at hrange
  exact hrange.imp Nat.le_of_lt

theorem foldl_max_range' (n : Nat) : (List.range' 1 n).foldl max 0 = n := by
  induction n with
  | zero => rfl
  | succ n ih =>
      rw [List.range'_1_concat, List.foldl_append, ih]
      simp
      omega

theorem Numbered.append (h : Numbered deltas) {delta : DeltaRow}
    (hsequence : delta.editSequence = deltas.length + 1) (hbounded : deltas.length + 1 < 2 ^ 31) :
    Numbered (deltas ++ [delta]) where
  sequences := by
    rw [List.map_append, h.sequences, List.length_append, List.length_singleton,
      List.range'_1_concat, List.map_singleton, hsequence, Nat.add_comm 1]
  bounded := by
    rw [List.length_append, List.length_singleton]
    exact hbounded

end Numbered

variable {store : SqliteStore} {row : ContextRow} {p : Published}

theorem deltasUpTo_latest (h : Numbered (store.deltasOf row.id)) :
    store.deltasUpTo row.id none = store.deltasOf row.id := by
  have hall : (store.deltas.filter fun delta => delta.contextId = row.id ∧
      delta.editSequence ≤ ((none : Option UInt32).getD (.ofNat (2 ^ 32 - 1))).toNat) =
      store.deltasOf row.id := by
    refine List.filter_congr fun delta hdelta => ?_
    by_cases hid : delta.contextId = row.id
    · have hle := h.mem (List.mem_filter.mpr ⟨hdelta, decide_eq_true hid⟩)
      have hbounded := h.bounded
      have hlarge : delta.editSequence ≤ 4294967295 := by omega
      simp [hid, hlarge]
    · simp [hid]
  rw [deltasUpTo, hall, h.sorted.insertionSort_eq]

theorem nextSequence_eq {contextId : String} (h : Numbered (store.deltasOf contextId))
    (hbounded : (store.deltasOf contextId).length + 1 < 2 ^ 31) :
    store.nextSequence contextId = (store.deltasOf contextId).length + 1 := by
  have hmax : ((store.deltas.filter (·.contextId = contextId)).map (·.editSequence)).foldl max 0 =
      (store.deltasOf contextId).length := by
    rw [← deltasOf, h.sequences]
    exact foldl_max_range' _
  rw [nextSequence, hmax]
  exact if_pos hbounded

theorem decodeTuples_eq {tuples : List Tuple} {ops : List CoreOp}
    (h : tuples.mapM tupleToOp = some ops) : decodeTuples tuples = pure ops := by
  rw [decodeTuples, h]

/-- A positional delta replays as its applier applies it. -/
theorem replayDelta_sequence {delta : SequenceDelta} {state state' : ContextState} {v : UInt64}
    (h : (ContextState.applySequence delta).call state = .ok (.ok v, state')) :
    replayDelta state (.sequence delta) = pure state' := by
  simp only [replayDelta, h]

theorem replay_append {deltas : List DeltaRow} {delta : DeltaRow} {ir : CompiledIR}
    {state state' : ContextState} (h : replay deltas ir = pure state)
    (hlast : replayDelta state delta.payload = pure state') :
    replay (deltas ++ [delta]) ir = pure state' := by
  rw [replay] at h
  rw [replay, List.map_append, List.foldlM_append, h, pure_bind, List.map_singleton,
    List.foldlM_cons, hlast, pure_bind]
  rfl

theorem Keyed.loadContextWithDeltas (hkeyed : store.Keyed) (hrow : row ∈ store.contexts)
    (h : RowHolds row (store.deltasOf row.id) (store.snapshotsOf row.id) p) :
    store.loadContextWithDeltas row.filePath none = pure (some (p.ir, p.ir.version.toUInt32)) := by
  obtain ⟨ir, state, hdecode, hfile, hreplay, hstored⟩ := h.replays
  rw [replay] at hreplay
  have hir : ({ fileId := row.filePath, instructions := p.ir.instructions,
                version := p.ir.version } : CompiledIR) = p.ir := by
    rw [← h.fileId]
  rw [SqliteStore.loadContextWithDeltas, hkeyed.latestRow hrow]
  simp only [hdecode, hfile, ne_eq, not_true_eq_false, if_false, pure_bind,
    deltasUpTo_latest h.numbered, hreplay, hstored.getIr, hstored.fileVersion, Option.getD_some,
    decodeTuples_eq h.decodes, hir]

theorem asI64_of_lt {version : UInt64} (h : version.toNat < 2 ^ 63) :
    asI64 version = version.toNat := if_pos h

theorem metadataHash_eq (h : row.sourceHash ≠ "") :
    ContextRow.metadataHash row = row.sourceHash :=
  if_neg h

/-- A written snapshot is found at its version, and carries the publication that it is of. -/
theorem find?_written (store : SqliteStore) (p : Published) (contextId filePath : String)
    (identities : Option CompatibilityIdentities) : ∃ stored,
      ((store.writeSemanticSnapshot contextId (p.snapshot filePath) identities).snapshotsOf
        contextId).find? (·.semanticVersion = asI64 p.ir.version) = some stored ∧
      Carries stored filePath p := by
  refine ⟨_, find?_writeSemanticSnapshot store contextId (p.snapshot filePath) identities, ?_⟩
  exact ⟨rfl, rfl, rfl, rfl⟩

theorem find?_snapshots (store : SqliteStore) (contextId : String) (version : Int) :
    store.snapshots.find? (fun snapshot =>
      snapshot.contextId = contextId ∧ snapshot.semanticVersion = version) =
      (store.snapshotsOf contextId).find? (·.semanticVersion = version) := by
  rw [snapshotsOf, List.find?_filter]
  simp

/-- A snapshot that was stored with the publication passes the checks. -/
theorem admitSnapshot_eq {stored : SnapshotRow}
    (h : RowHolds row (store.deltasOf row.id) (store.snapshotsOf row.id) p)
    (hstored : Carries stored row.filePath p) :
    ∃ context, admitSnapshot row.filePath row none p.ir stored = .ok context ∧
      context.ir = p.ir ∧ context.sourceHash = p.sourceHash ∧ context.semanticEdges = p.edges := by
  obtain ⟨hfile, hhash, hversion, hsnapshot⟩ := hstored
  have hedges : stored.snapshot.restoreEdges = .ok p.edges := by
    rw [hsnapshot]
    exact restoreEdges_ok h.evidenced
  have hlatest : p.sourceHash = ContextRow.metadataHash row :=
    ((metadataHash_eq (h.sourceHash ▸ h.hashed)).trans h.sourceHash).symm
  have hfiles : ¬(stored.filePath ≠ row.filePath ∨ stored.snapshot.filePath ≠ row.filePath) := by
    simp [hfile, hsnapshot, Published.snapshot]
  have hhashes : ¬stored.sourceHash ≠ stored.snapshot.sourceHash := by
    simp [hhash, hsnapshot, Published.snapshot]
  have hlatests : ¬((none : Option UInt32).isNone ∧
      stored.snapshot.sourceHash ≠ ContextRow.metadataHash row) := by
    simp [hsnapshot, Published.snapshot, hlatest]
  have hversions : ¬(stored.semanticVersion < 0 ∨
      stored.semanticVersion.toNat ≠ p.ir.version.toNat ∨ stored.snapshot.version ≠ p.ir.version) := by
    rw [hversion, asI64_of_lt h.bounded, hsnapshot]
    simp [Published.snapshot]
  rw [admitSnapshot, if_neg hfiles, if_neg hhashes, if_neg hlatests, if_neg hversions, hedges]
  refine ⟨_, rfl, rfl, ?_, rfl⟩
  rw [hsnapshot, Published.snapshot]

/-- A load of the file answers the publication that its rows hold. -/
theorem Keyed.loadDurableContext (hkeyed : store.Keyed) (hrow : row ∈ store.contexts)
    (h : RowHolds row (store.deltasOf row.id) (store.snapshotsOf row.id) p) :
    ∃ context, store.loadDurableContext row.filePath none = pure (some context) ∧
      context.ir = p.ir ∧ context.sourceHash = p.sourceHash ∧ context.semanticEdges = p.edges := by
  obtain ⟨stored, hfind, hcarries⟩ := h.snapshot
  obtain ⟨context, hpassed, hcontext⟩ := admitSnapshot_eq h hcarries
  refine ⟨context, ?_, hcontext⟩
  rw [SqliteStore.loadDurableContext, hkeyed.latestRow hrow]
  simp only [hkeyed.loadContextWithDeltas hrow h, pure_bind, find?_snapshots]
  rw [hfind]
  simp only [hpassed, Fallible.ofExcept_ok, pure_bind]

end SqliteStore
end Sqlite
end CleanCtx
