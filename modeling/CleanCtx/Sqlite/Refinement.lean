import CleanCtx.Library.Runs
import CleanCtx.Sqlite.Loading

/-!
The store refines a map from a file to what was last published of it. A call succeeds or
leaves the tables alone; a successful one changes the map at its own file. The rows of
each file hold its publication along every run whose saves and appends are sound, so a
load always answers the map.
-/
namespace CleanCtx
namespace Sqlite

open Edit

inductive StoreCall
  | save (filePath : String) (fidelity : Fidelity) (compactOutput : String) (irBinary : List UInt8)
      (sourceHash : String) (version : UInt64) (semanticEdges : List SemanticEdge)
      (rawTokens compressedTokens : UInt64) (identities : CompatibilityIdentities)
  | append (contextId : String) (delta : SequenceDelta) (editType compactOutput : String)
      (snapshot : DurableSemanticSnapshot) (identities : CompatibilityIdentities)
  | delete (filePath : String)

/-- A call at its time, with the error that the database gives before the commit. -/
structure Request where
  call : StoreCall
  now : Nat
  fault : Option StoreError

/-- What was last published of each file. -/
abbrev Publications := String → Option Published

namespace Published

def stored (p : Published) : ContextState :=
  { ContextState.new with
    files := ContextState.new.files.insert p.ir.fileId
      { FileState.new p.ir.version with instructions := p.tuples }.rebuildIndexes
    version := p.ir.version }

def saved (irBinary : List UInt8) (sourceHash : String) (edges : List SemanticEdge) :
    Option Published :=
  (Binary.decode irBinary).toOption.map fun ir =>
    { tuples := ir.instructions.map opToTuple, ir, sourceHash, edges }

def append (p : Published) (delta : SequenceDelta) (snapshot : DurableSemanticSnapshot) :
    Option Published :=
  match (ContextState.applySequence delta).call p.stored with
  | .ok (.ok version, state) =>
      let tuples := (state.getIr p.ir.fileId).getD []
      (tuples.mapM tupleToOp).map fun instructions =>
        { tuples
          ir := { fileId := p.ir.fileId, instructions, version }
          sourceHash := snapshot.sourceHash
          edges := snapshot.edges }
  | _ => none

end Published

namespace StoreCall

variable (shortPathHash : String → String)

/-- The body of the call's transaction. -/
def body (now : Nat) (store : SqliteStore) : StoreCall → Except StoreError SqliteStore
  | save filePath fidelity compactOutput irBinary sourceHash version semanticEdges rawTokens
      compressedTokens identities =>
      (store.saveContextTransaction shortPathHash now filePath fidelity compactOutput irBinary
        sourceHash version semanticEdges rawTokens compressedTokens (some identities)).map Prod.fst
  | append contextId delta editType compactOutput snapshot identities =>
      store.appendDeltaWithSemantics now contextId (.sequence delta) editType compactOutput snapshot
        identities
  | delete filePath => .ok (store.deleteContext filePath).1

/-- What a successful call makes of the map. -/
def publishes (map : Publications) : StoreCall → Publications
  | save filePath _ _ irBinary sourceHash _ semanticEdges _ _ _ =>
      Function.update map filePath (Published.saved irBinary sourceHash semanticEdges)
  | append _ delta _ _ snapshot _ =>
      Function.update map snapshot.filePath
        ((map snapshot.filePath).bind fun p => p.append delta snapshot)
  | delete filePath => Function.update map filePath none

/-- A save of an encoded IR of the file, at its version, with a source hash and edges that can be
restored; an append of a delta that applies to the stored state, with a snapshot of the result. -/
def Sound (store : SqliteStore) (map : Publications) : StoreCall → Prop
  | save filePath _ _ irBinary sourceHash version semanticEdges _ _ _ =>
      (∃ ir, Binary.decode irBinary = .ok ir ∧ ir.fileId = filePath ∧ ir.version = version ∧
        ∀ op ∈ ir.instructions, tupleToOp (opToTuple op) = some op) ∧
      version.toNat < 2 ^ 63 ∧ sourceHash ≠ "" ∧ SqliteStore.Evidenced semanticEdges
  | append contextId delta _ _ snapshot _ =>
      ∀ row, store.rowById contextId = some row → row.filePath = snapshot.filePath →
        (∃ p, map snapshot.filePath = some p ∧ ∃ state,
          (ContextState.applySequence delta).call p.stored = .ok (.ok snapshot.version, state)) ∧
        snapshot.version.toNat < 2 ^ 63 ∧ snapshot.sourceHash ≠ "" ∧
        SqliteStore.Evidenced snapshot.edges ∧ (store.deltasOf contextId).length + 1 < 2 ^ 31
  | delete _ => True

end StoreCall

structure Mapped where
  store : SqliteStore
  map : Publications

def Mapped.empty : Mapped := { store := .empty, map := fun _ => none }

section System

variable (shortPathHash : String → String)

def Request.commit (request : Request) (store : SqliteStore) : Except StoreError SqliteStore :=
  match request.fault with
  | some error => .error error
  | none => request.call.body shortPathHash request.now store

def Mapped.step (self : Mapped) (request : Request) : Option Mapped :=
  match request.commit shortPathHash self.store with
  | .error _ => some self
  | .ok store => some { store, map := request.call.publishes self.map }

def Mapped.Sound (self : Mapped) (request : Request) : Prop :=
  request.fault = none → request.call.Sound self.store self.map

end System

def Answers (store : SqliteStore) (filePath : String) (published : Option Published) : Prop :=
  ∃ context, store.loadDurableContext filePath none = pure context ∧
    context.map (fun c => (c.ir, c.sourceHash, c.semanticEdges)) =
      published.map fun p => (p.ir, p.sourceHash, p.edges)

/-- The tables hold the map: the row of each file holds its publication. -/
structure Refines (store : SqliteStore) (map : Publications) : Prop where
  keyed : store.Keyed
  rows : ∀ row ∈ store.contexts, ∃ p, map row.filePath = some p ∧
    SqliteStore.RowHolds row (store.deltasOf row.id) (store.snapshotsOf row.id) p
  named : ∀ filePath p, map filePath = some p → filePath ∈ store.contexts.map (·.filePath)

section Refines

open SqliteStore

variable {store store' : SqliteStore} {map : Publications} {filePath contextId : String}
  {row : ContextRow} {p : Published}

theorem refines_empty : Refines .empty fun _ => none :=
  ⟨keyed_empty, nofun, nofun⟩

theorem Refines.answers (h : Refines store map) (filePath : String) :
    Answers store filePath (map filePath) := by
  cases hp : map filePath with
  | none =>
      have habsent : filePath ∉ store.contexts.map (·.filePath) := by
        intro hmem
        obtain ⟨row, hrow, rfl⟩ := List.mem_map.mp hmem
        obtain ⟨p, hsome, -⟩ := h.rows row hrow
        rw [hp] at hsome
        cases hsome
      refine ⟨none, ?_, rfl⟩
      rw [loadDurableContext, latestRow_eq_none habsent]
  | some p =>
      obtain ⟨row, hrow, rfl⟩ := List.mem_map.mp (h.named filePath p hp)
      obtain ⟨q, hq, hholds⟩ := h.rows row hrow
      cases Option.some.inj (hp.symm.trans hq)
      obtain ⟨context, hload, hir, hhash, hedges⟩ := h.keyed.loadDurableContext hrow hholds
      exact ⟨some context, hload, by simp [hir, hhash, hedges]⟩

theorem Refines.deleteContexts (h : Refines store map) (filePath : String) :
    Refines (store.deleteContexts filePath) (Function.update map filePath none) where
  keyed := h.keyed.deleteContexts filePath
  rows row hrow := by
    obtain ⟨hmem, hfile⟩ := mem_deleteContexts.mp hrow
    obtain ⟨p, hp, hholds⟩ := h.rows row hmem
    refine ⟨p, (Function.update_of_ne hfile _ _).trans hp, ?_⟩
    rwa [h.keyed.deltasOf_deleteContexts hmem hfile, h.keyed.snapshotsOf_deleteContexts hmem hfile]
  named other p hp := by
    have hother : other ≠ filePath := by
      intro heq
      rw [heq, Function.update_self] at hp
      cases hp
    rw [Function.update_of_ne hother] at hp
    obtain ⟨row, hrow, rfl⟩ := List.mem_map.mp (h.named other p hp)
    exact List.mem_map.mpr ⟨row, mem_deleteContexts.mpr ⟨hrow, hother⟩, rfl⟩

theorem Keyed.count_le_one (h : store.Keyed) (filePath : String) :
    (store.contexts.filter (·.filePath = filePath)).length ≤ 1 := by
  by_cases hmem : filePath ∈ store.contexts.map (·.filePath)
  · obtain ⟨row, hrow, rfl⟩ := List.mem_map.mp hmem
    rw [Lists.filter_key h.files hrow]
    rfl
  · have hnil : store.contexts.filter (·.filePath = filePath) = [] :=
      List.filter_eq_nil_iff.mpr fun row hrow heq =>
        hmem (List.mem_map.mpr ⟨row, hrow, of_decide_eq_true heq⟩)
    simp [hnil]

theorem Refines.delete (h : Refines store map) (filePath : String) :
    Refines (store.deleteContext filePath).1 (Function.update map filePath none) := by
  rw [deleteContext]
  dsimp only
  split
  · rename_i hcount
    have hle := Keyed.count_le_one h.keyed filePath
    have hnil : store.contexts.filter (·.filePath = filePath) = [] :=
      List.length_eq_zero_iff.mp (by omega)
    have habsent : map filePath = none := by
      refine Option.eq_none_iff_forall_ne_some.mpr fun p hp => ?_
      obtain ⟨row, hrow, hfile⟩ := List.mem_map.mp (h.named filePath p hp)
      exact List.filter_eq_nil_iff.mp hnil row hrow (decide_eq_true hfile)
    rw [← habsent, Function.update_eq_self]
    exact h
  · have hgone := h.deleteContexts filePath
    exact ⟨⟨hgone.keyed.ids, hgone.keyed.files, hgone.keyed.deltas, hgone.keyed.snapshots⟩,
      hgone.rows, hgone.named⟩

/-- One row takes the place of its file's; the others stay, with the rows that they own. -/
theorem Refines.put (h : Refines store map) (hkeyed : store'.Keyed)
    (hrow : row ∈ store'.contexts)
    (hothers : ∀ other ∈ store'.contexts, other = row ∨ other.filePath ≠ row.filePath ∧
      other ∈ store.contexts ∧ store'.deltasOf other.id = store.deltasOf other.id ∧
        store'.snapshotsOf other.id = store.snapshotsOf other.id)
    (hstay : ∀ other ∈ store.contexts, other.filePath ≠ row.filePath → other ∈ store'.contexts)
    (hholds : RowHolds row (store'.deltasOf row.id) (store'.snapshotsOf row.id) p) :
    Refines store' (Function.update map row.filePath (some p)) where
  keyed := hkeyed
  rows other hother := by
    rcases hothers other hother with rfl | ⟨hfile, hmem, hdeltas, hsnapshots⟩
    · exact ⟨p, Function.update_self _ _ _, hholds⟩
    · obtain ⟨q, hq, hqholds⟩ := h.rows other hmem
      refine ⟨q, (Function.update_of_ne hfile _ _).trans hq, ?_⟩
      rwa [hdeltas, hsnapshots]
  named filePath q hq := by
    by_cases hfile : filePath = row.filePath
    · exact List.mem_map.mpr ⟨row, hrow, hfile.symm⟩
    · rw [Function.update_of_ne hfile] at hq
      obtain ⟨other, hother, rfl⟩ := List.mem_map.mp (h.named filePath q hq)
      exact List.mem_map.mpr ⟨other, hstay other hother hfile, rfl⟩

section Save

variable {shortPathHash : String → String} {now : Nat} {fidelity : Fidelity}
  {compactOutput : String} {irBinary : List UInt8} {sourceHash : String} {version : UInt64}
  {semanticEdges : List SemanticEdge} {rawTokens compressedTokens : UInt64}
  {identities : CompatibilityIdentities}

def setCanonical (identities : CompatibilityIdentities) (row : ContextRow) : ContextRow :=
  { row with
    canonicalConfig := some identities.canonicalConfig
    canonicalProducers := some identities.canonicalProducers }

theorem keepsKeys_setCanonical (identities : CompatibilityIdentities) :
    KeepsKeys (setCanonical identities) :=
  ⟨fun _ => rfl, fun _ => rfl⟩

/-- What a committed save writes: a new row for the file, and the snapshot of its version. -/
theorem saveContextTransaction_ok
    (h : store.saveContextTransaction shortPathHash now filePath fidelity compactOutput irBinary
      sourceHash version semanticEdges rawTokens compressedTokens (some identities) =
      .ok (store', contextId)) :
    ∃ row inserted, row.id = contextId ∧ row.filePath = filePath ∧ row.sourceHash = sourceHash ∧
      row.irBinary = irBinary ∧ (store.deleteContexts filePath).insertContext row = .ok inserted ∧
      store' = (inserted.updateContext contextId (setCanonical identities)).writeSemanticSnapshot
        contextId { filePath, sourceHash, version, edges := semanticEdges } (some identities) := by
  rw [saveContextTransaction, SqliteStore.saveContext] at h
  dsimp only at h
  generalize (if (store.rowById ("ctx-" ++ sourceHash)).any (·.filePath ≠ filePath) then
    "ctx-" ++ sourceHash ++ "-" ++ shortPathHash filePath else "ctx-" ++ sourceHash) = id at h
  cases hinsert : (store.deleteContexts filePath).insertContext
      { id, filePath, sourceHash, fidelity, irBinary, rawTokens, compressedTokens
        contentHash := sourceHash ++ ":" ++ shortPathHash filePath
        prettyText := compactOutput
        updatedAt := now
        canonicalConfig := none
        canonicalProducers := none } with
  | error error =>
      rw [hinsert] at h
      cases h
  | ok inserted =>
      rw [hinsert] at h
      cases h
      exact ⟨_, inserted, rfl, rfl, rfl, rfl, hinsert, rfl⟩

/-- A new baseline holds the IR that it encodes. -/
theorem rowHolds_baseline {snapshots : List SnapshotRow} {ir : CompiledIR}
    (hdecode : Binary.decode row.irBinary = .ok ir) (hfile : ir.fileId = row.filePath)
    (hops : ∀ op ∈ ir.instructions, tupleToOp (opToTuple op) = some op)
    (hversion : ir.version.toNat < 2 ^ 63) (hhashed : row.sourceHash ≠ "")
    (hedges : Evidenced semanticEdges)
    (hsnapshot : ∃ stored,
      snapshots.find? (·.semanticVersion = asI64 ir.version) = some stored ∧
        Carries stored row.filePath ⟨ir.instructions.map opToTuple, ir, row.sourceHash,
          semanticEdges⟩) :
    RowHolds row [] snapshots
      ⟨ir.instructions.map opToTuple, ir, row.sourceHash, semanticEdges⟩ where
  numbered := ⟨rfl, by simp⟩
  replays := ⟨ir, _, hdecode, hfile, rfl, hfile ▸ ContextState.stores_loadIr _ ir none⟩
  fileId := hfile
  decodes := by
    have hround : ∀ ops : List CoreOp, (∀ op ∈ ops, tupleToOp (opToTuple op) = some op) →
        (ops.map opToTuple).mapM tupleToOp = some ops := by
      intro ops h
      refine Lists.mapM_eq_some_iff.mpr ?_
      rw [List.forall₂_map_left_iff]
      exact List.forall₂_same.mpr h
    exact hround ir.instructions hops
  bounded := hversion
  sourceHash := rfl
  hashed := hhashed
  evidenced := hedges
  snapshot := hsnapshot

theorem Refines.save (h : Refines store map)
    (hsound : (StoreCall.save filePath fidelity compactOutput irBinary sourceHash version
      semanticEdges rawTokens compressedTokens identities).Sound store map)
    (hsave : store.saveContextTransaction shortPathHash now filePath fidelity compactOutput irBinary
      sourceHash version semanticEdges rawTokens compressedTokens (some identities) =
      .ok (store', contextId)) :
    Refines store'
      (Function.update map filePath (Published.saved irBinary sourceHash semanticEdges)) := by
  obtain ⟨⟨ir, hdecode, hfile, rfl, hops⟩, hversion, hhashed, hedges⟩ := hsound
  obtain ⟨row, inserted, rfl, rfl, rfl, rfl, hinsert, rfl⟩ := saveContextTransaction_ok hsave
  have hdeleted := h.deleteContexts row.filePath
  obtain ⟨hfresh, rfl⟩ := insertContext_ok hinsert
  have hnofile : row.filePath ∉ (store.deleteContexts row.filePath).contexts.map (·.filePath) := by
    intro hmem
    obtain ⟨other, hother, hsame⟩ := List.mem_map.mp hmem
    exact (mem_deleteContexts.mp hother).2 hsame
  have hkeys := keepsKeys_setCanonical identities
  have hkeyed := (hdeleted.keyed.withContext hfresh hnofile).updateContext hkeys row.id
  have howner : row.id ∈ (((store.deleteContexts row.filePath).withContext row).updateContext row.id
      (setCanonical identities)).contexts.map (·.id) := by
    rw [hkeys.updateContext_ids, withContext_ids]
    exact List.mem_append_right _ (List.mem_singleton_self _)
  have hmem : ∀ other, other ∈ (((store.deleteContexts row.filePath).withContext row).updateContext
      row.id (setCanonical identities)).contexts ↔
      other ∈ (store.deleteContexts row.filePath).contexts ∨ other = setCanonical identities row :=
    fun _ => mem_updateContext_inserted hfresh
  have hsaved : Published.saved row.irBinary row.sourceHash semanticEdges =
      some { tuples := ir.instructions.map opToTuple, ir, sourceHash := row.sourceHash,
             edges := semanticEdges } := by
    rw [Published.saved, hdecode]
    rfl
  rw [hsaved, ← Function.update_idem]
  change Refines _ (Function.update _ (setCanonical identities row).filePath _)
  refine hdeleted.put (hkeyed.writeSemanticSnapshot howner)
    ((hmem (setCanonical identities row)).mpr (Or.inr rfl)) (fun other hother => ?_)
    (fun other hother _ => (hmem _).mpr (Or.inl hother)) ?_
  · rcases (hmem _).mp hother with hold | rfl
    · have hid : other.id ≠ row.id := fun heq => hfresh (List.mem_map.mpr ⟨other, hold, heq⟩)
      exact Or.inr ⟨(mem_deleteContexts.mp hold).2, hold, rfl,
        snapshotsOf_writeSemanticSnapshot_ne hid⟩
    · exact Or.inl rfl
  · rw [deltasOf_writeSemanticSnapshot, deltasOf_updateContext, deltasOf_withContext]
    change RowHolds _ (SqliteStore.deltasOf _ row.id) (SqliteStore.snapshotsOf _ row.id) _
    rw [hdeleted.keyed.deltasOf_fresh hfresh]
    exact rowHolds_baseline hdecode hfile hops hversion hhashed hedges
      (find?_written _ ⟨_, ir, row.sourceHash, semanticEdges⟩ row.id row.filePath _)

end Save

section Append

variable {now : Nat} {delta : SequenceDelta} {editType compactOutput : String}
  {snapshot : DurableSemanticSnapshot} {identities : CompatibilityIdentities}

theorem stored_stores (p : Published) : p.stored.Stores p.ir.fileId p.tuples p.ir.version :=
  ContextState.stores_insert ContextState.new p.ir.fileId
    { FileState.new p.ir.version with instructions := p.tuples } p.ir.version

theorem file_of_call {v : UInt64} {state : ContextState}
    (h : (ContextState.applySequence delta).call p.stored = .ok (.ok v, state)) :
    delta.file = p.ir.fileId := by
  have hmem := ContextState.mem_of_call_applySequence h
  simpa [Published.stored, ContextState.new, Finmap.notMem_empty] using hmem

/-- A delta that applies to the stored state has a publication. -/
theorem append_eq {v : UInt64} {state : ContextState} (snapshot : DurableSemanticSnapshot)
    (h : (ContextState.applySequence delta).call p.stored = .ok (.ok v, state)) :
    v = delta.toVersion ∧ ∃ target ops, ContextState.Accepted delta p.tuples p.ir.version target ∧
      target.mapM tupleToOp = some ops ∧
      p.append delta snapshot = some
        { tuples := target
          ir := { fileId := p.ir.fileId, instructions := ops, version := v }
          sourceHash := snapshot.sourceHash
          edges := snapshot.edges } := by
  have hfile := file_of_call h
  obtain ⟨hv, target, haccepted, hstored⟩ :=
    ContextState.accepted_of_call (hfile ▸ stored_stores p) h
  obtain ⟨ops, hops⟩ := Lists.exists_mapM haccepted.decodes
  refine ⟨hv, target, ops, haccepted, hops, ?_⟩
  rw [Published.append, h]
  dsimp only
  rw [← hfile, hstored.getIr, Option.getD_some, hops]
  rfl

def setAppended (now : Nat) (sourceHash compactOutput : String) (row : ContextRow) : ContextRow :=
  { row with updatedAt := now, sourceHash, prettyText := compactOutput }

/-- What a committed append writes: the delta, and the snapshot of its target version. -/
theorem appendDeltaWithSemantics_ok {payload : PersistedDelta}
    (h : store.appendDeltaWithSemantics now contextId payload editType compactOutput snapshot
      identities = .ok store') :
    ∃ row, store.rowById contextId = some row ∧ row.filePath = snapshot.filePath ∧
      store' = ((store.withDelta ⟨contextId, store.nextSequence contextId, payload,
        some editType, now⟩).updateContext contextId
          (setAppended now snapshot.sourceHash compactOutput)).writeSemanticSnapshot contextId snapshot
            (some identities) := by
  rw [appendDeltaWithSemantics] at h
  cases hrow : store.rowById contextId with
  | none =>
      rw [hrow] at h
      cases h
  | some row =>
      rw [hrow] at h
      dsimp only at h
      split at h
      · cases h
      · rename_i hfile
        cases hdelta : appendDelta now contextId payload (some editType) store with
        | error error =>
            rw [hdelta] at h
            cases h
        | ok appended =>
            rw [hdelta] at h
            cases h
            refine ⟨row, rfl, not_not.mp hfile, ?_⟩
            obtain ⟨-, rfl⟩ := appendDelta_ok hdelta
            rw [KeepsKeys.updateContext_updateContext (f := fun row => { row with updatedAt := now })
              ⟨fun _ => rfl, fun _ => rfl⟩]
            rfl

/-- The rows of a context after an append hold the publication of the appended delta. -/
theorem RowHolds.append {deltas : List DeltaRow} {snapshots snapshots' : List SnapshotRow}
    {row' : ContextRow} {appended : DeltaRow} {p' : Published} {state : ContextState}
    (h : RowHolds row deltas snapshots p) (hfile : row'.filePath = row.filePath)
    (hbinary : row'.irBinary = row.irBinary) (hhash : row'.sourceHash = snapshot.sourceHash)
    (hsequence : appended.editSequence = deltas.length + 1)
    (hpayload : appended.payload = .sequence delta)
    (hcall : (ContextState.applySequence delta).call p.stored = .ok (.ok snapshot.version, state))
    (hp' : p.append delta snapshot = some p')
    (hbounded : deltas.length + 1 < 2 ^ 31) (hversion : snapshot.version.toNat < 2 ^ 63)
    (hhashed : snapshot.sourceHash ≠ "") (hedges : Evidenced snapshot.edges)
    (hsnapshot : ∃ stored,
      snapshots'.find? (·.semanticVersion = asI64 p'.ir.version) = some stored ∧
        Carries stored row'.filePath p') :
    RowHolds row' (deltas ++ [appended]) snapshots' p' := by
  obtain ⟨hv, target, ops, haccepted, hops, happend⟩ := append_eq snapshot hcall
  rw [happend] at hp'
  cases hp'
  obtain ⟨ir, before, hdecode, hirFile, hreplay, hstored⟩ := h.replays
  have hnamed : delta.file = row.filePath := (file_of_call hcall).trans h.fileId
  obtain ⟨after, hafter, hafterStored⟩ := haccepted.call (hnamed ▸ hstored)
  have hlast : replayDelta before appended.payload = pure after := by
    rw [hpayload]
    exact replayDelta_sequence hafter
  exact
    { numbered := h.numbered.append hsequence hbounded
      replays := ⟨ir, after, hbinary ▸ hdecode, hfile ▸ hirFile, replay_append hreplay hlast, by
        rw [hfile, ← hnamed, hv]
        exact hafterStored⟩
      fileId := h.fileId.trans hfile.symm
      decodes := hops
      bounded := hversion
      sourceHash := hhash
      hashed := hhashed
      evidenced := hedges
      snapshot := hsnapshot }

theorem Refines.append (h : Refines store map)
    (hsound : (StoreCall.append contextId delta editType compactOutput snapshot identities).Sound
      store map)
    (happend : store.appendDeltaWithSemantics now contextId (.sequence delta) editType compactOutput
      snapshot identities = .ok store') :
    Refines store' (Function.update map snapshot.filePath
      ((map snapshot.filePath).bind fun p => p.append delta snapshot)) := by
  obtain ⟨row, hfound, hfile, rfl⟩ := appendDeltaWithSemantics_ok happend
  obtain ⟨hrow, rfl⟩ := rowById_mem hfound
  obtain ⟨⟨p, hp, state, hcall⟩, hversion, hhashed, hedges, hbounded⟩ := hsound row hfound hfile
  obtain ⟨q, hq, hholds⟩ := h.rows row hrow
  rw [hfile, hp] at hq
  cases hq
  have howner : row.id ∈ store.contexts.map (·.id) := List.mem_map.mpr ⟨row, hrow, rfl⟩
  have hsequence := nextSequence_eq hholds.numbered hbounded
  obtain ⟨hv, target, ops, haccepted, hops, hp'⟩ := append_eq snapshot hcall
  have hbind : ((map snapshot.filePath).bind fun p => p.append delta snapshot) =
      some ⟨target, ⟨p.ir.fileId, ops, snapshot.version⟩, snapshot.sourceHash, snapshot.edges⟩ := by
    rw [hp]
    exact hp'
  generalize hd : (⟨row.id, store.nextSequence row.id, .sequence delta, some editType, now⟩ : DeltaRow) = d
  have hdid : d.contextId = row.id := by rw [← hd]
  have hkeys : KeepsKeys (setAppended now snapshot.sourceHash compactOutput) :=
    ⟨fun _ => rfl, fun _ => rfl⟩
  have hdelta : (store.withDelta d).Keyed := h.keyed.withDelta (hdid ▸ howner)
  have hkeyed := hdelta.updateContext hkeys row.id
  have howner' : row.id ∈ ((store.withDelta d).updateContext row.id
      (setAppended now snapshot.sourceHash compactOutput)).contexts.map (·.id) := by
    rw [hkeys.updateContext_ids]
    exact howner
  have hmem : ∀ other, other ∈ ((store.withDelta d).updateContext row.id
      (setAppended now snapshot.sourceHash compactOutput)).contexts ↔
      other ∈ store.contexts ∧ other.id ≠ row.id ∨
        other = setAppended now snapshot.sourceHash compactOutput row :=
    fun _ => hdelta.mem_updateContext hrow
  rw [hbind, ← hfile]
  change Refines _ (Function.update _
    (setAppended now snapshot.sourceHash compactOutput row).filePath _)
  refine h.put (hkeyed.writeSemanticSnapshot howner') ((hmem _).mpr (Or.inr rfl))
    (fun other hother => ?_) (fun other hother hne => ?_) ?_
  · rcases (hmem other).mp hother with ⟨hold, hid⟩ | rfl
    · refine Or.inr ⟨fun hsame => hid ?_, hold, ?_, snapshotsOf_writeSemanticSnapshot_ne hid⟩
      · rw [h.keyed.eq_of_file hold hrow hsame]
      · rw [deltasOf_writeSemanticSnapshot, deltasOf_updateContext, deltasOf_withDelta, hdid,
          if_neg (Ne.symm hid), List.append_nil]
    · exact Or.inl rfl
  · refine (hmem other).mpr (Or.inl ⟨hother, fun hid => hne ?_⟩)
    rw [h.keyed.eq_of_id hother hrow hid]
    rfl
  · rw [deltasOf_writeSemanticSnapshot, deltasOf_updateContext]
    change RowHolds _ ((store.withDelta d).deltasOf row.id) (SqliteStore.snapshotsOf _ row.id) _
    rw [deltasOf_withDelta, if_pos hdid]
    refine RowHolds.append hholds rfl rfl rfl (by rw [← hd, hsequence]) (by rw [← hd]) hcall hp'
      hbounded hversion hhashed hedges ?_
    change ∃ stored, _ ∧ Carries stored row.filePath _
    rw [hfile]
    exact find?_written _ ⟨target, ⟨p.ir.fileId, ops, snapshot.version⟩, snapshot.sourceHash,
      snapshot.edges⟩ row.id snapshot.filePath _

end Append

/-- A committed call keeps the tables and the map together. -/
theorem Refines.body {shortPathHash : String → String} {now : Nat} {call : StoreCall}
    (h : Refines store map) (hsound : call.Sound store map)
    (hbody : call.body shortPathHash now store = .ok store') :
    Refines store' (call.publishes map) := by
  cases call with
  | save filePath fidelity compactOutput irBinary sourceHash version semanticEdges rawTokens
      compressedTokens identities =>
      rw [StoreCall.body] at hbody
      cases hsave : store.saveContextTransaction shortPathHash now filePath fidelity compactOutput
          irBinary sourceHash version semanticEdges rawTokens compressedTokens (some identities) with
      | error error =>
          rw [hsave] at hbody
          cases hbody
      | ok saved =>
          rw [hsave] at hbody
          cases hbody
          exact h.save hsound hsave
  | append => exact h.append hsound hbody
  | delete filePath =>
      cases hbody
      exact h.delete filePath

theorem Refines.step {shortPathHash : String → String} {self next : Mapped} {request : Request}
    (h : Refines self.store self.map) (hsound : self.Sound request)
    (hstep : self.step shortPathHash request = some next) : Refines next.store next.map := by
  rw [Mapped.step, Request.commit] at hstep
  cases hfault : request.fault with
  | some error =>
      rw [hfault] at hstep
      cases hstep
      exact h
  | none =>
      rw [hfault] at hstep
      dsimp only at hstep
      cases hbody : request.call.body shortPathHash request.now self.store with
      | error error =>
          rw [hbody] at hstep
          cases hstep
          exact h
      | ok store =>
          rw [hbody] at hstep
          cases hstep
          exact h.body (hsound hfault) hbody

end Refines

/-- Along every run of saves, appends and deletes whose requests are sound, a load of any file
answers what the last successful save or append published of it, or nothing after a delete. -/
theorem load_refines_publications (shortPathHash : String → String) (requests : List Request)
    (self : Mapped)
    (hsound : Runs.Along (Mapped.step shortPathHash) Mapped.Sound .empty requests)
    (hrun : Runs.run (Mapped.step shortPathHash) .empty requests = some self) (filePath : String) :
    Answers self.store filePath (self.map filePath) := by
  have hrefines : Refines self.store self.map :=
    Runs.invariant_along (fun _ _ _ h hsound hstep => Refines.step h hsound hstep) refines_empty
      hsound hrun
  exact hrefines.answers filePath

/-- A save of a file without instructions; the version is written as the binary has it. -/
def emptySave (versionBytes : List UInt8) (version : UInt64) : Request :=
  { call := .save "a.rs" .high "" ([204, 2, 4] ++ versionBytes ++ [1, 4, 97, 46, 114, 115, 0, 0])
      "9f3c" version [] 0 0
      { canonicalConfig := "", canonicalProducers := "", semanticConfig := "",
        semanticProducers := "" }
    now := 0
    fault := none }

def noIdentities : CompatibilityIdentities :=
  { canonicalConfig := "", canonicalProducers := "", semanticConfig := "", semanticProducers := "" }

def shapeSave (filePath : String) (letter : UInt8) : Request :=
  { call := .save filePath .high ""
      [204, 2, 4, 1, 7, 5, 68, 69, 70, 95, 67, 2, 67, 49, 5, 83, 104, 97, 112, 101, 5, 68, 69, 70,
        95, 77, 2, 77, 49, 4, 97, 114, 101, 97, 4, letter, 46, 114, 115, 6, 2, 0, 1, 2, 1, 1, 4, 5]
      "9f3c" 1
      [{ relation := .injects
         subject := { domain := "spring", entityType := "Service", name := "Shape", file := none }
         object := { domain := "spring", entityType := "Service", name := "Canvas", file := none }
         layer := "spring"
         callEvidence := none }]
      0 0 noIdentities
    now := 0
    fault := none }

def shapeRenamed : SequenceDelta :=
  let key : OccurrenceKey := { identity := { opcode := .defClass, key := ["DEF_C", "C1"] }, occurrence := 0 }
  { deltaVersion := sequenceDeltaVersion
    file := "a.rs"
    fromVersion := 1
    toVersion := 2
    targetHash := none
    edits := [.replace 0 key ["DEF_C", "C1", "Shape"] key ["DEF_C", "C1", "Circle"]]
    intent := none }

/-- Two files of one hash are saved, an edit of the first one is appended, and the second one is
deleted. -/
def shapeRequests : List Request := [
  shapeSave "a.rs" 97,
  shapeSave "b.rs" 98,
  { call := .append "ctx-9f3c" shapeRenamed "edit" ""
      { filePath := "a.rs", sourceHash := "7b21", version := 2, edges := [] } noIdentities
    now := 1
    fault := none },
  { call := .delete "b.rs", now := 2, fault := none }]

theorem sound_shapeSave (self : Mapped) {filePath : String} {letter : UInt8}
    (h : (filePath, letter) = ("a.rs", 97) ∨ (filePath, letter) = ("b.rs", 98)) :
    self.Sound (shapeSave filePath letter) := by
  have hops : ∀ op ∈ [CoreOp.defClass "C1" "Shape", .defMethod "C1" "M1" "area"],
      tupleToOp (opToTuple op) = some op := by
    decide +kernel
  intro _
  refine ⟨⟨⟨filePath, [.defClass "C1" "Shape", .defMethod "C1" "M1" "area"], 1⟩, ?_, rfl, rfl, hops⟩,
    by decide, by decide, fun edge hedge => ?_⟩
  · obtain h | h := h <;> cases h <;> decide +kernel
  · obtain rfl := List.mem_singleton.mp hedge
    decide

/-- What the saves of the two files lead to. -/
def twoShapes : Mapped :=
  (Runs.run (Mapped.step fun path => path) .empty
    [shapeSave "a.rs" 97, shapeSave "b.rs" 98]).getD .empty

theorem ok_of_toOption {ε α : Type} {r : Except ε α} {a : α} (h : r.toOption = some a) :
    r = .ok a := by
  cases r with
  | error e => cases h
  | ok b => exact congrArg Except.ok (Option.some.inj h)

theorem sound_shapeRenamed : twoShapes.Sound {
    call := .append "ctx-9f3c" shapeRenamed "edit" ""
      { filePath := "a.rs", sourceHash := "7b21", version := 2, edges := [] } noIdentities
    now := 1
    fault := none } := by
  have hcall : ((twoShapes.map "a.rs").bind fun p =>
      ((ContextState.applySequence shapeRenamed).call p.stored).toOption.bind fun r =>
        r.1.toOption) = some 2 := by
    decide +kernel
  obtain ⟨p, hp, hanswer⟩ := Option.bind_eq_some_iff.mp hcall
  obtain ⟨⟨answer, state⟩, hstate, hversion⟩ := Option.bind_eq_some_iff.mp hanswer
  intro _ row _ _
  refine ⟨⟨p, hp, state, ?_⟩, by decide, by decide, List.forall_mem_nil _, by decide +kernel⟩
  rw [ok_of_toOption hstate]
  exact congrArg (fun answer => Except.ok (answer, state)) (ok_of_toOption hversion)

theorem load_refines_publications_shapes : ∃ self,
    Runs.run (Mapped.step fun path => path) .empty shapeRequests = some self ∧
      (self.map "a.rs").map (fun p => (p.ir.version, p.sourceHash)) = some (2, "7b21") ∧
      (self.map "b.rs").isNone ∧ ∀ filePath, Answers self.store filePath (self.map filePath) := by
  have hsound : Runs.Along (Mapped.step fun path => path) Mapped.Sound .empty shapeRequests := by
    refine ⟨sound_shapeSave _ (.inl rfl), fun first hfirst => ⟨sound_shapeSave _ (.inr rfl),
      fun second hsecond => ⟨?_, fun _ _ => ⟨fun _ => trivial, fun _ _ => trivial⟩⟩⟩⟩
    cases hfirst
    cases hsecond
    exact sound_shapeRenamed
  obtain ⟨self, hrun⟩ : ∃ self, Runs.run (Mapped.step fun path => path) .empty shapeRequests =
      some self := ⟨_, rfl⟩
  have hmap : (Runs.run (Mapped.step fun path => path) .empty shapeRequests).map (fun self =>
      ((self.map "a.rs").map (fun p => (p.ir.version, p.sourceHash)), (self.map "b.rs").isNone)) =
        some (some (2, "7b21"), true) := by
    decide +kernel
  rw [hrun] at hmap
  obtain ⟨hfirst, hsecond⟩ := Prod.mk.inj (Option.some.inj hmap)
  exact ⟨self, hrun, hfirst, hsecond,
    load_refines_publications (fun path => path) shapeRequests self hsound hrun⟩

theorem not_answers_of_failed {store : SqliteStore} {filePath : String}
    (h : ((ExceptT.run (store.loadDurableContext filePath none)).toOption.bind
      Except.toOption).isNone) (published : Option Published) : ¬Answers store filePath published := by
  rintro ⟨context, hload, -⟩
  rw [hload] at h
  cases h

/-- A save at version 2^63 succeeds, and then its file cannot be loaded: the version column holds
the signed number, which the load refuses. -/
theorem not_load_refines_publications_signed : ∃ self,
    Runs.run (Mapped.step fun path => path) .empty
        [emptySave [128, 128, 128, 128, 128, 128, 128, 128, 128, 1] 9223372036854775808] =
          some self ∧
      (self.map "a.rs").map (·.ir.version) = some 9223372036854775808 ∧
      ¬Answers self.store "a.rs" (self.map "a.rs") :=
  ⟨_, rfl, by decide +kernel, not_answers_of_failed (by decide +kernel) _⟩

end Sqlite
end CleanCtx
