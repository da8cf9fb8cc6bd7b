import CleanCtx.Library.Lists
import CleanCtx.Ir.StoredReplay
import CleanCtx.Sqlite.Store

/-!
The keys of the tables. A context is found by its id and by its file, and the deltas and
the snapshots of a context are its own rows: each statement leaves the rows of the other
contexts alone. These facts need no condition on what a statement writes.
-/
namespace CleanCtx
namespace Sqlite
namespace SqliteStore

def deltasOf (store : SqliteStore) (contextId : String) : List DeltaRow :=
  store.deltas.filter (·.contextId = contextId)

def snapshotsOf (store : SqliteStore) (contextId : String) : List SnapshotRow :=
  store.snapshots.filter (·.contextId = contextId)

/-- The ids are unique, a file has one row, and every other row belongs to a context. -/
structure Keyed (store : SqliteStore) : Prop where
  ids : (store.contexts.map (·.id)).Nodup
  files : (store.contexts.map (·.filePath)).Nodup
  deltas : ∀ delta ∈ store.deltas, delta.contextId ∈ store.contexts.map (·.id)
  snapshots : ∀ snapshot ∈ store.snapshots, snapshot.contextId ∈ store.contexts.map (·.id)

theorem keyed_empty : empty.Keyed :=
  ⟨List.nodup_nil, List.nodup_nil, fun _ h => absurd h List.not_mem_nil,
    fun _ h => absurd h List.not_mem_nil⟩

variable {store store' : SqliteStore} {row : ContextRow} {filePath contextId : String}

section Lookup

theorem Keyed.latestRow (h : store.Keyed) (hrow : row ∈ store.contexts) :
    store.latestRow row.filePath = some row := by
  rw [SqliteStore.latestRow, Lists.filter_key h.files hrow]
  rfl

theorem latestRow_eq_none (h : filePath ∉ store.contexts.map (·.filePath)) :
    store.latestRow filePath = none := by
  have hnil : store.contexts.filter (·.filePath = filePath) = [] := by
    refine List.filter_eq_nil_iff.mpr fun row hrow heq => h ?_
    exact List.mem_map.mpr ⟨row, hrow, of_decide_eq_true heq⟩
  rw [SqliteStore.latestRow, hnil]
  rfl

theorem rowById_mem (h : store.rowById contextId = some row) :
    row ∈ store.contexts ∧ row.id = contextId := by
  rw [rowById] at h
  have hid := List.find?_some h
  exact ⟨List.mem_of_find?_eq_some h, of_decide_eq_true hid⟩

theorem Keyed.eq_of_id (h : store.Keyed) {row' : ContextRow} (hrow : row ∈ store.contexts)
    (hrow' : row' ∈ store.contexts) (hid : row.id = row'.id) : row = row' :=
  List.inj_on_of_nodup_map h.ids hrow hrow' hid

theorem Keyed.eq_of_file (h : store.Keyed) {row' : ContextRow} (hrow : row ∈ store.contexts)
    (hrow' : row' ∈ store.contexts) (hfile : row.filePath = row'.filePath) : row = row' :=
  List.inj_on_of_nodup_map h.files hrow hrow' hfile

end Lookup

section DeleteContexts

/-- The ids that go with a file are not those of the rows that stay. -/
theorem Keyed.not_gone (h : store.Keyed) (hrow : row ∈ store.contexts)
    (hfile : row.filePath ≠ filePath) :
    row.id ∉ (store.contexts.filter (·.filePath = filePath)).map (·.id) := by
  intro hgone
  obtain ⟨other, hother, hid⟩ := List.mem_map.mp hgone
  obtain ⟨hmem, hpath⟩ := List.mem_filter.mp hother
  cases h.eq_of_id hmem hrow hid
  exact hfile (of_decide_eq_true hpath)

theorem mem_deleteContexts :
    row ∈ (store.deleteContexts filePath).contexts ↔
      row ∈ store.contexts ∧ row.filePath ≠ filePath := by
  simp [deleteContexts]

theorem Keyed.deltasOf_deleteContexts (h : store.Keyed) (hrow : row ∈ store.contexts)
    (hfile : row.filePath ≠ filePath) :
    (store.deleteContexts filePath).deltasOf row.id = store.deltasOf row.id := by
  have hkeep := h.not_gone hrow hfile
  simp only [deltasOf, deleteContexts, List.filter_filter]
  refine List.filter_congr fun delta _ => ?_
  by_cases hid : delta.contextId = row.id
  · rw [hid]
    simp [hkeep]
  · simp [hid]

theorem Keyed.snapshotsOf_deleteContexts (h : store.Keyed) (hrow : row ∈ store.contexts)
    (hfile : row.filePath ≠ filePath) :
    (store.deleteContexts filePath).snapshotsOf row.id = store.snapshotsOf row.id := by
  have hkeep := h.not_gone hrow hfile
  simp only [snapshotsOf, deleteContexts, List.filter_filter]
  refine List.filter_congr fun snapshot _ => ?_
  by_cases hid : snapshot.contextId = row.id
  · rw [hid]
    simp [hkeep]
  · simp [hid]

/-- An owner that does not go is among the rows that stay. -/
theorem owner_stays
    (howner : contextId ∈ store.contexts.map (·.id))
    (hkeep : contextId ∉ (store.contexts.filter (·.filePath = filePath)).map (·.id)) :
    contextId ∈ (store.deleteContexts filePath).contexts.map (·.id) := by
  obtain ⟨row, hrow, rfl⟩ := List.mem_map.mp howner
  refine List.mem_map.mpr ⟨row, mem_deleteContexts.mpr ⟨hrow, fun hfile => hkeep ?_⟩, rfl⟩
  exact List.mem_map.mpr ⟨row, List.mem_filter.mpr ⟨hrow, decide_eq_true hfile⟩, rfl⟩

theorem Keyed.deleteContexts (h : store.Keyed) (filePath : String) :
    (store.deleteContexts filePath).Keyed where
  ids := h.ids.sublist (List.filter_sublist.map _)
  files := h.files.sublist (List.filter_sublist.map _)
  deltas delta hdelta := by
    obtain ⟨hmem, hkeep⟩ := List.mem_filter.mp hdelta
    exact owner_stays (h.deltas delta hmem) (of_decide_eq_true hkeep)
  snapshots snapshot hsnapshot := by
    obtain ⟨hmem, hkeep⟩ := List.mem_filter.mp hsnapshot
    exact owner_stays (h.snapshots snapshot hmem) (of_decide_eq_true hkeep)

end DeleteContexts

section InsertContext

def withContext (store : SqliteStore) (row : ContextRow) : SqliteStore :=
  { store with contexts := store.contexts ++ [row] }

@[simp] theorem deltasOf_withContext (id : String) :
    (store.withContext row).deltasOf id = store.deltasOf id := rfl

@[simp] theorem snapshotsOf_withContext (id : String) :
    (store.withContext row).snapshotsOf id = store.snapshotsOf id := rfl

theorem withContext_ids : (store.withContext row).contexts.map (·.id) =
    store.contexts.map (·.id) ++ [row.id] := List.map_append

theorem insertContext_ok (h : store.insertContext row = .ok store') :
    row.id ∉ store.contexts.map (·.id) ∧
      store' = store.withContext row := by
  rw [insertContext] at h
  split at h
  · cases h
  · rename_i hid
    split at h
    · cases h
    · cases h
      refine ⟨fun hmem => hid ?_, rfl⟩
      obtain ⟨other, hother, heq⟩ := List.mem_map.mp hmem
      exact List.any_eq_true.mpr ⟨other, hother, decide_eq_true heq⟩

theorem Keyed.withContext (h : store.Keyed) (hid : row.id ∉ store.contexts.map (·.id))
    (hfile : row.filePath ∉ store.contexts.map (·.filePath)) : (store.withContext row).Keyed where
  ids := by
    rw [withContext_ids]
    exact h.ids.append (List.nodup_singleton _) (by simpa using hid)
  files := by
    rw [SqliteStore.withContext, List.map_append]
    exact h.files.append (List.nodup_singleton _) (by simpa using hfile)
  deltas delta hdelta := by
    rw [withContext_ids]
    exact List.mem_append_left _ (h.deltas delta hdelta)
  snapshots snapshot hsnapshot := by
    rw [withContext_ids]
    exact List.mem_append_left _ (h.snapshots snapshot hsnapshot)

theorem Keyed.deltasOf_fresh (h : store.Keyed) (hid : contextId ∉ store.contexts.map (·.id)) :
    store.deltasOf contextId = [] :=
  List.filter_eq_nil_iff.mpr fun delta hdelta heq =>
    hid (of_decide_eq_true heq ▸ h.deltas delta hdelta)

end InsertContext

section UpdateContext

variable {f : ContextRow → ContextRow}

/-- An update that keeps the keys of the row. -/
structure KeepsKeys (f : ContextRow → ContextRow) : Prop where
  id : ∀ row, (f row).id = row.id
  filePath : ∀ row, (f row).filePath = row.filePath

theorem KeepsKeys.updateContext_ids (h : KeepsKeys f) (store : SqliteStore) (contextId : String) :
    (store.updateContext contextId f).contexts.map (·.id) = store.contexts.map (·.id) := by
  rw [updateContext, List.map_map]
  refine List.map_congr_left fun row _ => ?_
  simp only [Function.comp_apply]
  split
  · exact h.id row
  · rfl

theorem KeepsKeys.updateContext_files (h : KeepsKeys f) (store : SqliteStore) (contextId : String) :
    (store.updateContext contextId f).contexts.map (·.filePath) =
      store.contexts.map (·.filePath) := by
  rw [updateContext, List.map_map]
  refine List.map_congr_left fun row _ => ?_
  simp only [Function.comp_apply]
  split
  · exact h.filePath row
  · rfl

theorem Keyed.updateContext (h : store.Keyed) (hf : KeepsKeys f) (contextId : String) :
    (store.updateContext contextId f).Keyed where
  ids := (hf.updateContext_ids store contextId).symm ▸ h.ids
  files := (hf.updateContext_files store contextId).symm ▸ h.files
  deltas delta hdelta := (hf.updateContext_ids store contextId).symm ▸ h.deltas delta hdelta
  snapshots snapshot hsnapshot :=
    (hf.updateContext_ids store contextId).symm ▸ h.snapshots snapshot hsnapshot

theorem mem_updateContext :
    row ∈ (store.updateContext contextId f).contexts ↔
      ∃ old ∈ store.contexts, (if old.id = contextId then f old else old) = row := by
  simp [updateContext]

/-- An update of the row that was inserted leaves the earlier rows. -/
theorem mem_updateContext_inserted (hid : row.id ∉ store.contexts.map (·.id)) {other : ContextRow} :
    other ∈ ((store.withContext row).updateContext row.id f).contexts ↔
      other ∈ store.contexts ∨ other = f row := by
  have hold : ∀ old ∈ store.contexts, old.id ≠ row.id := fun old hmem heq =>
    hid (List.mem_map.mpr ⟨old, hmem, heq⟩)
  rw [mem_updateContext]
  constructor
  · rintro ⟨old, hmem, rfl⟩
    rcases List.mem_append.mp hmem with hmem | hnew
    · exact Or.inl (by rwa [if_neg (hold old hmem)])
    · cases List.mem_singleton.mp hnew
      exact Or.inr (if_pos rfl)
  · rintro (hmem | rfl)
    · exact ⟨other, List.mem_append_left _ hmem, if_neg (hold other hmem)⟩
    · exact ⟨row, List.mem_append_right _ (List.mem_singleton_self row), if_pos rfl⟩

theorem Keyed.mem_updateContext (h : store.Keyed) (hrow : row ∈ store.contexts)
    {other : ContextRow} : other ∈ (store.updateContext row.id f).contexts ↔
      other ∈ store.contexts ∧ other.id ≠ row.id ∨ other = f row := by
  rw [SqliteStore.mem_updateContext]
  constructor
  · rintro ⟨old, hold, rfl⟩
    by_cases hid : old.id = row.id
    · cases h.eq_of_id hold hrow hid
      exact Or.inr (if_pos rfl)
    · rw [if_neg hid]
      exact Or.inl ⟨hold, hid⟩
  · rintro (⟨hmem, hid⟩ | rfl)
    · exact ⟨other, hmem, if_neg hid⟩
    · exact ⟨row, hrow, if_pos rfl⟩

theorem KeepsKeys.updateContext_updateContext (hf : KeepsKeys f) (g : ContextRow → ContextRow) :
    (store.updateContext contextId f).updateContext contextId g =
      store.updateContext contextId (g ∘ f) := by
  simp only [updateContext, List.map_map]
  congr 1
  refine List.map_congr_left fun old _ => ?_
  by_cases hid : old.id = contextId
  · simp [hid, hf.id]
  · simp [hid]

@[simp] theorem deltasOf_updateContext (id : String) :
    (store.updateContext contextId f).deltasOf id = store.deltasOf id := rfl

@[simp] theorem snapshotsOf_updateContext (id : String) :
    (store.updateContext contextId f).snapshotsOf id = store.snapshotsOf id := rfl

end UpdateContext

section WriteSemanticSnapshot

variable {snapshot : Edit.DurableSemanticSnapshot} {identities : Option Edit.CompatibilityIdentities}

theorem Keyed.writeSemanticSnapshot (h : store.Keyed)
    (howner : contextId ∈ store.contexts.map (·.id)) :
    (store.writeSemanticSnapshot contextId snapshot identities).Keyed where
  ids := h.ids
  files := h.files
  deltas := h.deltas
  snapshots := by
    intro stored hstored
    rcases List.mem_append.mp hstored with hold | hnew
    · exact h.snapshots stored (List.mem_of_mem_filter hold)
    · cases List.mem_singleton.mp hnew
      exact howner

@[simp] theorem deltasOf_writeSemanticSnapshot (id : String) :
    (store.writeSemanticSnapshot contextId snapshot identities).deltasOf id = store.deltasOf id :=
  rfl

theorem snapshotsOf_writeSemanticSnapshot_ne {id : String} (h : id ≠ contextId) :
    (store.writeSemanticSnapshot contextId snapshot identities).snapshotsOf id =
      store.snapshotsOf id := by
  simp only [snapshotsOf, writeSemanticSnapshot, List.filter_append, List.filter_filter]
  have hnew : ¬contextId = id := fun heq => h heq.symm
  rw [List.filter_cons_of_neg (by simpa using hnew), List.filter_nil, List.append_nil]
  refine List.filter_congr fun stored _ => ?_
  by_cases hid : stored.contextId = id
  · simp [hid, h]
  · simp [hid]

/-- The written snapshot is the one found at its version. -/
theorem find?_writeSemanticSnapshot (store : SqliteStore) (contextId : String)
    (snapshot : Edit.DurableSemanticSnapshot) (identities : Option Edit.CompatibilityIdentities) :
    ((store.writeSemanticSnapshot contextId snapshot identities).snapshotsOf contextId).find?
        (·.semanticVersion = asI64 snapshot.version) =
      some
        { contextId
          filePath := snapshot.filePath
          sourceHash := snapshot.sourceHash
          semanticVersion := asI64 snapshot.version
          snapshot
          semanticConfig := identities.map (·.semanticConfig)
          semanticProducers := identities.map (·.semanticProducers) } := by
  simp only [snapshotsOf, writeSemanticSnapshot, List.filter_append, List.find?_append]
  have hold : (List.filter (fun row => decide (row.contextId = contextId))
      (store.snapshots.filter fun row => decide
        (¬(row.contextId = contextId ∧ row.semanticVersion = asI64 snapshot.version)))).find?
      (·.semanticVersion = asI64 snapshot.version) = none := by
    refine List.find?_eq_none.mpr fun stored hstored hversion => ?_
    obtain ⟨hmem, hid⟩ := List.mem_filter.mp hstored
    have hkept := of_decide_eq_true (List.mem_filter.mp hmem).2
    exact hkept ⟨of_decide_eq_true hid, of_decide_eq_true hversion⟩
  rw [hold]
  simp

end WriteSemanticSnapshot

section AppendDelta

def withDelta (store : SqliteStore) (delta : DeltaRow) : SqliteStore :=
  { store with deltas := store.deltas ++ [delta] }

variable {now : Nat} {payload : PersistedDelta} {editType : Option String}

/-- What an accepted `append_delta` writes. -/
theorem appendDelta_ok (h : store.appendDelta now contextId payload editType = .ok store') :
    contextId ∈ store.contexts.map (·.id) ∧
      store' = (store.withDelta
          ⟨contextId, store.nextSequence contextId, payload, editType, now⟩).updateContext
        contextId fun row => { row with updatedAt := now } := by
  rw [appendDelta] at h
  split at h
  · cases h
  · rename_i row hrow
    cases h
    obtain ⟨hmem, hid⟩ := rowById_mem hrow
    exact ⟨List.mem_map.mpr ⟨row, hmem, hid⟩, rfl⟩

theorem Keyed.withDelta (h : store.Keyed) {delta : DeltaRow}
    (howner : delta.contextId ∈ store.contexts.map (·.id)) : (store.withDelta delta).Keyed where
  ids := h.ids
  files := h.files
  deltas := by
    intro stored hstored
    rcases List.mem_append.mp hstored with hold | hnew
    · exact h.deltas stored hold
    · cases List.mem_singleton.mp hnew
      exact howner
  snapshots := h.snapshots

@[simp] theorem snapshotsOf_withDelta (delta : DeltaRow) (id : String) :
    (store.withDelta delta).snapshotsOf id = store.snapshotsOf id := rfl

theorem deltasOf_withDelta (store : SqliteStore) (delta : DeltaRow) (id : String) :
    (store.withDelta delta).deltasOf id =
      store.deltasOf id ++ if delta.contextId = id then [delta] else [] := by
  simp only [deltasOf, withDelta, List.filter_append]
  congr 1
  split
  · rename_i h
    exact List.filter_cons_of_pos (by simpa using h)
  · rename_i h
    exact List.filter_cons_of_neg (by simpa using h)

end AppendDelta

end SqliteStore
end Sqlite
end CleanCtx
