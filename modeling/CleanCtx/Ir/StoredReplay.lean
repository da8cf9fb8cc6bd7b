import CleanCtx.Ir.SequenceRefinement

/-!
What a positional replay reads of a state: the tuples and the version of the file that
it names. The indexes do not matter to it, so a delta that was accepted once is accepted
again wherever the same is stored.
-/
namespace CleanCtx
namespace ContextState

def Stores (state : ContextState) (file : String) (tuples : List Tuple) (version : UInt64) : Prop :=
  ∃ found, state.files.lookup file = some found ∧ found.instructions = tuples ∧
    found.version = version

variable {state state' : ContextState} {file : String} {tuples target : List Tuple}
  {version : UInt64}

theorem Stores.getIr (h : state.Stores file tuples version) : state.getIr file = some tuples := by
  obtain ⟨found, hfound, rfl, -⟩ := h
  simp [ContextState.getIr, hfound]

theorem Stores.fileVersion (h : state.Stores file tuples version) :
    (state.files.lookup file).map (·.version) = some version := by
  obtain ⟨found, hfound, -, rfl⟩ := h
  simp [hfound]

theorem stores_insert (state : ContextState) (file : String) (found : FileState) (v : UInt64) :
    { state with files := state.files.insert file found.rebuildIndexes, version := v }.Stores file
      found.instructions found.version :=
  ⟨_, Finmap.lookup_insert _, FileState.rebuildIndexes_instructions _,
    FileState.rebuildIndexes_version _⟩

theorem stores_loadIr (state : ContextState) (ir : CompiledIR) (sourceHash : Option String) :
    (state.loadIr ir sourceHash).Stores ir.fileId (ir.instructions.map opToTuple) ir.version :=
  ⟨_, Finmap.lookup_insert _, FileState.fromCompiled_instructions _,
    FileState.fromCompiled_version _⟩

/-- The delta turns a stored stream into the target, by checks that read nothing else. -/
structure Accepted (delta : SequenceDelta) (tuples : List Tuple) (version : UInt64)
    (target : List Tuple) : Prop where
  protocol : delta.deltaVersion = sequenceDeltaVersion
  fromVersion : delta.fromVersion = version
  newer : version < delta.toVersion
  replays : delta.edits.foldlM applyEdit tuples = pure target
  decodes : ∀ tuple ∈ target, (tupleToOp tuple).isSome

variable {delta : SequenceDelta}

theorem Accepted.call (h : Accepted delta tuples version target)
    (hstored : state.Stores delta.file tuples version) :
    ∃ state', (applySequence delta).call state = .ok (.ok delta.toVersion, state') ∧
      state'.Stores delta.file target delta.toVersion := by
  obtain ⟨found, hfound, htuples, hversion⟩ := hstored
  have hchecked : (checkedFile delta.file delta.fromVersion delta.toVersion).call state =
      .ok (.ok found, state) := by
    have hnewer : ¬delta.toVersion ≤ found.version :=
      UInt64.not_le.mpr (hversion ▸ h.newer)
    rw [call_checkedFile, hfound]
    simp only [h.fromVersion, ← hversion, ne_eq, not_true_eq_false, if_false, if_neg hnewer]
  have hedits : found.applyEdits delta.edits = pure { found with instructions := target } := by
    rw [FileState.applyEdits, htuples, h.replays, pure_bind, validateTuples,
      SequenceDeltaComputer.validateTuplesFrom_ok h.decodes, pure_bind]
  exact ⟨_, call_applySequence_ok h.protocol hchecked hedits, stores_insert _ _ _ _⟩

theorem isSome_of_validateTuplesFrom {tuples : List Tuple} {position : Nat}
    (h : validateTuplesFrom position tuples = pure ()) :
    ∀ tuple ∈ tuples, (tupleToOp tuple).isSome := by
  induction tuples generalizing position with
  | nil => simp
  | cons tuple rest ih =>
      rw [validateTuplesFrom, validateTuple] at h
      cases hop : tupleToOp tuple with
      | none =>
          rw [hop] at h
          cases h
      | some op =>
          rw [hop] at h
          exact List.forall_mem_cons.mpr ⟨by rw [hop]; rfl, ih h⟩

theorem applyEdits_ok {found candidate : FileState} {edits : List SequenceEdit}
    (h : ExceptT.run (found.applyEdits edits) = .ok (.ok candidate)) :
    ∃ target, edits.foldlM applyEdit found.instructions = pure target ∧
      (∀ tuple ∈ target, (tupleToOp tuple).isSome) ∧
      candidate = { found with instructions := target } := by
  obtain ⟨target, hreplays, hrest⟩ := Fallible.run_bind_ok.mp h
  obtain ⟨_, hvalid, hlast⟩ := Fallible.run_bind_ok.mp hrest
  cases hlast
  exact ⟨target, hreplays, isSome_of_validateTuplesFrom hvalid, rfl⟩

/-- An applied positional delta was accepted on what the state stored. -/
theorem accepted_of_call {v : UInt64} (hstored : state.Stores delta.file tuples version)
    (h : (applySequence delta).call state = .ok (.ok v, state')) :
    v = delta.toVersion ∧ ∃ target, Accepted delta tuples version target ∧
      state'.Stores delta.file target v := by
  obtain ⟨stored, hlookup, rfl, rfl⟩ := hstored
  rw [applySequence] at h
  split at h
  · cases h
  · rename_i hprotocol
    obtain ⟨found, self, hchecked, hrest⟩ := Method.call_bind_ok.mp h
    obtain ⟨rfl, hfound, hfrom, hnewer⟩ := checkedFile_ok hchecked
    obtain ⟨candidate, self', hedits, hpublish⟩ := Method.call_bind_ok.mp hrest
    cases Option.some.inj (hlookup.symm.trans hfound)
    cases Method.readOnly_ofLocal _ _ _ _ hedits
    rw [Method.call_ofLocal] at hedits
    cases hrun : ExceptT.run (stored.applyEdits delta.edits) with
    | error panic =>
        rw [hrun] at hedits
        cases hedits
    | ok result =>
        rw [hrun] at hedits
        cases hedits
        obtain ⟨target, hreplays, hdecodes, rfl⟩ := applyEdits_ok hrun
        rw [call_publish] at hpublish
        cases hpublish
        exact ⟨rfl, target, ⟨not_not.mp hprotocol, hfrom.symm, hfrom ▸ hnewer, hreplays, hdecodes⟩,
          stores_insert _ _ _ _⟩

/-- The version checks passed, and what follows them reads the file that they found. -/
theorem checked_of_call {name : String} {fromVersion toVersion v : UInt64}
    {rest : FileState → Apply UInt64}
    (h : (checkedFile name fromVersion toVersion >>= rest).call state = .ok (.ok v, state')) :
    ∃ found, state.files.lookup name = some found ∧ found.version = fromVersion ∧
      fromVersion < toVersion := by
  obtain ⟨found, self, hchecked, -⟩ := Method.call_bind_ok.mp h
  exact ⟨found, (checkedFile_ok hchecked).2⟩

theorem mem_of_call_applySequence {v : UInt64}
    (h : (applySequence delta).call state = .ok (.ok v, state')) : delta.file ∈ state.files := by
  rw [applySequence] at h
  split at h
  · cases h
  · obtain ⟨found, self, hchecked, -⟩ := Method.call_bind_ok.mp h
    exact Finmap.mem_of_lookup_eq_some (checkedFile_ok hchecked).2.1

end ContextState
end CleanCtx
