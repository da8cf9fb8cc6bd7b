import CleanCtx.Ir.ReplayTransaction

/-!
The positional applier follows the computer. Every edit is recorded against a
work list of the shape `target.take i ++ baseline.drop j`, and replaying the
recorded edits from the baseline rebuilds that list, so the two sides read the
same expected tuples and occurrence ordinals at every step.
-/
namespace CleanCtx
namespace SequenceDeltaComputer

theorem commonPrefix_le (as bs : List Tuple) :
    commonPrefix as bs ≤ as.length ∧ commonPrefix as bs ≤ bs.length := by
  induction as generalizing bs with
  | nil => simp [commonPrefix]
  | cons a as ih =>
      cases bs with
      | nil => simp [commonPrefix]
      | cons b bs =>
          have h := ih bs
          simp only [commonPrefix, List.length_cons]
          split <;> omega

theorem take_commonPrefix (as bs : List Tuple) :
    as.take (commonPrefix as bs) = bs.take (commonPrefix as bs) := by
  induction as generalizing bs with
  | nil => simp [commonPrefix]
  | cons a as ih =>
      cases bs with
      | nil => simp [commonPrefix]
      | cons b bs =>
          simp only [commonPrefix]
          split
          · rename_i h
            rw [List.take_succ_cons, List.take_succ_cons, ih bs, h]
          · rfl

theorem drop_commonSuffix (baseline target : List Tuple) (n : Nat) :
    baseline.drop (n + (baseline.length - n - commonSuffix baseline target n)) =
      target.drop (n + (target.length - n - commonSuffix baseline target n)) := by
  have h := take_commonPrefix (baseline.drop n).reverse (target.drop n).reverse
  rw [List.take_reverse, List.take_reverse, List.reverse_inj, List.drop_drop, List.drop_drop,
    List.length_drop, List.length_drop] at h
  exact h

def Identified (tuple : Tuple) : Prop := (DeltaIdentity.fromTuple tuple).isSome

theorem occurrenceKeyAt_isSome (front rest : List Tuple) {tuple : Tuple}
    (h : Identified tuple) :
    ∃ key, occurrenceKeyAt (front ++ tuple :: rest) front.length = some key := by
  obtain ⟨identity, hidentity⟩ := Option.isSome_iff_exists.mp h
  simp [occurrenceKeyAt, hidentity]

theorem validateTuple_ok {tuple : Tuple} (h : (tupleToOp tuple).isSome) (position : Nat) :
    validateTuple tuple position = pure () := by
  obtain ⟨op, hop⟩ := Option.isSome_iff_exists.mp h
  simp [validateTuple, hop]

theorem validateTuplesFrom_ok {tuples : List Tuple} (h : ∀ t ∈ tuples, (tupleToOp t).isSome)
    (i : Nat) : validateTuplesFrom i tuples = pure () := by
  induction tuples generalizing i with
  | nil => rfl
  | cons tuple rest ih =>
      rw [validateTuplesFrom, validateTuple_ok (h tuple List.mem_cons_self), pure_bind]
      exact ih (fun t ht => h t (List.mem_cons_of_mem _ ht)) (i + 1)

theorem ensureOccurrence_ok {instructions : List Tuple} {position : Nat} {key : OccurrenceKey}
    (h : occurrenceKeyAt instructions position = some key) :
    ensureOccurrence instructions position key = pure () := by
  rw [ensureOccurrence, if_pos h]

theorem ensureExpected_ok (front rest : List Tuple) (tuple : Tuple) :
    ensureExpected (front ++ tuple :: rest) front.length tuple = pure () := by
  simp [ensureExpected]

/-- The recorded edits replay from the start to the work list. -/
def Recorded (start : List Tuple) (state : Recording) (work : List Tuple) : Prop :=
  state.work = work ∧ state.edits.foldlM applyEdit start = pure work

theorem Recorded.concat {start work work' : List Tuple} {state : Recording}
    (h : Recorded start state work) (edit : SequenceEdit)
    (hedit : applyEdit work edit = pure work') :
    Recorded start { work := work', edits := state.edits ++ [edit] } work' := by
  refine ⟨rfl, ?_⟩
  rw [List.foldlM_append, h.2, pure_bind, List.foldlM_cons, hedit, pure_bind]
  rfl

section Steps

variable {start target : List Tuple} {state : Recording} {front rest : List Tuple}
  {old new : Tuple} (n offset : Nat)

theorem replaceStep_recorded (h : Recorded start state (front ++ old :: rest))
    (hposition : n + offset = front.length) (htarget : target[front.length]? = some new)
    (hold : Identified old) (hnew : Identified new) (hdecode : (tupleToOp new).isSome) :
    ∃ state', replaceStep target n state offset = .ok state' ∧
      Recorded start state' (front ++ new :: rest) := by
  obtain ⟨oldKey, holdKey⟩ := occurrenceKeyAt_isSome front rest hold
  obtain ⟨newKey, hnewKey⟩ := occurrenceKeyAt_isSome front rest hnew
  refine ⟨_, ?_, h.concat (.replace front.length oldKey old newKey new) ?_⟩
  · have htargetIndex : Vec.index target front.length = .ok new := by simp [Vec.index, htarget]
    simp only [replaceStep, hposition, h.1, Vec.index_append_cons, Rust.ok_bind, holdKey,
      expect_some, htargetIndex, Vec.set_append_cons, hnewKey]
    rfl
  · simp only [applyEdit, ensureExpected_ok, ensureOccurrence_ok holdKey,
      validateTuple_ok hdecode, Vec.set_append_cons, Fallible.ofRust_ok,
      ensureOccurrence_ok hnewKey, pure_bind]

theorem removeStep_recorded (h : Recorded start state (front ++ old :: rest))
    (hold : Identified old) :
    ∃ state', removeStep front.length state offset = .ok state' ∧
      Recorded start state' (front ++ rest) := by
  obtain ⟨oldKey, holdKey⟩ := occurrenceKeyAt_isSome front rest hold
  refine ⟨_, ?_, h.concat (.remove front.length oldKey old) ?_⟩
  · simp only [removeStep, h.1, Vec.index_append_cons, Rust.ok_bind, holdKey, expect_some,
      Vec.remove_append_cons]
    rfl
  · simp only [applyEdit, ensureExpected_ok, ensureOccurrence_ok holdKey,
      Vec.remove_append_cons, Fallible.ofRust_ok, pure_bind]

theorem insertStep_recorded (h : Recorded start state (front ++ rest))
    (hposition : n + offset = front.length) (htarget : target[front.length]? = some new)
    (hnew : Identified new) (hdecode : (tupleToOp new).isSome) :
    ∃ state', insertStep target n state offset = .ok state' ∧
      Recorded start state' (front ++ new :: rest) := by
  obtain ⟨newKey, hnewKey⟩ := occurrenceKeyAt_isSome front rest hnew
  refine ⟨_, ?_, h.concat (.insert front.length newKey new) ?_⟩
  · have htargetIndex : Vec.index target front.length = .ok new := by simp [Vec.index, htarget]
    simp only [insertStep, hposition, h.1, htargetIndex, Rust.ok_bind, Vec.insert_append,
      hnewKey, expect_some]
    rfl
  · have hle : ¬ front.length > (front ++ rest).length := by simp
    simp only [applyEdit, if_neg hle, validateTuple_ok hdecode, Vec.insert_append,
      Fallible.ofRust_ok, ensureOccurrence_ok hnewKey, pure_bind]

end Steps

section Run

variable {baseline target : List Tuple} {state : Recording}

/-- The work list once `i` target tuples are in place and `j` baseline tuples are used up. -/
def shape (baseline target : List Tuple) (i j : Nat) : List Tuple :=
  target.take i ++ baseline.drop j

variable (hbaseline : ∀ tuple ∈ baseline, Identified tuple)
  (htarget : ∀ tuple ∈ target, Identified tuple ∧ (tupleToOp tuple).isSome)

include hbaseline htarget in
theorem replaceLoop_recorded (n count : Nat) (hbase : n + count ≤ baseline.length)
    (htake : n + count ≤ target.length)
    (h : Recorded baseline state (shape baseline target n n)) :
    ∃ state', (List.range count).foldlM (replaceStep target n) state = .ok state' ∧
      Recorded baseline state' (shape baseline target (n + count) (n + count)) := by
  rw [List.range_eq_range']
  refine foldlM_range'_ok
    (fun k s => Recorded baseline s (shape baseline target (n + k) (n + k))) 0 count h ?_
  intro k s hk hs
  have hbaseK : n + k < baseline.length := by omega
  have htargetK : n + k < target.length := by omega
  have hlength : (target.take (n + k)).length = n + k := by simp; omega
  have hnew := htarget _ (List.getElem_mem htargetK)
  rw [shape, List.drop_eq_getElem_cons hbaseK] at hs
  obtain ⟨s', hstep, hs'⟩ := replaceStep_recorded n (0 + k) hs (by omega)
    (by rw [hlength, List.getElem?_eq_getElem htargetK])
    (hbaseline _ (List.getElem_mem hbaseK)) hnew.1 hnew.2
  refine ⟨s', hstep, ?_⟩
  rw [shape, ← Nat.add_assoc, List.take_succ_eq_append_getElem htargetK, List.append_assoc]
  exact hs'

include hbaseline in
theorem removeLoop_recorded (i j start count : Nat) (htake : i ≤ target.length)
    (hbase : j + count ≤ baseline.length)
    (h : Recorded baseline state (shape baseline target i j)) :
    ∃ state', (List.range' start count).foldlM (removeStep i) state = .ok state' ∧
      Recorded baseline state' (shape baseline target i (j + count)) := by
  refine foldlM_range'_ok
    (fun k s => Recorded baseline s (shape baseline target i (j + k))) start count h ?_
  intro k s hk hs
  have hbaseK : j + k < baseline.length := by omega
  have hlength : (target.take i).length = i := by simp [htake]
  rw [shape, List.drop_eq_getElem_cons hbaseK] at hs
  obtain ⟨s', hstep, hs'⟩ := removeStep_recorded (start + k) hs
    (hbaseline _ (List.getElem_mem hbaseK))
  rw [hlength] at hstep
  exact ⟨s', hstep, hs'⟩

include htarget in
theorem insertLoop_recorded (n j start count : Nat) (htake : n + start + count ≤ target.length)
    (h : Recorded baseline state (shape baseline target (n + start) j)) :
    ∃ state', (List.range' start count).foldlM (insertStep target n) state = .ok state' ∧
      Recorded baseline state' (shape baseline target (n + start + count) j) := by
  refine foldlM_range'_ok
    (fun k s => Recorded baseline s (shape baseline target (n + start + k) j)) start count h ?_
  intro k s hk hs
  have htargetK : n + start + k < target.length := by omega
  have hlength : (target.take (n + start + k)).length = n + start + k := by simp; omega
  have hnew := htarget _ (List.getElem_mem htargetK)
  obtain ⟨s', hstep, hs'⟩ := insertStep_recorded n (start + k) hs (by omega)
    (by rw [hlength, List.getElem?_eq_getElem htargetK]) hnew.1 hnew.2
  refine ⟨s', hstep, ?_⟩
  rw [shape, ← Nat.add_assoc, List.take_succ_eq_append_getElem htargetK, List.append_assoc]
  exact hs'

include hbaseline htarget in
/-- The three loops end with the target stream, and their edits replay to it. -/
theorem recordEdits_recorded :
    ∃ state', recordEdits baseline target = .ok state' ∧ Recorded baseline state' target := by
  let n := commonPrefix baseline target
  let baseMiddle := baseline.length - n - commonSuffix baseline target n
  let targetMiddle := target.length - n - commonSuffix baseline target n
  let replacements := min baseMiddle targetMiddle
  have hprefix := commonPrefix_le baseline target
  have hinit : Recorded baseline { work := baseline, edits := [] } (shape baseline target n n) := by
    refine ⟨?_, ?_⟩
    · rw [shape, ← take_commonPrefix, List.take_append_drop]
    · rw [shape, ← take_commonPrefix, List.take_append_drop]
      rfl
  obtain ⟨s₁, hreplace, h₁⟩ := replaceLoop_recorded hbaseline htarget n replacements
    (by omega) (by omega) hinit
  obtain ⟨s₂, hremove, h₂⟩ := removeLoop_recorded hbaseline (n + replacements)
    (n + replacements) replacements (baseMiddle - replacements) (by omega) (by omega) h₁
  obtain ⟨s₃, hinsert, h₃⟩ := insertLoop_recorded htarget n
    (n + replacements + (baseMiddle - replacements)) replacements
    (targetMiddle - replacements) (by omega) h₂
  refine ⟨s₃, ?_, ?_⟩
  · rw [recordEdits, hreplace, Rust.ok_bind, hremove, Rust.ok_bind, hinsert]
  · have htargetEnd : n + replacements + (targetMiddle - replacements) = n + targetMiddle := by
      omega
    have hbaseEnd : n + replacements + (baseMiddle - replacements) = n + baseMiddle := by omega
    rw [htargetEnd, hbaseEnd, shape, drop_commonSuffix, List.take_append_drop] at h₃
    exact h₃

end Run

/-- The file's state is the one `load_ir` installs for this compiled IR. -/
def Loaded (state : ContextState) (ir : CompiledIR) : Prop :=
  state.files.lookup ir.fileId = some (FileState.fromCompiled ir)

theorem loaded_loadIr (state : ContextState) (ir : CompiledIR) (sourceHash : Option String) :
    Loaded (state.loadIr ir sourceHash) ir :=
  Finmap.lookup_insert _

/-- A replay that rebuilds `target` from the loaded stream publishes `target`. -/
theorem applySequence_of_replay {state : ContextState} {baseline : CompiledIR}
    (hloaded : Loaded state baseline) {delta : SequenceDelta} {target : List Tuple}
    (hversion : delta.deltaVersion = sequenceDeltaVersion) (hfile : delta.file = baseline.fileId)
    (hfrom : delta.fromVersion = baseline.version) (hto : delta.fromVersion < delta.toVersion)
    (hreplay : delta.edits.foldlM applyEdit (baseline.instructions.map opToTuple) = pure target)
    (hdecode : ∀ tuple ∈ target, (tupleToOp tuple).isSome) :
    ∃ state', (ContextState.applySequence delta).call state = .ok (.ok delta.toVersion, state') ∧
      state'.getIr delta.file = some target := by
  have hchecked : (ContextState.checkedFile delta.file delta.fromVersion delta.toVersion).call
      state = .ok (.ok (FileState.fromCompiled baseline), state) := by
    have hnewer : ¬ delta.toVersion ≤ delta.fromVersion := UInt64.not_le.mpr hto
    rw [ContextState.call_checkedFile, hfile, hloaded]
    simp only [FileState.fromCompiled_version, hfrom, ne_eq, not_true, if_false]
    rw [← hfrom, if_neg hnewer]
  have hedits : (FileState.fromCompiled baseline).applyEdits delta.edits =
      pure { FileState.fromCompiled baseline with instructions := target } := by
    rw [FileState.applyEdits, FileState.fromCompiled_instructions, hreplay, pure_bind,
      validateTuples, validateTuplesFrom_ok hdecode, pure_bind]
  refine ⟨_, ContextState.call_applySequence_ok hversion hchecked hedits, ?_⟩
  simp [ContextState.getIr]

/-- Computing and replaying a positional delta turns the baseline's stream into the
current one; no delta is computed exactly when the streams already agree. -/
theorem compute_refines (baseline current : CompiledIR) (state : ContextState)
    (hfile : current.fileId = baseline.fileId) (hversion : baseline.version < current.version)
    (hdecode : ∀ op ∈ current.instructions, (tupleToOp (opToTuple op)).isSome)
    (hloaded : Loaded state baseline) :
    ∃ result, compute baseline current = .ok result ∧
      (result = none ↔
        baseline.instructions.map opToTuple = current.instructions.map opToTuple) ∧
      ∀ delta, result = some delta → ∃ state',
        (ContextState.applySequence delta).call state = .ok (.ok current.version, state') ∧
        state'.getIr current.fileId = some (current.instructions.map opToTuple) := by
  by_cases hequal : baseline.instructions.map opToTuple = current.instructions.map opToTuple
  · refine ⟨none, ?_, by simp [hequal], by rintro _ ⟨⟩⟩
    rw [compute, if_pos hequal]
    rfl
  · have hbaseline : ∀ tuple ∈ baseline.instructions.map opToTuple, Identified tuple := by
      intro tuple htuple
      obtain ⟨op, -, rfl⟩ := List.mem_map.mp htuple
      exact DeltaIdentity.fromTuple_opToTuple_isSome op
    have htarget : ∀ tuple ∈ current.instructions.map opToTuple,
        Identified tuple ∧ (tupleToOp tuple).isSome := by
      intro tuple htuple
      obtain ⟨op, hop, rfl⟩ := List.mem_map.mp htuple
      exact ⟨DeltaIdentity.fromTuple_opToTuple_isSome op, hdecode op hop⟩
    obtain ⟨recording, hrecord, hrecorded⟩ := recordEdits_recorded hbaseline htarget
    have hcompute : compute baseline current = .ok (some {
        deltaVersion := sequenceDeltaVersion, file := current.fileId,
        fromVersion := baseline.version, toVersion := current.version,
        targetHash := none, edits := recording.edits,
        intent := detectSemanticIntent baseline current }) := by
      rw [compute, if_neg hequal, hrecord]
      rfl
    refine ⟨_, hcompute, ?_, ?_⟩
    · simp [hequal]
    · intro delta hdelta
      rw [← Option.some.inj hdelta]
      exact applySequence_of_replay hloaded rfl hfile rfl hversion hrecorded.2
        fun tuple htuple => (htarget tuple htuple).2

theorem compute_refines_renamed :
    ∃ result, compute ⟨"A", [.defClass "C1" "Old", .ret "M1" "T"], 1⟩
        ⟨"A", [.defClass "C1" "New"], 2⟩ = .ok result ∧
      (result = none ↔
        [CoreOp.defClass "C1" "Old", .ret "M1" "T"].map opToTuple =
          [CoreOp.defClass "C1" "New"].map opToTuple) ∧
      ∀ delta, result = some delta → ∃ state',
        (ContextState.applySequence delta).call
          (ContextState.new.loadIr ⟨"A", [.defClass "C1" "Old", .ret "M1" "T"], 1⟩ none) =
            .ok (.ok 2, state') ∧
        state'.getIr "A" = some ([CoreOp.defClass "C1" "New"].map opToTuple) :=
  compute_refines ⟨"A", [.defClass "C1" "Old", .ret "M1" "T"], 1⟩
    ⟨"A", [.defClass "C1" "New"], 2⟩ _ rfl (by decide) (by decide) (loaded_loadIr _ _ _)

end SequenceDeltaComputer
end CleanCtx
