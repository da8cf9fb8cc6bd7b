import CleanCtx.Ir.FileIndex

/-!
Both appliers are transactions: an error leaves the whole context as it was, a
success publishes one file at a newer version. Index entries that lie inside
the instruction stream rule out the panics.
-/
namespace CleanCtx
namespace ContextState

/-- What a successful delta application does to a context. -/
structure Published (state state' : ContextState) (file : String) (v : UInt64) : Prop where
  named : ∃ previous updated, state.files.lookup file = some previous ∧
    state'.files.lookup file = some updated ∧ updated.version = v ∧ previous.version < v
  others : ∀ other, other ≠ file → state'.files.lookup other = state.files.lookup other
  version : state'.version = max state.version v
  sourceHashes : state'.sourceHashes = state.sourceHashes

/-- The outcome of the version checks; they never write. -/
theorem call_checkedFile (file : String) (fromVersion toVersion : UInt64)
    (self : ContextState) :
    (checkedFile file fromVersion toVersion).call self =
      .ok (match self.files.lookup file with
        | none => .error (.unknownFile file)
        | some state =>
            if state.version ≠ fromVersion then
              .error (.versionMismatch state.version fromVersion)
            else if toVersion ≤ fromVersion then
              .error (.nonMonotonicVersion fromVersion toVersion)
            else .ok state, self) := by
  rw [checkedFile, Method.call_bind, Method.call_get]
  dsimp only
  cases self.files.lookup file with
  | none => rfl
  | some state =>
      dsimp only
      split
      · rfl
      · split <;> rfl

theorem readOnly_checkedFile (file : String) (fromVersion toVersion : UInt64) :
    (checkedFile file fromVersion toVersion).ReadOnly := by
  intro self result self' h
  rw [call_checkedFile] at h
  cases h
  rfl

theorem checkedFile_ok {file : String} {fromVersion toVersion : UInt64}
    {self self' : ContextState} {state : FileState}
    (h : (checkedFile file fromVersion toVersion).call self = .ok (.ok state, self')) :
    self' = self ∧ self.files.lookup file = some state ∧ state.version = fromVersion ∧
      fromVersion < toVersion := by
  refine ⟨readOnly_checkedFile file fromVersion toVersion self _ self' h, ?_⟩
  rw [call_checkedFile] at h
  cases hlookup : self.files.lookup file with
  | none => simp [hlookup] at h
  | some found =>
      simp only [hlookup, Except.ok.injEq, Prod.mk.injEq] at h
      obtain ⟨hfound, -⟩ := h
      split at hfound
      · cases hfound
      · split at hfound
        · cases hfound
        · rename_i hversion hmono
          cases hfound
          exact ⟨rfl, not_not.mp hversion, UInt64.not_le.mp hmono⟩

theorem call_publish (file : String) (state : FileState) (toVersion : UInt64)
    (self : ContextState) :
    (publish file state toVersion).call self =
      .ok (.ok toVersion,
        { self with
          files := self.files.insert file { state with version := toVersion }.rebuildIndexes
          version := max self.version toVersion }) := rfl

theorem transactional_publish (file : String) (state : FileState) (toVersion : UInt64) :
    (publish file state toVersion).Transactional := by
  intro self e self' h
  rw [call_publish] at h
  cases h

theorem published_publish {file : String} {previous state : FileState} {toVersion v : UInt64}
    {self self' : ContextState} (hlookup : self.files.lookup file = some previous)
    (hnewer : previous.version < toVersion)
    (h : (publish file state toVersion).call self = .ok (.ok v, self')) :
    v = toVersion ∧ Published self self' file v := by
  rw [call_publish] at h
  cases h
  refine ⟨rfl, ⟨⟨previous, _, hlookup, Finmap.lookup_insert _, ?_, hnewer⟩, ?_, rfl, rfl⟩⟩
  · exact FileState.rebuildIndexes_version _
  · intro other hother
    exact Finmap.lookup_insert_of_ne _ hother

def IndexExact (state : ContextState) : Prop :=
  ∀ file fileState, state.files.lookup file = some fileState → fileState.IndexExact

theorem IndexExact.insert_rebuilt {state state' : ContextState} {file : String}
    {fileState : FileState} (h : state.IndexExact)
    (hfiles : state'.files = state.files.insert file fileState.rebuildIndexes) :
    state'.IndexExact := by
  intro other found hfound
  rw [hfiles] at hfound
  by_cases hother : other = file
  · rw [hother, Finmap.lookup_insert, Option.some.injEq] at hfound
    rw [← hfound]
    exact FileState.rebuildIndexes_indexExact _
  · rw [Finmap.lookup_insert_of_ne _ hother] at hfound
    exact h other found hfound

theorem indexExact_new : new.IndexExact := by
  intro file fileState h
  simp [new] at h

theorem IndexExact.loadIr {state : ContextState} (h : state.IndexExact) (ir : CompiledIR)
    (sourceHash : Option String) : (state.loadIr ir sourceHash).IndexExact :=
  h.insert_rebuilt rfl

/-- The contract of an applier for one delta against one context. -/
structure Transacts (m : Apply UInt64) (file : String) (toVersion : UInt64)
    (state : ContextState) : Prop where
  onError : ∀ e state', m.call state = .ok (.error e, state') → state' = state
  onSuccess : ∀ v state', m.call state = .ok (.ok v, state') →
    v = toVersion ∧ Published state state' file v
  noPanic : state.IndexExact →
    ∃ result state', m.call state = .ok (result, state') ∧ state'.IndexExact

/-- An applier that checks the named file, edits a copy of it and publishes the copy. -/
theorem transacts_edit {file : String} {fromVersion toVersion : UInt64}
    {edit : FileState → Fallible DeltaError FileState}
    (hsafe : ∀ state : FileState, state.IndexExact → (edit state).Safe fun _ => True)
    (state : ContextState) :
    Transacts (do
        let previous ← checkedFile file fromVersion toVersion
        let candidate ← Method.ofLocal (edit previous)
        publish file candidate toVersion) file toVersion state where
  onError := by
    have h : Method.Transactional (do
        let previous ← checkedFile file fromVersion toVersion
        let candidate ← Method.ofLocal (edit previous)
        publish file candidate toVersion) :=
      (readOnly_checkedFile _ _ _).bind fun _ =>
        (Method.readOnly_ofLocal _).bind fun _ => transactional_publish _ _ _
    exact h state
  onSuccess := by
    intro v state' hcall
    obtain ⟨previous, self, hchecked, hrest⟩ := Method.call_bind_ok.mp hcall
    obtain ⟨hself, hlookup, hversion, hnewer⟩ := checkedFile_ok hchecked
    obtain ⟨candidate, self', hedit, hpublish⟩ := Method.call_bind_ok.mp hrest
    have hself' := Method.readOnly_ofLocal _ _ _ _ hedit
    rw [hself', hself] at hpublish
    exact published_publish hlookup (hversion ▸ hnewer) hpublish
  noPanic := by
    intro hexact
    cases hchecked : (checkedFile file fromVersion toVersion).call state with
    | error panic =>
        rw [call_checkedFile] at hchecked
        cases hchecked
    | ok outcome =>
        obtain ⟨result, self⟩ := outcome
        cases readOnly_checkedFile _ _ _ _ _ _ hchecked
        rw [Method.call_bind, hchecked]
        cases result with
        | error e => exact ⟨_, _, rfl, hexact⟩
        | ok previous =>
            obtain ⟨-, hlookup, -, -⟩ := checkedFile_ok hchecked
            obtain ⟨edited, hrun, -⟩ := hsafe previous (hexact file previous hlookup)
            dsimp only
            rw [Method.call_bind, Method.call_ofLocal, hrun]
            cases edited with
            | error e => exact ⟨_, _, rfl, hexact⟩
            | ok candidate => exact ⟨_, _, call_publish _ _ _ _, hexact.insert_rebuilt rfl⟩

theorem transacts_throw (e : DeltaError) {file : String} {toVersion : UInt64}
    (state : ContextState) : Transacts (throw e) file toVersion state where
  onError e state' h := Method.readOnly_throw _ _ _ _ h
  onSuccess v state' h := by cases h
  noPanic hexact := ⟨_, _, Method.call_throw _ _, hexact⟩

theorem safe_ensureExpected (instructions : List Tuple) (position : Nat) (expected : Tuple) :
    (ensureExpected instructions position expected).Safe
      fun _ => instructions[position]? = some expected := by
  unfold ensureExpected
  split
  case isTrue h => exact Fallible.safe_pure h
  case isFalse => exact Fallible.safe_throw _

theorem safe_ensureOccurrence (instructions : List Tuple) (position : Nat)
    (expected : OccurrenceKey) :
    (ensureOccurrence instructions position expected).Safe fun _ => True := by
  unfold ensureOccurrence
  split
  · exact Fallible.safe_pure trivial
  · exact Fallible.safe_throw _

/-- No edit reaches a panicking accessor: each position is checked before its use. -/
theorem safe_applyEdit (instructions : List Tuple) (edit : SequenceEdit) :
    (applyEdit instructions edit).Safe fun _ => True := by
  cases edit with
  | insert position value instruction =>
      unfold applyEdit
      dsimp only
      split
      · exact (Fallible.safe_throw _).bind fun _ (h : False) => h.elim
      · rename_i hle
        refine (FileState.safe_validateTuple _ _).bind fun _ _ => ?_
        rw [Vec.insert, if_pos (by omega), Fallible.ofRust_ok, pure_bind]
        exact (safe_ensureOccurrence _ _ _).bind fun _ _ => Fallible.safe_pure trivial
  | remove position target expected =>
      refine (safe_ensureExpected _ _ _).bind fun _ hget => ?_
      refine (safe_ensureOccurrence _ _ _).bind fun _ _ => ?_
      rw [Vec.remove, if_pos (List.getElem?_eq_some_iff.mp hget).1, Fallible.ofRust_ok]
      exact Fallible.safe_pure trivial
  | replace position target expected value replacement =>
      refine (safe_ensureExpected _ _ _).bind fun _ hget => ?_
      refine (safe_ensureOccurrence _ _ _).bind fun _ _ => ?_
      refine (FileState.safe_validateTuple _ _).bind fun _ _ => ?_
      rw [Vec.set, if_pos (List.getElem?_eq_some_iff.mp hget).1, Fallible.ofRust_ok, pure_bind]
      exact (safe_ensureOccurrence _ _ _).bind fun _ _ => Fallible.safe_pure trivial

theorem transacts_apply (delta : IRDelta) (state : ContextState) :
    Transacts (apply delta) delta.file delta.toVersion state :=
  transacts_edit (fun _ hfile =>
    (FileState.safe_applyOps hfile delta.ops).mono fun _ _ => trivial) state

/-- The edit loop and the final validation of `apply_sequence` never panic. -/
theorem safe_applyEdits (file : FileState) (edits : List SequenceEdit) :
    (file.applyEdits edits).Safe fun _ => True :=
  (Fallible.Safe.foldlM (fun tuples edit _ => safe_applyEdit tuples edit) edits trivial).bind
    fun _ _ => (FileState.safe_validateTuplesFrom 0 _).bind fun _ _ => Fallible.safe_pure trivial

theorem transacts_applySequence (delta : SequenceDelta) (state : ContextState) :
    Transacts (applySequence delta) delta.file delta.toVersion state := by
  unfold applySequence
  split
  · exact transacts_throw _ state
  · exact transacts_edit (fun file _ => safe_applyEdits file delta.edits) state

/-- A positional delta whose checks and edits succeed is published. -/
theorem call_applySequence_ok {delta : SequenceDelta} {state : ContextState}
    {previous candidate : FileState} (hversion : delta.deltaVersion = sequenceDeltaVersion)
    (hchecked : (checkedFile delta.file delta.fromVersion delta.toVersion).call state =
      .ok (.ok previous, state))
    (hedits : previous.applyEdits delta.edits = pure candidate) :
    (applySequence delta).call state =
      .ok (.ok delta.toVersion,
        { state with
          files := state.files.insert delta.file
            { candidate with version := delta.toVersion }.rebuildIndexes
          version := max state.version delta.toVersion }) := by
  rw [applySequence, if_neg (not_not.mpr hversion), Method.call_bind, hchecked]
  dsimp only
  rw [hedits, Method.call_bind, Method.call_ofLocal_ok]
  exact call_publish _ _ _ _

/-- A delta of either protocol is applied as one transaction, whatever it holds. -/
theorem replay_transacts (state : ContextState) :
    (∀ delta : IRDelta, Transacts (apply delta) delta.file delta.toVersion state) ∧
      ∀ delta : SequenceDelta,
        Transacts (applySequence delta) delta.file delta.toVersion state :=
  ⟨fun delta => transacts_apply delta state, fun delta => transacts_applySequence delta state⟩

end ContextState
end CleanCtx
