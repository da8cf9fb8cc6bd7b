import CleanCtx.Library.PositionIndex
import CleanCtx.Ir.DeltaSequence

/-!
Replay state and the two delta appliers (`ir/replay.rs`, `ir/replay/sequence.rs`).
Both appliers edit a copy of one file and store it after the last check.
-/
namespace CleanCtx

/-- Errors during delta application. -/
inductive DeltaError
  | unknownFile (file : String)
  | versionMismatch (expected got : UInt64)
  | symbolNotFound (symbol : String)
  | duplicateSymbol (symbol : String)
  | nonMonotonicVersion (fromVersion toVersion : UInt64)
  | unsupportedDeltaVersion (version : UInt8)
  | invalidSequenceInstruction (position : Nat)
  | invalidCanonicalTuple (position : Nat) (tuple : Tuple)
  | sequenceConflict (position : Nat) (expected : Tuple) (actual : Option Tuple)
  | occurrenceConflict (position : Nat) (expected : OccurrenceKey)
      (actual : Option OccurrenceKey)
  | ambiguousLegacyTarget (key : String)
  deriving DecidableEq

abbrev Replay := Fallible DeltaError

/-- Per-file IR state with its two indexes. -/
structure FileState where
  instructions : List Tuple
  index : HashMap String Nat
  occurrenceIndex : HashMap DeltaIdentity (List Nat)
  version : UInt64
  deriving DecidableEq

def validateTuple (tuple : Tuple) (position : Nat) : Replay Unit :=
  match tupleToOp tuple with
  | some _ => pure ()
  | none => throw (.invalidCanonicalTuple position tuple)

/-- The validation loop, from position `i` on. -/
def validateTuplesFrom : Nat → List Tuple → Replay Unit
  | _, [] => pure ()
  | i, tuple :: rest => do
      validateTuple tuple i
      validateTuplesFrom (i + 1) rest

def validateTuples (tuples : List Tuple) : Replay Unit := validateTuplesFrom 0 tuples

namespace FileState

def new (version : UInt64) : FileState :=
  { instructions := [], index := ∅, occurrenceIndex := ∅, version }

def indexTuple (state : FileState) (entry : Tuple × Nat) : FileState :=
  let (tuple, position) := entry
  let state := { state with
    index := state.index.insert (primaryKeyFromTuple tuple) position }
  match DeltaIdentity.fromTuple tuple with
  | some identity =>
      let positions := ((state.occurrenceIndex.lookup identity).getD []) ++ [position]
      { state with occurrenceIndex := state.occurrenceIndex.insert identity positions }
  | none => state

def rebuildIndexes (self : FileState) : FileState :=
  self.instructions.zipIdx.foldl indexTuple { self with index := ∅, occurrenceIndex := ∅ }

def fromCompiled (ir : CompiledIR) : FileState :=
  { new ir.version with instructions := ir.instructions.map opToTuple }.rebuildIndexes

def legacyTargetCount (self : FileState) (keyTuple : Tuple) : Nat :=
  (self.instructions.filter
    fun tuple => primaryKeyFromTuple tuple = primaryKeyFromTuple keyTuple).length

/-- Remove by key with `swap_remove`; `none` when the index has no such key. -/
def removeByKey (self : FileState) (keyTuple : Tuple) : Rust (Option FileState) :=
  let key := primaryKeyFromTuple keyTuple
  match self.index.lookup key with
  | some idx => do
      let instructions ← Vec.swapRemove self.instructions idx
      let index := self.index.erase key
      let index := (instructions[idx]?).elim index fun swapped =>
        index.insert (primaryKeyFromTuple swapped) idx
      pure (some { self with instructions, index }.rebuildIndexes)
  | none => pure none

/-- Replace by key; `none` when the index has no such key. -/
def replaceByKey (self : FileState) (keyTuple replacement : Tuple) : Rust (Option FileState) :=
  let key := primaryKeyFromTuple keyTuple
  match self.index.lookup key with
  | some idx => do
      let instructions ← Vec.set self.instructions idx replacement
      let newKey := primaryKeyFromTuple replacement
      let index :=
        if key ≠ newKey then (self.index.erase key).insert newKey idx else self.index
      pure (some { self with instructions, index }.rebuildIndexes)
  | none => pure none

def append (self : FileState) (instruction : Tuple) : Replay FileState := do
  validateTuple instruction self.instructions.length
  let key := primaryKeyFromTuple instruction
  let repeatable := (DeltaIdentity.fromTuple instruction).any DeltaIdentity.isRepeatable
  if key ∈ self.index ∧ repeatable = false then throw (.duplicateSymbol key)
  else
    pure { self with
      index := self.index.insert key self.instructions.length
      instructions := self.instructions ++ [instruction] }.rebuildIndexes

/-- A key-only deletion matches by primary key, any other one by the whole tuple. -/
def legacyMatch (expected tuple : Tuple) : Bool :=
  let keyTuple := keyTupleFromTuple expected
  if keyTuple = expected then
    primaryKeyFromTuple tuple = primaryKeyFromTuple keyTuple
  else tuple = expected

/-- The positions `remove_legacy_tuple` collects. -/
def legacyMatches (self : FileState) (expected : Tuple) : List Nat :=
  self.instructions.zipIdx.filterMap fun (tuple, position) =>
    if legacyMatch expected tuple then some position else none

def removeLegacyTuple (self : FileState) (expected : Tuple) : Replay FileState :=
  match self.legacyMatches expected with
  | [position] => do
      let instructions ← Fallible.ofRust (Vec.remove self.instructions position)
      pure { self with instructions }.rebuildIndexes
  | [] => throw (.symbolNotFound (primaryKeyFromTuple expected))
  | _ => throw (.ambiguousLegacyTarget (primaryKeyFromTuple expected))

/-- Write one field patch; an index past the instruction is ignored. -/
def applyPatch (instruction : Tuple) (patch : FieldPatch) : Tuple :=
  if patch.fieldIndex < instruction.length then
    instruction.set patch.fieldIndex patch.newValue
  else instruction

/-- The field-patch branch of the modification phase. The coarse index follows a
changed key here; the occurrence index waits for the rebuild at the end. -/
def patchByKey (self : FileState) (keyTuple : Tuple) (patches : List FieldPatch) :
    Replay FileState := do
  let key := primaryKeyFromTuple keyTuple
  match self.index.lookup key with
  | none => throw (.symbolNotFound key)
  | some idx =>
      let instruction ← Fallible.ofRust (Vec.index self.instructions idx)
      let patched := patches.foldl applyPatch instruction
      let instructions ← Fallible.ofRust (Vec.set self.instructions idx patched)
      let newKey := primaryKeyFromTuple patched
      let index :=
        if key ≠ newKey then (self.index.erase key).insert newKey idx else self.index
      pure { self with instructions, index }

/-- One modification of a legacy delta. -/
def applyMod (candidate : FileState) (modOp : ModOp) : Replay FileState := do
  if candidate.legacyTargetCount modOp.key > 1 then
    throw (.ambiguousLegacyTarget (primaryKeyFromTuple modOp.key))
  else
    match modOp.replace, modOp.patches with
    | some replacement, _ => do
        match ← Fallible.ofRust (candidate.replaceByKey modOp.key replacement) with
        | some replaced => pure replaced
        | none => throw (.symbolNotFound (primaryKeyFromTuple modOp.key))
    | none, some patches => candidate.patchByKey modOp.key patches
    | none, none => pure candidate

/-- The three phases of `ContextState::apply` on the copied file. -/
def applyOps (file : FileState) (ops : DeltaOps) : Replay FileState := do
  let candidate ← ops.dels.foldlM removeLegacyTuple file
  let candidate ← ops.mods.foldlM applyMod candidate
  let candidate ← ops.adds.foldlM append candidate
  validateTuples candidate.instructions
  pure candidate

end FileState

def ensureExpected (instructions : List Tuple) (position : Nat) (expected : Tuple) :
    Replay Unit :=
  if instructions[position]? = some expected then pure ()
  else throw (.sequenceConflict position expected instructions[position]?)

def ensureOccurrence (instructions : List Tuple) (position : Nat) (expected : OccurrenceKey) :
    Replay Unit :=
  if occurrenceKeyAt instructions position = some expected then pure ()
  else throw (.occurrenceConflict position expected (occurrenceKeyAt instructions position))

/-- One edit of a positional delta. -/
def applyEdit (instructions : List Tuple) (edit : SequenceEdit) : Replay (List Tuple) :=
  match edit with
  | .insert position value instruction => do
      if position > instructions.length then throw (.invalidSequenceInstruction position)
      validateTuple instruction position
      let inserted ← Fallible.ofRust (Vec.insert instructions position instruction)
      ensureOccurrence inserted position value
      pure inserted
  | .remove position target expected => do
      ensureExpected instructions position expected
      ensureOccurrence instructions position target
      Fallible.ofRust (Vec.remove instructions position)
  | .replace position target expected value replacement => do
      ensureExpected instructions position expected
      ensureOccurrence instructions position target
      validateTuple replacement position
      let replaced ← Fallible.ofRust (Vec.set instructions position replacement)
      ensureOccurrence replaced position value
      pure replaced

/-- The edit loop of `apply_sequence` on a copied stream, and its final validation. -/
def FileState.applyEdits (file : FileState) (edits : List SequenceEdit) : Replay FileState := do
  let instructions ← edits.foldlM applyEdit file.instructions
  validateTuples instructions
  pure { file with instructions }

/-- Context state: all files, the global version and the source hashes. -/
structure ContextState where
  files : HashMap String FileState
  version : UInt64
  sourceHashes : HashMap String String
  deriving DecidableEq

namespace ContextState

def new : ContextState := { files := ∅, version := 0, sourceHashes := ∅ }

/-- Load a full IR, replacing the file's state. -/
def loadIr (self : ContextState) (ir : CompiledIR) (sourceHash : Option String) : ContextState where
  files := self.files.insert ir.fileId (.fromCompiled ir)
  version := max self.version ir.version
  sourceHashes :=
    match sourceHash with
    | some hash => self.sourceHashes.insert ir.fileId hash
    | none => self.sourceHashes

abbrev Apply := Method ContextState DeltaError

/-- The version checks shared by the two appliers, on the named file. -/
def checkedFile (file : String) (fromVersion toVersion : UInt64) : Apply FileState := do
  let self ← get
  match self.files.lookup file with
  | none => throw (.unknownFile file)
  | some state =>
      if state.version ≠ fromVersion then
        throw (.versionMismatch state.version fromVersion)
      else if toVersion ≤ fromVersion then
        throw (.nonMonotonicVersion fromVersion toVersion)
      else pure state

/-- Store the edited file at the delta's target version. -/
def publish (file : String) (state : FileState) (toVersion : UInt64) : Apply UInt64 := do
  modify fun self => { self with
    files := self.files.insert file { state with version := toVersion }.rebuildIndexes }
  modify fun self => { self with version := max self.version toVersion }
  pure toVersion

/-- `ContextState::apply`. -/
def apply (delta : IRDelta) : Apply UInt64 := do
  let file ← checkedFile delta.file delta.fromVersion delta.toVersion
  let candidate ← Method.ofLocal (file.applyOps delta.ops)
  publish delta.file candidate delta.toVersion

/-- `ContextState::apply_sequence`. -/
def applySequence (delta : SequenceDelta) : Apply UInt64 :=
  if delta.deltaVersion ≠ sequenceDeltaVersion then
    throw (.unsupportedDeltaVersion delta.deltaVersion)
  else do
    let file ← checkedFile delta.file delta.fromVersion delta.toVersion
    let candidate ← Method.ofLocal (file.applyEdits delta.edits)
    publish delta.file candidate delta.toVersion

def getIr (self : ContextState) (fileId : String) : Option (List Tuple) :=
  (self.files.lookup fileId).map (·.instructions)

end ContextState
end CleanCtx
