import CleanCtx.Library.Fallible
import CleanCtx.Ir.Delta

/-!
The positional delta computer (`ir/delta/sequence.rs`). `compute` trims the
common prefix and suffix, then edits a work list; every recorded edit carries
the expected tuple and the occurrence key read off that list.
-/
namespace CleanCtx

def sequenceDeltaVersion : UInt8 := 2

inductive SequenceEdit
  | insert (position : Nat) (value : OccurrenceKey) (instruction : Tuple)
  | remove (position : Nat) (target : OccurrenceKey) (expected : Tuple)
  | replace (position : Nat) (target : OccurrenceKey) (expected : Tuple)
      (value : OccurrenceKey) (replacement : Tuple)
  deriving DecidableEq

structure SequenceDelta where
  deltaVersion : UInt8
  file : String
  fromVersion : UInt64
  toVersion : UInt64
  targetHash : Option String
  edits : List SequenceEdit
  intent : Option SemanticIntent
  deriving DecidableEq

/-- The two accumulators of `compute`: the work list and the edits recorded on it. -/
structure Recording where
  work : List Tuple
  edits : List SequenceEdit
  deriving DecidableEq

namespace SequenceDeltaComputer

/-- The first `while` loop: the length of the common prefix. -/
def commonPrefix : List Tuple → List Tuple → Nat
  | a :: as, b :: bs => if a = b then commonPrefix as bs + 1 else 0
  | _, _ => 0

/-- The second `while` loop: the common suffix of what follows the prefix. -/
def commonSuffix (baseline target : List Tuple) (prefixLen : Nat) : Nat :=
  commonPrefix (baseline.drop prefixLen).reverse (target.drop prefixLen).reverse

def replaceStep (target : List Tuple) (prefixLen : Nat) (state : Recording) (offset : Nat) :
    Rust Recording := do
  let position := prefixLen + offset
  let expected ← Vec.index state.work position
  let targetKey ← expect "canonical tuple identity" (occurrenceKeyAt state.work position)
  let replacement ← Vec.index target position
  let work ← Vec.set state.work position replacement
  let value ← expect "replacement tuple identity" (occurrenceKeyAt work position)
  pure { work, edits := state.edits ++ [.replace position targetKey expected value replacement] }

def removeStep (position : Nat) (state : Recording) (_ : Nat) : Rust Recording := do
  let expected ← Vec.index state.work position
  let targetKey ← expect "canonical tuple identity" (occurrenceKeyAt state.work position)
  let work ← Vec.remove state.work position
  pure { work, edits := state.edits ++ [.remove position targetKey expected] }

def insertStep (target : List Tuple) (prefixLen : Nat) (state : Recording) (offset : Nat) :
    Rust Recording := do
  let position := prefixLen + offset
  let instruction ← Vec.index target position
  let work ← Vec.insert state.work position instruction
  let value ← expect "canonical tuple identity" (occurrenceKeyAt work position)
  pure { work, edits := state.edits ++ [.insert position value instruction] }

/-- The three edit loops of `compute` on the two tuple streams. -/
def recordEdits (baseline target : List Tuple) : Rust Recording := do
  let prefixLen := commonPrefix baseline target
  let suffixLen := commonSuffix baseline target prefixLen
  let baseMiddle := baseline.length - prefixLen - suffixLen
  let targetMiddle := target.length - prefixLen - suffixLen
  let replacements := min baseMiddle targetMiddle
  let replaced ← (List.range replacements).foldlM (replaceStep target prefixLen)
    { work := baseline, edits := [] }
  let removed ← (List.range' replacements (baseMiddle - replacements)).foldlM
    (removeStep (prefixLen + replacements)) replaced
  (List.range' replacements (targetMiddle - replacements)).foldlM
    (insertStep target prefixLen) removed

/-- `SequenceDeltaComputer::compute`. -/
def compute (baseline current : CompiledIR) : Rust (Option SequenceDelta) := do
  let intent := detectSemanticIntent baseline current
  let baselineTuples := baseline.instructions.map opToTuple
  let target := current.instructions.map opToTuple
  if baselineTuples = target then pure none
  else
    let recording ← recordEdits baselineTuples target
    pure (some {
      deltaVersion := sequenceDeltaVersion, file := current.fileId,
      fromVersion := baseline.version, toVersion := current.version,
      targetHash := none, edits := recording.edits, intent })

end SequenceDeltaComputer
end CleanCtx
