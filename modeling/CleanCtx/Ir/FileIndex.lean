import CleanCtx.Ir.Replay

/-!
The coarse index of a file state. `rebuildIndexes` makes it exact, every legacy
operation keeps it exact, and an exact index never leads outside the stream.
-/
namespace CleanCtx
namespace FileState

@[simp] theorem indexTuple_instructions (state : FileState) (entry : Tuple × Nat) :
    (state.indexTuple entry).instructions = state.instructions := by
  unfold indexTuple
  dsimp only
  split <;> rfl

@[simp] theorem indexTuple_version (state : FileState) (entry : Tuple × Nat) :
    (state.indexTuple entry).version = state.version := by
  unfold indexTuple
  dsimp only
  split <;> rfl

@[simp] theorem indexTuple_index (state : FileState) (entry : Tuple × Nat) :
    (state.indexTuple entry).index =
      state.index.insert (primaryKeyFromTuple entry.1) entry.2 := by
  unfold indexTuple
  dsimp only
  split <;> rfl

theorem foldl_indexTuple_frame (entries : List (Tuple × Nat)) (state : FileState) :
    (entries.foldl indexTuple state).instructions = state.instructions ∧
      (entries.foldl indexTuple state).version = state.version := by
  induction entries generalizing state with
  | nil => exact ⟨rfl, rfl⟩
  | cons entry entries ih =>
      rw [List.foldl_cons, (ih _).1, (ih _).2, indexTuple_instructions, indexTuple_version]
      exact ⟨rfl, rfl⟩

@[simp] theorem rebuildIndexes_instructions (state : FileState) :
    state.rebuildIndexes.instructions = state.instructions :=
  (foldl_indexTuple_frame _ _).1

@[simp] theorem rebuildIndexes_version (state : FileState) :
    state.rebuildIndexes.version = state.version :=
  (foldl_indexTuple_frame _ _).2

/-- The rebuilt state depends on the stream and the version, not on the old indexes. -/
theorem rebuildIndexes_congr {state state' : FileState}
    (hinstructions : state.instructions = state'.instructions)
    (hversion : state.version = state'.version) :
    state.rebuildIndexes = state'.rebuildIndexes := by
  obtain ⟨_, _, _, _⟩ := state
  obtain ⟨_, _, _, _⟩ := state'
  cases hinstructions
  cases hversion
  rfl

theorem foldl_indexTuple_index (entries : List (Tuple × Nat)) (state : FileState) :
    (entries.foldl indexTuple state).index =
      entries.foldl (fun index entry => index.insert (primaryKeyFromTuple entry.1) entry.2)
        state.index := by
  induction entries generalizing state with
  | nil => rfl
  | cons entry entries ih => rw [List.foldl_cons, ih, indexTuple_index, List.foldl_cons]

/-- The index agrees with the stream. -/
def IndexExact (state : FileState) : Prop :=
  Indexes primaryKeyFromTuple state.index state.instructions

theorem rebuildIndexes_indexExact (state : FileState) : state.rebuildIndexes.IndexExact := by
  rw [IndexExact, rebuildIndexes_instructions, rebuildIndexes, foldl_indexTuple_index]
  exact Indexes.empty.indexFrom state.instructions

theorem fromCompiled_indexExact (ir : CompiledIR) : (fromCompiled ir).IndexExact :=
  rebuildIndexes_indexExact _

@[simp] theorem fromCompiled_instructions (ir : CompiledIR) :
    (fromCompiled ir).instructions = ir.instructions.map opToTuple :=
  rebuildIndexes_instructions _

@[simp] theorem fromCompiled_version (ir : CompiledIR) :
    (fromCompiled ir).version = ir.version :=
  rebuildIndexes_version _

theorem safe_validateTuple (tuple : Tuple) (position : Nat) :
    (validateTuple tuple position).Safe fun _ => True := by
  unfold validateTuple
  split
  · exact Fallible.safe_pure trivial
  · exact Fallible.safe_throw _

theorem safe_validateTuplesFrom (i : Nat) (tuples : List Tuple) :
    (validateTuplesFrom i tuples).Safe fun _ => True := by
  induction tuples generalizing i with
  | nil => exact Fallible.safe_pure trivial
  | cons tuple rest ih => exact (safe_validateTuple tuple i).bind fun _ _ => ih (i + 1)

theorem mem_legacyMatches_lt {state : FileState} {expected : Tuple} {position : Nat}
    (h : position ∈ state.legacyMatches expected) : position < state.instructions.length := by
  unfold legacyMatches at h
  obtain ⟨⟨tuple, i⟩, hmem, hi⟩ := List.mem_filterMap.mp h
  have hlt := List.mem_zipIdx hmem
  dsimp only at hi
  by_cases hmatch : legacyMatch expected tuple
  · rw [if_pos hmatch, Option.some.injEq] at hi
    omega
  · rw [if_neg hmatch] at hi
    cases hi

theorem safe_removeLegacyTuple (state : FileState) (expected : Tuple) :
    (state.removeLegacyTuple expected).Safe IndexExact := by
  unfold removeLegacyTuple
  split
  case h_1 position hmatches =>
    have hmem : position ∈ state.legacyMatches expected := by simp [hmatches]
    have hlt := mem_legacyMatches_lt hmem
    rw [Vec.remove, if_pos hlt]
    exact Fallible.safe_pure (rebuildIndexes_indexExact _)
  case h_2 => exact Fallible.safe_throw _
  case h_3 => exact Fallible.safe_throw _

theorem replaceByKey_ok {state : FileState} (h : state.IndexExact)
    (keyTuple replacement : Tuple) :
    ∃ result, state.replaceByKey keyTuple replacement = .ok result ∧
      ∀ replaced, result = some replaced → replaced.IndexExact := by
  unfold replaceByKey
  dsimp only
  split
  case h_1 idx hidx =>
    rw [Vec.set, if_pos (h.lt hidx)]
    exact ⟨_, rfl, by rintro _ ⟨⟩; exact rebuildIndexes_indexExact _⟩
  case h_2 => exact ⟨none, rfl, by rintro _ ⟨⟩⟩

theorem safe_patchByKey {state : FileState} (h : state.IndexExact) (keyTuple : Tuple)
    (hcount : state.legacyTargetCount keyTuple ≤ 1) (patches : List FieldPatch) :
    (state.patchByKey keyTuple patches).Safe IndexExact := by
  unfold patchByKey
  dsimp only
  split
  case h_1 => exact Fallible.safe_throw _
  case h_2 idx hidx =>
    have hlt := h.lt hidx
    obtain ⟨instruction, hget, hkey⟩ := h.sound hidx
    have hunique : ∀ j tuple, state.instructions[j]? = some tuple →
        primaryKeyFromTuple tuple = primaryKeyFromTuple keyTuple → j = idx := by
      intro j tuple hj hk
      exact Lists.position_unique hcount hj (by simpa using hk) hget (by simpa using hkey)
    rw [Vec.index, hget]
    dsimp only
    rw [Fallible.ofRust_ok, pure_bind, Vec.set, if_pos hlt, Fallible.ofRust_ok, pure_bind]
    exact Fallible.safe_pure (Indexes.set h hidx hunique _)

theorem safe_applyMod (candidate : FileState) (modOp : ModOp) (h : candidate.IndexExact) :
    (candidate.applyMod modOp).Safe IndexExact := by
  unfold applyMod
  split
  · exact Fallible.safe_throw _
  · rename_i hcount
    split
    case h_1 replacement _ =>
      obtain ⟨result, hresult, hexact⟩ := replaceByKey_ok h modOp.key replacement
      rw [hresult, Fallible.ofRust_ok, pure_bind]
      cases result with
      | none => exact Fallible.safe_throw _
      | some replaced => exact Fallible.safe_pure (hexact replaced rfl)
    case h_2 patches _ _ => exact safe_patchByKey h modOp.key (by omega) patches
    case h_3 => exact Fallible.safe_pure h

theorem safe_append (state : FileState) (instruction : Tuple) :
    (state.append instruction).Safe IndexExact := by
  refine (safe_validateTuple _ _).bind fun _ _ => ?_
  dsimp only
  split
  · exact Fallible.safe_throw _
  · exact Fallible.safe_pure (rebuildIndexes_indexExact _)

/-- The three phases of a legacy application never panic on an exactly indexed file. -/
theorem safe_applyOps {file : FileState} (h : file.IndexExact) (ops : DeltaOps) :
    (file.applyOps ops).Safe IndexExact := by
  refine (Fallible.Safe.foldlM (fun s del _ => safe_removeLegacyTuple s del) ops.dels h).bind ?_
  intro deleted hdeleted
  refine (Fallible.Safe.foldlM safe_applyMod ops.mods hdeleted).bind ?_
  intro modified hmodified
  refine (Fallible.Safe.foldlM (fun s add _ => safe_append s add) ops.adds hmodified).bind ?_
  intro added hadded
  exact (safe_validateTuplesFrom 0 _).bind fun _ _ => Fallible.safe_pure hadded

end FileState
end CleanCtx
