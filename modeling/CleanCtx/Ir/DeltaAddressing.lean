import CleanCtx.Ir.FileIndex

/-!
What a legacy delta addresses (`ir/delta.rs`, `ir/delta/tuples.rs`). The keys of
an operation are derived twice, from the operation and from its tuple; a
deletion or modification computed from an operation reaches the position of
that operation in the replayed stream, or the applier reports an ambiguity.
-/
namespace CleanCtx

/-- The derivations of the two keys of an operation, from the operation and from its tuple. -/
structure KeysAgree (op : CoreOp) : Prop where
  encoded : primaryKey op = primaryKeyFromTuple (opToTuple op)
  keyed : primaryKeyFromTuple (opToTuple op) = primaryKeyFromTuple (keyTuple op)
  tuple : keyTuple op = keyTupleFromTuple (opToTuple op)

/-- The tuple of a pattern without arguments is padded when its key is read off. -/
theorem keyTuple_eq_iff (op : CoreOp) :
    keyTuple op = keyTupleFromTuple (opToTuple op) ↔ ∀ name, op ≠ .pattern name [] := by
  cases op with
  | pattern name args =>
      cases args with
      | nil =>
          refine iff_of_false ?_ fun h => h name rfl
          change ["PAT", name] ≠ ["PAT", name, ""]
          simp
      | cons arg args => exact iff_of_true rfl (by rintro _ ⟨⟩)
  | body _ _ start stop =>
      cases start <;> cases stop <;> exact iff_of_true rfl (by rintro name ⟨⟩)
  | call _ _ _ hasSpread => cases hasSpread <;> exact iff_of_true rfl (by rintro name ⟨⟩)
  | _ => exact iff_of_true rfl (by rintro name ⟨⟩)

theorem keysAgree_iff (op : CoreOp) : KeysAgree op ↔ ∀ name, op ≠ .pattern name [] := by
  rw [← keyTuple_eq_iff]
  refine ⟨KeysAgree.tuple, fun h => ⟨(primaryKeyFromTuple_opToTuple op).symm, ?_, h⟩⟩
  rw [primaryKeyFromTuple_opToTuple, primaryKeyFromTuple_keyTuple]

/-- A stream of operations, as a file holds it for replay. -/
structure FileState.Replays (file : FileState) (ops : List CoreOp) : Prop where
  indexed : file.IndexExact
  stream : file.instructions = ops.map opToTuple

/-- The outcome of an edit aimed at one position of a stream: the edited file, or an
ambiguity when another operation has the same primary key. -/
def Hits (file : FileState) (ops : List CoreOp) (position : Nat) (op : CoreOp)
    (edited : List Tuple) (outcome : Replay FileState) : Prop :=
  outcome = pure { file with instructions := edited }.rebuildIndexes ∨
    outcome = throw (.ambiguousLegacyTarget (primaryKey op)) ∧
      ∃ j other, j ≠ position ∧ ops[j]? = some other ∧ primaryKey other = primaryKey op

/-- Wherever an operation stands in a replayed stream, its deletion removes it there and
its modification rewrites it there. -/
structure Addresses (op : CoreOp) : Prop where
  deletion : ∀ {file : FileState} {ops : List CoreOp} {position : Nat}, file.Replays ops →
    ops[position]? = some op →
      Hits file ops position op (file.instructions.eraseIdx position)
        (file.removeLegacyTuple (opToTuple op))
  modification : ∀ {file : FileState} {ops : List CoreOp} {position : Nat}, file.Replays ops →
    ops[position]? = some op → ∀ replacement,
      Hits file ops position op (file.instructions.set position replacement)
        (file.applyMod { key := keyTuple op, replace := some replacement, patches := none })

namespace FileState

variable {file : FileState} {ops : List CoreOp} {position : Nat} {op : CoreOp}

theorem Replays.getElem? (h : file.Replays ops) (hop : ops[position]? = some op) :
    file.instructions[position]? = some (opToTuple op) := by
  rw [h.stream, List.getElem?_map, hop, Option.map_some]

theorem Replays.of_getElem? (h : file.Replays ops) {tuple : Tuple}
    (hget : file.instructions[position]? = some tuple) :
    ∃ op, ops[position]? = some op ∧ tuple = opToTuple op := by
  rw [h.stream, List.getElem?_map, Option.map_eq_some_iff] at hget
  obtain ⟨op, hop, rfl⟩ := hget
  exact ⟨op, hop, rfl⟩

theorem mem_legacyMatches {expected : Tuple} :
    position ∈ file.legacyMatches expected ↔
      ∃ tuple, file.instructions[position]? = some tuple ∧ legacyMatch expected tuple := by
  simp only [legacyMatches, List.mem_filterMap, Option.ite_none_right_eq_some,
    Option.some.injEq, Prod.exists, List.mem_zipIdx_iff_getElem?]
  constructor
  · rintro ⟨tuple, _, hget, hmatch, rfl⟩
    exact ⟨tuple, hget, hmatch⟩
  · rintro ⟨tuple, hget, hmatch⟩
    exact ⟨tuple, position, hget, hmatch, rfl⟩

theorem nodup_legacyMatches (expected : Tuple) : (file.legacyMatches expected).Nodup := by
  have hsub : ((file.legacyMatches expected).map id).Sublist
      (file.instructions.zipIdx.filterMap fun entry => some entry.2) :=
    Lists.map_filterMap_sublist
      (fun entry position h => by simpa using (Option.ite_none_right_eq_some.mp h).2) _
  rw [List.map_id, List.filterMap_eq_map', List.zipIdx_map_snd] at hsub
  exact hsub.nodup (List.nodup_range' _)

theorem legacyMatch_self (tuple : Tuple) : legacyMatch tuple tuple := by
  unfold legacyMatch
  dsimp only
  split
  case isTrue hkey => rw [hkey]; exact decide_eq_true rfl
  case isFalse => exact decide_eq_true rfl

/-- Whatever a deletion matches has the primary key of the deleted tuple. -/
theorem primaryKey_of_legacyMatch {expected tuple : Tuple} (h : legacyMatch expected tuple) :
    primaryKeyFromTuple tuple = primaryKeyFromTuple expected := by
  unfold legacyMatch at h
  dsimp only at h
  split at h
  case isTrue hkey => rw [hkey] at h; exact of_decide_eq_true h
  case isFalse => rw [of_decide_eq_true h]

/-- A match other than the addressed one shares its primary key. -/
theorem Replays.ambiguous (h : file.Replays ops) {j : Nat} (hne : j ≠ position)
    (hj : j ∈ file.legacyMatches (opToTuple op)) :
    ∃ j other, j ≠ position ∧ ops[j]? = some other ∧ primaryKey other = primaryKey op := by
  obtain ⟨tuple, hget, hmatch⟩ := mem_legacyMatches.mp hj
  obtain ⟨other, hother, rfl⟩ := h.of_getElem? hget
  refine ⟨j, other, hne, hother, ?_⟩
  have hkey := primaryKey_of_legacyMatch hmatch
  rwa [primaryKeyFromTuple_opToTuple, primaryKeyFromTuple_opToTuple] at hkey

theorem Replays.removeLegacyTuple_hits (h : file.Replays ops) (hop : ops[position]? = some op) :
    Hits file ops position op (file.instructions.eraseIdx position)
      (file.removeLegacyTuple (opToTuple op)) := by
  have hget := h.getElem? hop
  have hmem : position ∈ file.legacyMatches (opToTuple op) :=
    mem_legacyMatches.mpr ⟨_, hget, legacyMatch_self _⟩
  have hnodup := file.nodup_legacyMatches (opToTuple op)
  unfold removeLegacyTuple
  split
  case h_1 found hmatches =>
    rw [hmatches, List.mem_singleton] at hmem
    rw [← hmem, Vec.remove, if_pos (List.getElem?_eq_some_iff.mp hget).1]
    exact Or.inl rfl
  case h_2 hmatches =>
    rw [hmatches] at hmem
    exact absurd hmem List.not_mem_nil
  case h_3 hnone hsome =>
    rw [primaryKeyFromTuple_opToTuple]
    refine Or.inr ⟨rfl, ?_⟩
    cases hmatches : file.legacyMatches (opToTuple op) with
    | nil => exact absurd hmatches hsome
    | cons first others =>
        cases others with
        | nil => exact absurd hmatches (hnone first)
        | cons second rest =>
            rw [hmatches] at hnodup
            by_cases hfirst : first = position
            · have hne : second ≠ position := by
                rintro rfl
                simp [hfirst] at hnodup
              exact h.ambiguous hne (by simp [hmatches])
            · exact h.ambiguous hfirst (by simp [hmatches])

theorem Replays.applyMod_hits (h : file.Replays ops) (hop : ops[position]? = some op)
    (replacement : Tuple) :
    Hits file ops position op (file.instructions.set position replacement)
      (file.applyMod { key := keyTuple op, replace := some replacement, patches := none }) := by
  have hget := h.getElem? hop
  have hkey : primaryKeyFromTuple (opToTuple op) = primaryKeyFromTuple (keyTuple op) := by
    rw [primaryKeyFromTuple_opToTuple, primaryKeyFromTuple_keyTuple]
  unfold applyMod
  split
  case isTrue hcount =>
    rw [primaryKeyFromTuple_keyTuple]
    refine Or.inr ⟨rfl, ?_⟩
    obtain ⟨j, tuple, hne, hother, hsame⟩ := Lists.exists_other_position hcount position
    obtain ⟨other, hat, rfl⟩ := h.of_getElem? hother
    refine ⟨j, other, hne, hat, ?_⟩
    rw [decide_eq_true_eq, primaryKeyFromTuple_opToTuple, primaryKeyFromTuple_keyTuple] at hsame
    exact hsame
  case isFalse hcount =>
    obtain ⟨idx, hidx⟩ := h.indexed.lookup_isSome (List.mem_of_getElem? hget)
    obtain ⟨found, hfound, hfoundKey⟩ := h.indexed.sound hidx
    have hposition : idx = position := by
      refine Lists.position_unique (Nat.le_of_not_lt hcount) hfound ?_ hget ?_
      · simpa [← hkey] using hfoundKey
      · simpa using hkey
    rw [hkey, hposition] at hidx
    have hreplaced : ∃ index, file.replaceByKey (keyTuple op) replacement =
        .ok (some { file with
          instructions := file.instructions.set position replacement, index }.rebuildIndexes) := by
      unfold replaceByKey
      dsimp only
      rw [hidx]
      dsimp only
      rw [Vec.set, if_pos (List.getElem?_eq_some_iff.mp hget).1]
      exact ⟨_, rfl⟩
    obtain ⟨index, hreplaced⟩ := hreplaced
    left
    dsimp only
    rw [hreplaced, Fallible.ofRust_ok, pure_bind]
    exact congrArg (fun replaced => (pure replaced : Replay FileState))
      (rebuildIndexes_congr rfl rfl)

end FileState

theorem addresses (op : CoreOp) : Addresses op :=
  ⟨fun h hop => h.removeLegacyTuple_hits hop, fun h hop => h.applyMod_hits hop⟩

theorem Hits.outright {file : FileState} {ops : List CoreOp} {position : Nat} {op : CoreOp}
    {edited : List Tuple} {outcome : Replay FileState} (h : Hits file ops position op edited outcome)
    (hsole : ∀ j other, j ≠ position → ops[j]? = some other → primaryKey other ≠ primaryKey op) :
    outcome = pure { file with instructions := edited }.rebuildIndexes :=
  h.resolve_right fun ⟨_, j, other, hne, hother, hkey⟩ => hsole j other hne hother hkey

/-- Where no other operation has its primary key, an operation is deleted and rewritten at its
position. -/
theorem addresses_outright {file : FileState} {ops : List CoreOp} {position : Nat} {op : CoreOp}
    (hfile : file.Replays ops) (hop : ops[position]? = some op)
    (hsole : ∀ j other, j ≠ position → ops[j]? = some other → primaryKey other ≠ primaryKey op) :
    file.removeLegacyTuple (opToTuple op) =
        pure { file with instructions := file.instructions.eraseIdx position }.rebuildIndexes ∧
      ∀ replacement, file.applyMod
          { key := keyTuple op, replace := some replacement, patches := none } =
        pure { file with
          instructions := file.instructions.set position replacement }.rebuildIndexes :=
  ⟨((addresses op).deletion hfile hop).outright hsole, fun replacement =>
    ((addresses op).modification hfile hop replacement).outright hsole⟩

/-- The key derivations agree, and deltas address what they were computed from, for every
operation but a pattern without arguments. -/
theorem legacyKeys_agree_iff (op : CoreOp) :
    KeysAgree op ∧ Addresses op ↔ ∀ name, op ≠ .pattern name [] := by
  rw [keysAgree_iff]
  exact and_iff_left (addresses op)

/-- A pattern without arguments: its tuple has no argument, the key read off it has one. -/
theorem not_keysAgree_bare : ¬ KeysAgree (.pattern "singleton" []) := by
  rw [keysAgree_iff]
  exact fun h => h "singleton" rfl

end CleanCtx
