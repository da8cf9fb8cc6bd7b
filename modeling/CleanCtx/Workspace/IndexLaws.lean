import CleanCtx.Workspace.Index

/-!
What each operation of the index does to each of its views, stated once. Later
invariants are derived from these laws and never unfold an operation.
-/
namespace CleanCtx

namespace EdgeKey

@[simp] theorem subjectKey_new (file : String) (edge : SemanticEdge) :
    (new file edge).subjectKey = entityKey edge.subject := rfl

@[simp] theorem objectKey_new (file : String) (edge : SemanticEdge) :
    (new file edge).objectKey = entityKey edge.object := rfl

@[simp] theorem assertingFile_new (file : String) (edge : SemanticEdge) :
    (new file edge).assertingFile = file := rfl

theorem matches_eq (key : EdgeKey) (stored : StoredEdge) :
    key.matches stored.assertingFile stored.edge = decide (stored.key = key) := by
  rw [Bool.eq_iff_iff, decide_eq_true_iff, @eq_comm _ stored.key]
  cases key
  simp only [«matches», sameTriple, StoredEdge.key, new, Bool.and_eq_true, decide_eq_true_eq,
    EdgeKey.mk.injEq, and_assoc]

end EdgeKey

namespace WorkspaceIndex

variable {s : WorkspaceIndex} {k key : EntityKey} {file : String} {keys : List EntityKey}

theorem mem_pushNew {new : EntityKey} : k ∈ pushNew keys new ↔ k = new ∨ k ∈ keys := by
  unfold pushNew
  split
  · next h => exact ⟨.inr, fun hk => hk.elim (fun heq => heq ▸ h) id⟩
  · rw [List.mem_append, List.mem_singleton, or_comm]

theorem nodup_pushNew {new : EntityKey} (h : keys.Nodup) : (pushNew keys new).Nodup := by
  unfold pushNew
  split
  · exact h
  · next hnew =>
    rw [← List.concat_eq_append]
    exact h.concat hnew

theorem pushNew_ne_nil {new : EntityKey} : pushNew keys new ≠ [] := by
  intro h
  have hmem : new ∈ pushNew keys new := mem_pushNew.mpr (.inl rfl)
  rw [h] at hmem
  cases hmem

section Register

variable (s) (key) (entity : EntityRef) (keys)

@[simp] theorem registerEntity_forward :
    (s.registerEntity key entity keys).1.forward = s.forward := by
  unfold registerEntity
  dsimp only
  split <;> rfl

@[simp] theorem registerEntity_reverse :
    (s.registerEntity key entity keys).1.reverse = s.reverse := by
  unfold registerEntity
  dsimp only
  split <;> rfl

@[simp] theorem registerEntity_edgeSet :
    (s.registerEntity key entity keys).1.edgeSet = s.edgeSet := by
  unfold registerEntity
  dsimp only
  split <;> rfl

@[simp] theorem registerEntity_edgeCount :
    (s.registerEntity key entity keys).1.edgeCount = s.edgeCount := by
  unfold registerEntity
  dsimp only
  split <;> rfl

@[simp] theorem registerEntity_fileEdges :
    (s.registerEntity key entity keys).1.fileEdges = s.fileEdges := by
  unfold registerEntity
  dsimp only
  split <;> rfl

@[simp] theorem registerEntity_fileMap :
    (s.registerEntity key entity keys).1.fileMap = s.fileMap := by
  unfold registerEntity
  dsimp only
  split <;> rfl

@[simp] theorem registerEntity_semanticCoverage :
    (s.registerEntity key entity keys).1.semanticCoverage = s.semanticCoverage := by
  unfold registerEntity
  dsimp only
  split <;> rfl

theorem registerEntity_nameIndex : (s.registerEntity key entity keys).1.nameIndex =
    s.nameIndex.insert entity.name (pushNew (bucket s.nameIndex entity.name) key) := by
  unfold registerEntity
  dsimp only
  split <;> rfl

/-- The occurrence is stored unless one of its file is. -/
theorem bucket_registerEntity (k : EntityKey) :
    bucket (s.registerEntity key entity keys).1.entities k =
      if k = key ∧ entity.file ∉ (bucket s.entities key).map EntityRef.file then
        bucket s.entities key ++ [entity]
      else bucket s.entities k := by
  have hany : (bucket s.entities key).any (·.file = entity.file) = true ↔
      entity.file ∈ (bucket s.entities key).map EntityRef.file := by
    simp
  unfold registerEntity
  dsimp only
  split
  · next h =>
    rw [if_neg (fun hk => hk.2 (hany.mp h)), bucket_insert]
    split
    · next hk => rw [hk]
    · rfl
  · next h =>
    rw [bucket_insert]
    by_cases hk : k = key
    · rw [if_pos hk, if_pos ⟨hk, fun hmem => h (hany.mpr hmem)⟩]
    · rw [if_neg hk, if_neg fun hand => hk hand.1]

theorem registerEntity_snd : (s.registerEntity key entity keys).2 =
    if entity.file ∈ (bucket s.entities key).map EntityRef.file then keys else keys ++ [key] := by
  have hany : (bucket s.entities key).any (·.file = entity.file) = true ↔
      entity.file ∈ (bucket s.entities key).map EntityRef.file := by
    simp
  unfold registerEntity
  dsimp only
  split
  · next h => rw [if_pos (hany.mp h)]
  · next h => rw [if_neg fun hmem => h (hany.mpr hmem)]

theorem occupied_registerEntity (h : Occupied s.entities) :
    Occupied (s.registerEntity key entity keys).1.entities := by
  unfold registerEntity
  dsimp only
  split
  · next hany =>
    refine h.insert fun hnil => ?_
    rw [hnil] at hany
    cases hany
  · exact h.insert (List.append_ne_nil_of_right_ne_nil _ (by simp))

theorem occupied_registerEntity_names (h : Occupied s.nameIndex) :
    Occupied (s.registerEntity key entity keys).1.nameIndex := by
  rw [registerEntity_nameIndex]
  exact h.insert pushNew_ne_nil

theorem file_mem_registerEntity : entity.file ∈
    (bucket (s.registerEntity key entity keys).1.entities key).map EntityRef.file := by
  rw [bucket_registerEntity]
  split
  · simp
  · next h =>
    by_contra hnot
    exact h ⟨rfl, hnot⟩

end Register

section Remove

variable (s) (file)

/-- The first phase, as a fold over the adjacencies and the edge set. -/
theorem removeOccurrences_views :
    (s.removeOccurrences file).entities = s.entities ∧
    (s.removeOccurrences file).fileMap = s.fileMap ∧
    (s.removeOccurrences file).nameIndex = s.nameIndex ∧
    (s.removeOccurrences file).fileEdges = s.fileEdges.erase file ∧
    (s.removeOccurrences file).semanticCoverage = s.semanticCoverage.erase file ∧
    (s.removeOccurrences file).edgeCount =
      s.edgeCount - (bucket s.fileEdges file).length := by
  have hfold : ∀ (removed : List EdgeKey) (s : WorkspaceIndex),
      let dropped := removed.foldl
        (fun index key => dropOccurrence { index with edgeSet := index.edgeSet.erase key } key) s
      dropped.entities = s.entities ∧ dropped.fileMap = s.fileMap ∧
        dropped.nameIndex = s.nameIndex ∧ dropped.fileEdges = s.fileEdges ∧
        dropped.semanticCoverage = s.semanticCoverage ∧ dropped.edgeCount = s.edgeCount := by
    intro removed
    induction removed with
    | nil => exact fun s => ⟨rfl, rfl, rfl, rfl, rfl, rfl⟩
    | cons key removed ih => exact fun s => ih (dropOccurrence { s with edgeSet := _ } key)
  exact hfold _ _

theorem mem_removeOccurrences_edgeSet (key : EdgeKey) :
    key ∈ (s.removeOccurrences file).edgeSet ↔
      key ∈ s.edgeSet ∧ key ∉ bucket s.fileEdges file := by
  have hfold : ∀ (removed : List EdgeKey) (s : WorkspaceIndex),
      key ∈ (removed.foldl
        (fun index key => dropOccurrence { index with edgeSet := index.edgeSet.erase key } key)
        s).edgeSet ↔ key ∈ s.edgeSet ∧ key ∉ removed := by
    intro removed
    induction removed with
    | nil => simp
    | cons first removed ih =>
        intro s
        rw [List.foldl_cons, ih, List.mem_cons, not_or]
        change key ∈ s.edgeSet.erase first ∧ _ ↔ _
        rw [Finset.mem_erase]
        tauto
  exact hfold _ _

theorem bucket_removeOccurrences_forward (k : EntityKey) :
    bucket (s.removeOccurrences file).forward k =
      (bucket s.forward k).filter fun stored =>
        decide (∀ key ∈ bucket s.fileEdges file, key.subjectKey = k → stored.key ≠ key) := by
  have hfold : ∀ (removed : List EdgeKey) (s : WorkspaceIndex),
      bucket (removed.foldl
        (fun index key => dropOccurrence { index with edgeSet := index.edgeSet.erase key } key)
        s).forward k =
      (bucket s.forward k).filter fun stored =>
        decide (∀ key ∈ removed, key.subjectKey = k → stored.key ≠ key) := by
    intro removed
    induction removed with
    | nil => simp
    | cons first removed ih =>
        intro s
        rw [List.foldl_cons, ih]
        change (bucket (retainAt s.forward first.subjectKey _) k).filter _ = _
        rw [bucket_retainAt]
        by_cases hk : k = first.subjectKey
        · rw [if_pos hk, List.filter_filter]
          refine List.filter_congr fun stored _ => ?_
          rw [Bool.eq_iff_iff]
          simp [EdgeKey.matches_eq, hk, and_comm]
        · rw [if_neg hk]
          refine List.filter_congr fun stored _ => ?_
          simp [Ne.symm hk]
  exact hfold _ _

theorem bucket_removeOccurrences_reverse (k : EntityKey) :
    bucket (s.removeOccurrences file).reverse k =
      (bucket s.reverse k).filter fun stored =>
        decide (∀ key ∈ bucket s.fileEdges file, key.objectKey = k → stored.key ≠ key) := by
  have hfold : ∀ (removed : List EdgeKey) (s : WorkspaceIndex),
      bucket (removed.foldl
        (fun index key => dropOccurrence { index with edgeSet := index.edgeSet.erase key } key)
        s).reverse k =
      (bucket s.reverse k).filter fun stored =>
        decide (∀ key ∈ removed, key.objectKey = k → stored.key ≠ key) := by
    intro removed
    induction removed with
    | nil => simp
    | cons first removed ih =>
        intro s
        rw [List.foldl_cons, ih]
        change (bucket (retainAt s.reverse first.objectKey _) k).filter _ = _
        rw [bucket_retainAt]
        by_cases hk : k = first.objectKey
        · rw [if_pos hk, List.filter_filter]
          refine List.filter_congr fun stored _ => ?_
          rw [Bool.eq_iff_iff]
          simp [EdgeKey.matches_eq, hk, and_comm]
        · rw [if_neg hk]
          refine List.filter_congr fun stored _ => ?_
          simp [Ne.symm hk]
  exact hfold _ _

theorem removeFile_eq : s.removeFile file =
    (s.removeOccurrences file).removeEntities file (bucket s.fileMap file) := by
  have hmap : (s.removeOccurrences file).fileMap = s.fileMap := (removeOccurrences_views s file).2.1
  unfold removeFile
  dsimp only
  rw [hmap, bucket]
  cases h : s.fileMap.lookup file with
  | some keys => rfl
  | none =>
      have herase : (s.removeOccurrences file).fileMap.erase file =
          (s.removeOccurrences file).fileMap := by
        refine Finmap.ext_lookup fun f => ?_
        by_cases hf : f = file
        · rw [hf, Finmap.lookup_erase, hmap, h]
        · rw [Finmap.lookup_erase_ne hf]
      simp only [removeEntities, Option.getD_none, List.foldl_nil, List.map_nil, List.dedup_nil,
        herase]

theorem bucket_removeFile_entities (k : EntityKey) :
    bucket (s.removeFile file).entities k =
      if k ∈ bucket s.fileMap file then
        (bucket s.entities k).filter fun e => decide (e.file ≠ some file)
      else bucket s.entities k := by
  rw [removeFile_eq]
  unfold removeEntities
  rw [bucket_foldl_pruneAt, (removeOccurrences_views s file).1]

theorem occupied_removeFile (h : Occupied s.entities) : Occupied (s.removeFile file).entities := by
  rw [removeFile_eq]
  unfold removeEntities
  refine occupied_foldl_pruneAt _ _ ?_
  rw [(removeOccurrences_views s file).1]
  exact h

def Vanishes (k : EntityKey) : Prop :=
  k ∈ bucket s.fileMap file ∧ ∀ e ∈ bucket s.entities k, e.file = some file

instance (k : EntityKey) : Decidable (Vanishes s file k) := inferInstanceAs (Decidable (_ ∧ _))

variable {s} in
theorem vanishes_iff (h : Occupied s.entities) :
    Vanishes s file k ↔ k ∈ bucket s.fileMap file ∧ k ∉ (s.removeFile file).entities := by
  refine and_congr_right fun hk => ?_
  rw [occupied_removeFile s file h, bucket_removeFile_entities, if_pos hk, not_not,
    List.filter_eq_nil_iff]
  simp

theorem bucket_removeFile_forward (h : Occupied s.entities) (k : EntityKey) :
    bucket (s.removeFile file).forward k =
      if Vanishes s file k then [] else bucket (s.removeOccurrences file).forward k := by
  have hvanishes := vanishes_iff (k := k) file h
  rw [removeFile_eq] at hvanishes ⊢
  unfold removeEntities at hvanishes ⊢
  rw [bucket_foldl_erase]
  exact if_congr ((and_congr_right fun _ => decide_eq_true_iff).trans hvanishes.symm) rfl rfl

theorem bucket_removeFile_reverse (h : Occupied s.entities) (k : EntityKey) :
    bucket (s.removeFile file).reverse k =
      if Vanishes s file k then [] else bucket (s.removeOccurrences file).reverse k := by
  have hvanishes := vanishes_iff (k := k) file h
  rw [removeFile_eq] at hvanishes ⊢
  unfold removeEntities at hvanishes ⊢
  rw [bucket_foldl_erase]
  exact if_congr ((and_congr_right fun _ => decide_eq_true_iff).trans hvanishes.symm) rfl rfl

theorem bucket_removeFile_nameIndex (n : String) :
    bucket (s.removeFile file).nameIndex n =
      if ∃ k ∈ bucket s.fileMap file, k.name = n then
        (bucket s.nameIndex n).filter fun k => decide (k ∈ (s.removeFile file).entities)
      else bucket s.nameIndex n := by
  rw [removeFile_eq]
  unfold removeEntities
  rw [bucket_foldl_pruneAt, (removeOccurrences_views s file).2.2.1]
  simp

theorem occupied_removeFile_names (h : Occupied s.nameIndex) :
    Occupied (s.removeFile file).nameIndex := by
  rw [removeFile_eq]
  unfold removeEntities
  refine occupied_foldl_pruneAt _ _ ?_
  rw [(removeOccurrences_views s file).2.2.1]
  exact h

theorem removeFile_views :
    (s.removeFile file).edgeSet = (s.removeOccurrences file).edgeSet ∧
    (s.removeFile file).fileMap = s.fileMap.erase file ∧
    (s.removeFile file).fileEdges = s.fileEdges.erase file ∧
    (s.removeFile file).semanticCoverage = s.semanticCoverage.erase file ∧
    (s.removeFile file).edgeCount = s.edgeCount - (bucket s.fileEdges file).length := by
  obtain ⟨-, hmap, -, hedges, hcoverage, hcount⟩ := removeOccurrences_views s file
  rw [removeFile_eq]
  exact ⟨rfl, congrArg (Finmap.erase file) hmap, hedges, hcoverage, hcount⟩

end Remove
end WorkspaceIndex
end CleanCtx
