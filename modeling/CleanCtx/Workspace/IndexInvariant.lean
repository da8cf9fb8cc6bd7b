import CleanCtx.Workspace.History
import CleanCtx.Workspace.IndexLaws

/-!
The representation invariant of the index: its views hold the same evidence.
Adding edges always keeps it. Removing files keeps it when no endpoint of an
edge that stays has its only occurrences among those that go.
-/
namespace CleanCtx
namespace WorkspaceIndex

/-- The redundant views of the index agree. -/
structure Consistent (s : WorkspaceIndex) : Prop where
  asserted : ∀ f, ∀ key ∈ bucket s.fileEdges f, key.assertingFile = f
  fileEdges : ∀ f, (bucket s.fileEdges f).Nodup
  edgeSet : ∀ key, key ∈ s.edgeSet ↔ key ∈ bucket s.fileEdges key.assertingFile
  forward : ∀ k, ((bucket s.forward k).map StoredEdge.key).Nodup
  mem_forward : ∀ k key, key ∈ (bucket s.forward k).map StoredEdge.key ↔
    key ∈ s.edgeSet ∧ key.subjectKey = k
  reverse : ∀ k, ((bucket s.reverse k).map StoredEdge.key).Nodup
  mem_reverse : ∀ k key, key ∈ (bucket s.reverse k).map StoredEdge.key ↔
    key ∈ s.edgeSet ∧ key.objectKey = k
  edgeCount : s.edgeCount = s.edgeSet.card
  identities : Occupied s.entities
  keyed : ∀ k, ∀ e ∈ bucket s.entities k, entityKey e = k
  occurrences : ∀ k, ((bucket s.entities k).map EntityRef.file).Nodup
  names : Occupied s.nameIndex
  nodup_names : ∀ n, (bucket s.nameIndex n).Nodup
  mem_names : ∀ n k, k ∈ bucket s.nameIndex n ↔ k ∈ s.entities ∧ k.name = n
  endpoints : ∀ key ∈ s.edgeSet, key.subjectKey ∈ s.entities ∧ key.objectKey ∈ s.entities

variable {s : WorkspaceIndex} {file : String}

theorem consistent_new : Consistent new where
  asserted _ _ h := by cases h
  fileEdges _ := List.nodup_nil
  edgeSet _ := iff_of_false (Finset.notMem_empty _) List.not_mem_nil
  forward _ := List.nodup_nil
  mem_forward _ _ := iff_of_false List.not_mem_nil fun h => Finset.notMem_empty _ h.1
  reverse _ := List.nodup_nil
  mem_reverse _ _ := iff_of_false List.not_mem_nil fun h => Finset.notMem_empty _ h.1
  edgeCount := rfl
  identities := occupied_empty
  keyed _ _ h := by cases h
  occurrences _ := List.nodup_nil
  names := occupied_empty
  nodup_names _ := List.nodup_nil
  mem_names _ _ := iff_of_false List.not_mem_nil fun h => Finmap.notMem_empty h.1
  endpoints _ h := absurd h (Finset.notMem_empty _)

/-- The views agree, except perhaps on what some files assert. -/
structure ConsistentOutside (gone : String → Prop) (s : WorkspaceIndex) : Prop where
  asserted : ∀ f, ∀ key ∈ bucket s.fileEdges f, key.assertingFile = f
  fileEdges : ∀ f, (bucket s.fileEdges f).Nodup
  edgeSet : ∀ key, key ∈ s.edgeSet ↔ key ∈ bucket s.fileEdges key.assertingFile
  forward : ∀ k, ((bucket s.forward k).map StoredEdge.key).Nodup
  forward_sound : ∀ k, ∀ key ∈ (bucket s.forward k).map StoredEdge.key,
    key ∈ s.edgeSet ∧ key.subjectKey = k
  forward_complete : ∀ key ∈ s.edgeSet, ¬ gone key.assertingFile →
    key ∈ (bucket s.forward key.subjectKey).map StoredEdge.key
  reverse : ∀ k, ((bucket s.reverse k).map StoredEdge.key).Nodup
  reverse_sound : ∀ k, ∀ key ∈ (bucket s.reverse k).map StoredEdge.key,
    key ∈ s.edgeSet ∧ key.objectKey = k
  reverse_complete : ∀ key ∈ s.edgeSet, ¬ gone key.assertingFile →
    key ∈ (bucket s.reverse key.objectKey).map StoredEdge.key
  edgeCount : s.edgeCount = s.edgeSet.card
  identities : Occupied s.entities
  keyed : ∀ k, ∀ e ∈ bucket s.entities k, entityKey e = k
  occurrences : ∀ k, ((bucket s.entities k).map EntityRef.file).Nodup
  names : Occupied s.nameIndex
  nodup_names : ∀ n, (bucket s.nameIndex n).Nodup
  mem_names : ∀ n k, k ∈ bucket s.nameIndex n ↔ k ∈ s.entities ∧ k.name = n
  endpoints : ∀ key ∈ s.edgeSet, ¬ gone key.assertingFile →
    key.subjectKey ∈ s.entities ∧ key.objectKey ∈ s.entities

theorem Consistent.outside (h : Consistent s) (gone : String → Prop) :
    ConsistentOutside gone s :=
  { h with
    forward_sound := fun k key hkey => (h.mem_forward k key).mp hkey
    forward_complete := fun key hkey _ => (h.mem_forward _ key).mpr ⟨hkey, rfl⟩
    reverse_sound := fun k key hkey => (h.mem_reverse k key).mp hkey
    reverse_complete := fun key hkey _ => (h.mem_reverse _ key).mpr ⟨hkey, rfl⟩
    endpoints := fun key hkey _ => h.endpoints key hkey }

/-- Every edge that stays when some files go keeps an occurrence of each of its endpoints. -/
def KeepsEndpoints (s : WorkspaceIndex) (gone : String → Prop) : Prop :=
  ∀ key ∈ s.edgeSet, ¬ gone key.assertingFile →
    ∀ k ∈ [key.subjectKey, key.objectKey], ∃ e ∈ bucket s.entities k,
      ∀ f, gone f → e.file = some f → k ∉ bucket s.fileMap f

namespace ConsistentOutside

variable {gone : String → Prop}

theorem everywhere (h : ConsistentOutside gone s)
    (hnone : ∀ key ∈ s.edgeSet, ¬ gone key.assertingFile) : Consistent s :=
  { h with
    mem_forward := fun k key => ⟨h.forward_sound k key, fun hkey =>
      hkey.2 ▸ h.forward_complete key hkey.1 (hnone key hkey.1)⟩
    mem_reverse := fun k key => ⟨h.reverse_sound k key, fun hkey =>
      hkey.2 ▸ h.reverse_complete key hkey.1 (hnone key hkey.1)⟩
    endpoints := fun key hkey => h.endpoints key hkey (hnone key hkey) }

/-- Files without edges need no exception. -/
theorem mono (h : ConsistentOutside gone s) {gone' : String → Prop}
    (hle : ∀ key ∈ s.edgeSet, gone key.assertingFile → gone' key.assertingFile) :
    ConsistentOutside gone' s :=
  { h with
    forward_complete := fun key hkey hstays =>
      h.forward_complete key hkey fun hgone => hstays (hle key hkey hgone)
    reverse_complete := fun key hkey hstays =>
      h.reverse_complete key hkey fun hgone => hstays (hle key hkey hgone)
    endpoints := fun key hkey hstays =>
      h.endpoints key hkey fun hgone => hstays (hle key hkey hgone) }

theorem mem_registerEntity (h : ConsistentOutside gone s) (key : EntityKey) (entity : EntityRef)
    (keys : List EntityKey) (k : EntityKey) :
    k ∈ (s.registerEntity key entity keys).1.entities ↔ k = key ∨ k ∈ s.entities := by
  rw [occupied_registerEntity s key keys entity h.identities, h.identities k]
  by_cases hk : k = key
  · refine iff_of_true (fun hnil => ?_) (.inl hk)
    have hfile := file_mem_registerEntity s key keys entity
    rw [hk] at hnil
    rw [hnil] at hfile
    cases hfile
  · rw [bucket_registerEntity, if_neg fun hand => hk hand.1, or_iff_right hk]

theorem registerEntity (h : ConsistentOutside gone s) (entity : EntityRef) (keys : List EntityKey) :
    ConsistentOutside gone (s.registerEntity (entityKey entity) entity keys).1 where
  asserted := by simpa using h.asserted
  fileEdges := by simpa using h.fileEdges
  edgeSet := by simpa using h.edgeSet
  forward := by simpa using h.forward
  forward_sound := by simpa using h.forward_sound
  forward_complete := by simpa using h.forward_complete
  reverse := by simpa using h.reverse
  reverse_sound := by simpa using h.reverse_sound
  reverse_complete := by simpa using h.reverse_complete
  edgeCount := by simpa using h.edgeCount
  identities := occupied_registerEntity s _ keys entity h.identities
  keyed k e he := by
    rw [bucket_registerEntity] at he
    split at he
    · next hnew =>
      rcases List.mem_append.mp he with hold | hentity
      · rw [h.keyed _ e hold, hnew.1]
      · rw [List.mem_singleton.mp hentity, hnew.1]
    · exact h.keyed k e he
  occurrences k := by
    rw [bucket_registerEntity]
    split
    · next hnew =>
      rw [List.map_append, List.map_singleton, ← List.concat_eq_append]
      exact (h.occurrences _).concat hnew.2
    · exact h.occurrences k
  names := occupied_registerEntity_names s _ keys entity h.names
  nodup_names n := by
    rw [registerEntity_nameIndex, bucket_insert]
    split
    · exact nodup_pushNew (h.nodup_names _)
    · exact h.nodup_names n
  mem_names n k := by
    rw [registerEntity_nameIndex, bucket_insert, h.mem_registerEntity]
    split
    · next hn =>
      rw [mem_pushNew, h.mem_names, hn]
      constructor
      · rintro (rfl | hk)
        · exact ⟨.inl rfl, rfl⟩
        · exact ⟨.inr hk.1, hk.2⟩
      · exact fun hk => hk.1.imp_right fun hmem => ⟨hmem, hk.2⟩
    · next hn =>
      rw [h.mem_names]
      refine ⟨fun hk => ⟨.inr hk.1, hk.2⟩, fun hk => ⟨hk.1.resolve_left fun heq => hn ?_, hk.2⟩⟩
      rw [← hk.2, heq, entityKey]
  endpoints key hkey hstays := by
    rw [registerEntity_edgeSet] at hkey
    rw [h.mem_registerEntity, h.mem_registerEntity]
    exact (h.endpoints key hkey hstays).imp .inr .inr

/-- Recording a new edge occurrence between registered identities. -/
theorem insertOccurrence (h : ConsistentOutside gone s) {edge : SemanticEdge}
    (hnew : EdgeKey.new file edge ∉ s.edgeSet) (hsubject : entityKey edge.subject ∈ s.entities)
    (hobject : entityKey edge.object ∈ s.entities) :
    ConsistentOutside gone (s.insertOccurrence file edge) where
  asserted f key hkey := by
    change key ∈ bucket (pushEntry s.fileEdges file _) f at hkey
    rw [bucket_pushEntry, List.mem_append] at hkey
    rcases hkey with hold | hkey
    · exact h.asserted f key hold
    · split at hkey
      · next hf => rw [List.mem_singleton.mp hkey, hf, EdgeKey.assertingFile_new]
      · cases hkey
  fileEdges f := by
    change (bucket (pushEntry s.fileEdges file _) f).Nodup
    rw [bucket_pushEntry]
    split
    · next hf =>
      rw [← List.concat_eq_append]
      refine (h.fileEdges f).concat fun hmem => hnew ((h.edgeSet _).mpr ?_)
      rw [hf] at hmem
      exact hmem
    · rw [List.append_nil]
      exact h.fileEdges f
  edgeSet key := by
    change key ∈ insert _ s.edgeSet ↔ key ∈ bucket (pushEntry s.fileEdges file _) _
    rw [Finset.mem_insert, bucket_pushEntry, List.mem_append, h.edgeSet, or_comm]
    refine or_congr_right ?_
    split
    · exact List.mem_singleton.symm
    · next hf =>
      refine iff_of_false (fun heq => hf ?_) List.not_mem_nil
      rw [heq, EdgeKey.assertingFile_new]
  forward k := nodup_map_pushEntry _ _ _ (h.forward k) fun hmem =>
    hnew (h.forward_sound k _ hmem).1
  forward_sound k key hkey := by
    rcases (mem_map_pushEntry _ _ _ _ _).mp hkey with hold | ⟨rfl, hk⟩
    · exact (h.forward_sound k key hold).imp_left (Finset.mem_insert_of_mem ·)
    · exact ⟨Finset.mem_insert_self _ _, hk.symm⟩
  forward_complete key hkey hstays := by
    refine (mem_map_pushEntry _ _ _ _ _).mpr ?_
    rcases Finset.mem_insert.mp hkey with rfl | hold
    · exact .inr ⟨rfl, rfl⟩
    · exact .inl (h.forward_complete key hold hstays)
  reverse k := nodup_map_pushEntry _ _ _ (h.reverse k) fun hmem =>
    hnew (h.reverse_sound k _ hmem).1
  reverse_sound k key hkey := by
    rcases (mem_map_pushEntry _ _ _ _ _).mp hkey with hold | ⟨rfl, hk⟩
    · exact (h.reverse_sound k key hold).imp_left (Finset.mem_insert_of_mem ·)
    · exact ⟨Finset.mem_insert_self _ _, hk.symm⟩
  reverse_complete key hkey hstays := by
    refine (mem_map_pushEntry _ _ _ _ _).mpr ?_
    rcases Finset.mem_insert.mp hkey with rfl | hold
    · exact .inr ⟨rfl, rfl⟩
    · exact .inl (h.reverse_complete key hold hstays)
  edgeCount := by
    change s.edgeCount + 1 = (insert _ s.edgeSet).card
    rw [Finset.card_insert_of_notMem hnew, h.edgeCount]
  identities := h.identities
  keyed := h.keyed
  occurrences := h.occurrences
  names := h.names
  nodup_names := h.nodup_names
  mem_names := h.mem_names
  endpoints key hkey hstays := by
    rcases Finset.mem_insert.mp hkey with rfl | hold
    · exact ⟨hsubject, hobject⟩
    · exact h.endpoints key hold hstays

/-- The views that the counters and the file map do not touch. -/
theorem congr_counters (h : ConsistentOutside gone s) (n : Nat) (fileMap : HashMap String (List EntityKey))
    (coverage : HashMap String SemanticCoverage) :
    ConsistentOutside gone { s with
      totalEdgesInserted := n
      fileMap
      semanticCoverage := coverage } := { h with }

/-- One iteration of `add_edges`. -/
theorem addEdge (h : ConsistentOutside gone s) (keys : List EntityKey) (edge : SemanticEdge) :
    ConsistentOutside gone (WorkspaceIndex.addEdge file (s, keys) edge).1 := by
  have hcounted := h.congr_counters (s.totalEdgesInserted + 1) s.fileMap s.semanticCoverage
  unfold WorkspaceIndex.addEdge
  dsimp only
  split
  · exact hcounted.registerEntity _ keys
  · have hsubject := hcounted.registerEntity (attachFiles file edge).subject keys
    have hobject := hsubject.registerEntity (attachFiles file edge).object
    split
    · exact hobject _
    · next hnew =>
      refine (hobject _).insertOccurrence hnew ?_ ?_
      · rw [hsubject.mem_registerEntity, hcounted.mem_registerEntity]
        exact .inr (.inl rfl)
      · rw [hsubject.mem_registerEntity]
        exact .inl rfl

theorem addEdges (h : ConsistentOutside gone s) (file : String) (edges : List SemanticEdge) :
    ConsistentOutside gone (s.addEdges file edges) := by
  have hfold : ∀ (edges : List SemanticEdge) (state : WorkspaceIndex × List EntityKey),
      ConsistentOutside gone state.1 → ConsistentOutside gone (edges.foldl (WorkspaceIndex.addEdge file) state).1 := by
    intro edges
    induction edges with
    | nil => exact fun _ hstate => hstate
    | cons edge edges ih => exact fun state hstate => ih _ (hstate.addEdge state.2 edge)
  have hadded := hfold edges (s, []) h
  unfold WorkspaceIndex.addEdges
  dsimp only
  split
  · exact hadded
  · exact hadded.congr_counters _ _ _

theorem mem_removeFile_edgeSet (s : WorkspaceIndex) (file : String) (key : EdgeKey) :
    key ∈ (s.removeFile file).edgeSet ↔ key ∈ s.edgeSet ∧ key ∉ bucket s.fileEdges file := by
  rw [(removeFile_views s file).1, mem_removeOccurrences_edgeSet]

theorem mem_of_mem_removeFile (h : ConsistentOutside gone s) {k : EntityKey}
    (hk : k ∈ (s.removeFile file).entities) : k ∈ s.entities := by
  rw [occupied_removeFile s file h.identities, bucket_removeFile_entities] at hk
  rw [h.identities]
  intro hnil
  rw [hnil, List.filter_nil, ite_self] at hk
  exact hk rfl

/-- An occurrence that a removal does not drop. -/
theorem mem_bucket_removeFile {k : EntityKey} {e : EntityRef} (he : e ∈ bucket s.entities k)
    (hfile : e.file = some file → k ∉ bucket s.fileMap file) :
    e ∈ bucket (s.removeFile file).entities k := by
  rw [bucket_removeFile_entities]
  split
  · next hk =>
    exact List.mem_filter.mpr ⟨he, decide_eq_true fun heq => hfile heq hk⟩
  · exact he

/-- The edges left after a removal are of other files, so their endpoints are kept. -/
theorem kept_endpoint (hkeeps : KeepsEndpoints s gone) (hgone : gone file) {key : EdgeKey}
    (hkey : key ∈ s.edgeSet) (hstays : ¬ gone key.assertingFile) {k : EntityKey}
    (hk : k ∈ [key.subjectKey, key.objectKey]) :
    ∃ e ∈ bucket (s.removeFile file).entities k,
      ∀ f, gone f → e.file = some f → k ∉ bucket (s.removeFile file).fileMap f := by
  obtain ⟨e, he, hstay⟩ := hkeeps key hkey hstays k hk
  refine ⟨e, mem_bucket_removeFile he (hstay file hgone), fun f hf hfile => ?_⟩
  rw [(removeFile_views s file).2.1, bucket_erase]
  split
  · exact List.not_mem_nil
  · exact hstay f hf hfile

theorem not_vanishes (hkeeps : KeepsEndpoints s gone) (hgone : gone file) {key : EdgeKey}
    (hkey : key ∈ s.edgeSet) (hstays : ¬ gone key.assertingFile) {k : EntityKey}
    (hk : k ∈ [key.subjectKey, key.objectKey]) : ¬ Vanishes s file k := by
  rintro ⟨hmem, hall⟩
  obtain ⟨e, he, hstay⟩ := hkeeps key hkey hstays k hk
  exact hstay file hgone (hall e he) hmem

theorem edgeCount_removeFile (h : ConsistentOutside gone s) (file : String) :
    (s.removeFile file).edgeCount = (s.removeFile file).edgeSet.card := by
  have hsplit : (s.removeFile file).edgeSet = s.edgeSet \ (bucket s.fileEdges file).toFinset := by
    ext key
    rw [mem_removeFile_edgeSet, Finset.mem_sdiff, List.mem_toFinset]
  have hsubset : (bucket s.fileEdges file).toFinset ⊆ s.edgeSet := by
    intro key hkey
    have hmem := List.mem_toFinset.mp hkey
    rw [h.edgeSet, h.asserted file key hmem]
    exact hmem
  rw [(removeFile_views s file).2.2.2.2, hsplit, Finset.card_sdiff_of_subset hsubset, h.edgeCount,
    List.toFinset_card_of_nodup (h.fileEdges file)]

/-- What a removal leaves of the occurrences under one identity: none if it vanishes, else those
whose edges the file does not assert. -/
def Left (s : WorkspaceIndex) (file : String) (side : EdgeKey → EntityKey) (k : EntityKey)
    (before after : List StoredEdge) : Prop :=
  after = if Vanishes s file k then [] else before.filter fun stored =>
    decide (∀ key ∈ bucket s.fileEdges file, side key = k → stored.key ≠ key)

theorem left_forward (h : ConsistentOutside gone s) (file : String) (k : EntityKey) :
    Left s file EdgeKey.subjectKey k (bucket s.forward k)
      (bucket (s.removeFile file).forward k) := by
  rw [Left, bucket_removeFile_forward s file h.identities, bucket_removeOccurrences_forward]

theorem left_reverse (h : ConsistentOutside gone s) (file : String) (k : EntityKey) :
    Left s file EdgeKey.objectKey k (bucket s.reverse k)
      (bucket (s.removeFile file).reverse k) := by
  rw [Left, bucket_removeFile_reverse s file h.identities, bucket_removeOccurrences_reverse]

section Left

variable {side : EdgeKey → EntityKey} {k : EntityKey} {before after : List StoredEdge}

theorem Left.nodup (h : Left s file side k before after)
    (hnodup : (before.map StoredEdge.key).Nodup) : (after.map StoredEdge.key).Nodup := by
  rw [h]
  split
  · exact List.nodup_nil
  · exact hnodup.sublist (List.filter_sublist.map _)

theorem Left.sound (h : Left s file side k before after)
    (hsound : ∀ key ∈ before.map StoredEdge.key, key ∈ s.edgeSet ∧ side key = k) :
    ∀ key ∈ after.map StoredEdge.key, key ∈ (s.removeFile file).edgeSet ∧ side key = k := by
  intro key hkey
  rw [h] at hkey
  split at hkey
  · cases hkey
  · obtain ⟨stored, hstored, rfl⟩ := List.mem_map.mp hkey
    obtain ⟨hmem, hkept⟩ := List.mem_filter.mp hstored
    obtain ⟨hset, hside⟩ := hsound _ (List.mem_map_of_mem hmem)
    refine ⟨(mem_removeFile_edgeSet s file _).mpr ⟨hset, fun hremoved => ?_⟩, hside⟩
    exact of_decide_eq_true hkept _ hremoved hside rfl

theorem Left.complete (h : Left s file side k before after) (hstays : ¬ Vanishes s file k)
    {key : EdgeKey} (hkey : key ∈ before.map StoredEdge.key)
    (hkept : key ∉ bucket s.fileEdges file) : key ∈ after.map StoredEdge.key := by
  obtain ⟨stored, hmem, rfl⟩ := List.mem_map.mp hkey
  rw [h, if_neg hstays]
  refine List.mem_map_of_mem (List.mem_filter.mpr ⟨hmem, decide_eq_true ?_⟩)
  exact fun key' hkey' _ heq => hkept (heq ▸ hkey')

end Left

theorem nodup_names_removeFile (h : ConsistentOutside gone s) (file n : String) :
    (bucket (s.removeFile file).nameIndex n).Nodup := by
  rw [bucket_removeFile_nameIndex]
  split
  · exact (h.nodup_names n).filter _
  · exact h.nodup_names n

theorem mem_names_removeFile (h : ConsistentOutside gone s) (file n : String) (k : EntityKey) :
    k ∈ bucket (s.removeFile file).nameIndex n ↔
      k ∈ (s.removeFile file).entities ∧ k.name = n := by
  rw [bucket_removeFile_nameIndex]
  split
  · rw [List.mem_filter, h.mem_names, decide_eq_true_iff]
    exact ⟨fun hk => ⟨hk.2, hk.1.2⟩, fun hk => ⟨⟨h.mem_of_mem_removeFile hk.1, hk.2⟩, hk.1⟩⟩
  · next hnames =>
    rw [h.mem_names]
    refine and_congr_left fun hname => ?_
    have hk : k ∉ bucket s.fileMap file := fun hk => hnames ⟨k, hk, hname⟩
    rw [h.identities, occupied_removeFile s file h.identities, bucket_removeFile_entities,
      if_neg hk]

theorem removeFile (h : ConsistentOutside gone s) (hkeeps : KeepsEndpoints s gone)
    (hgone : gone file) : ConsistentOutside gone (s.removeFile file) where
  asserted f key hkey := by
    rw [(removeFile_views s file).2.2.1, bucket_erase] at hkey
    split at hkey
    · cases hkey
    · exact h.asserted f key hkey
  fileEdges f := by
    rw [(removeFile_views s file).2.2.1, bucket_erase]
    split
    · exact List.nodup_nil
    · exact h.fileEdges f
  edgeSet key := by
    rw [mem_removeFile_edgeSet, (removeFile_views s file).2.2.1, bucket_erase, h.edgeSet]
    split
    · next hf =>
      rw [hf]
      exact iff_of_false (fun hkey => hkey.2 hkey.1) List.not_mem_nil
    · next hf => exact and_iff_left fun hkey => hf (h.asserted file key hkey)
  forward k := (h.left_forward file k).nodup (h.forward k)
  forward_sound k := (h.left_forward file k).sound (h.forward_sound k)
  forward_complete key hkey hstays := by
    obtain ⟨hset, hkept⟩ := (mem_removeFile_edgeSet s file key).mp hkey
    exact (h.left_forward file _).complete (not_vanishes hkeeps hgone hset hstays (by simp))
      (h.forward_complete key hset hstays) hkept
  reverse k := (h.left_reverse file k).nodup (h.reverse k)
  reverse_sound k := (h.left_reverse file k).sound (h.reverse_sound k)
  reverse_complete key hkey hstays := by
    obtain ⟨hset, hkept⟩ := (mem_removeFile_edgeSet s file key).mp hkey
    exact (h.left_reverse file _).complete (not_vanishes hkeeps hgone hset hstays (by simp))
      (h.reverse_complete key hset hstays) hkept
  edgeCount := h.edgeCount_removeFile file
  identities := occupied_removeFile s file h.identities
  keyed k e he := by
    rw [bucket_removeFile_entities] at he
    split at he
    · exact h.keyed k e (List.mem_filter.mp he).1
    · exact h.keyed k e he
  occurrences k := by
    rw [bucket_removeFile_entities]
    split
    · exact (h.occurrences k).sublist (List.filter_sublist.map _)
    · exact h.occurrences k
  names := occupied_removeFile_names s file h.names
  nodup_names := h.nodup_names_removeFile file
  mem_names := h.mem_names_removeFile file
  endpoints key hkey hstays := by
    have hset := ((mem_removeFile_edgeSet s file key).mp hkey).1
    obtain ⟨e, he, -⟩ := kept_endpoint hkeeps hgone hset hstays (k := key.subjectKey) (by simp)
    obtain ⟨e', he', -⟩ := kept_endpoint hkeeps hgone hset hstays (k := key.objectKey) (by simp)
    exact ⟨mem_of_bucket he, mem_of_bucket he'⟩

theorem keepsEndpoints_removeFile (hkeeps : KeepsEndpoints s gone) (hgone : gone file) :
    KeepsEndpoints (s.removeFile file) gone := fun key hkey hstays _ hk =>
  kept_endpoint hkeeps hgone ((mem_removeFile_edgeSet s file key).mp hkey).1 hstays hk

/-- Removing files that go, one after the other. -/
theorem removeFiles (files : List String) (h : ConsistentOutside gone s)
    (hkeeps : KeepsEndpoints s gone) (hfiles : ∀ f ∈ files, gone f) :
    ConsistentOutside gone (s.removeFiles files) := by
  induction files generalizing s with
  | nil => exact h
  | cons f files ih =>
      have hf := hfiles f List.mem_cons_self
      exact ih (h.removeFile hkeeps hf) (keepsEndpoints_removeFile hkeeps hf)
        fun g hg => hfiles g (List.mem_cons_of_mem f hg)

end ConsistentOutside

theorem Consistent.addEdges (h : Consistent s) (file : String) (edges : List SemanticEdge) :
    Consistent (s.addEdges file edges) :=
  ((h.outside fun _ => False).addEdges file edges).everywhere fun _ _ => not_false

/-- Exactly the edges of the removed files are gone. -/
theorem mem_removeFiles_edgeSet (files : List String) {key : EdgeKey} :
    key ∈ (s.removeFiles files).edgeSet ↔
      key ∈ s.edgeSet ∧ ∀ f ∈ files, key ∉ bucket s.fileEdges f := by
  induction files generalizing s with
  | nil => simp [removeFiles]
  | cons f files ih =>
      refine ih.trans ?_
      rw [ConsistentOutside.mem_removeFile_edgeSet, and_assoc, List.forall_mem_cons]
      refine and_congr_right fun _ => and_congr_right fun hf => forall₂_congr fun g _ => ?_
      rw [(removeFile_views s f).2.2.1, bucket_erase]
      split
      · next hgf => exact iff_of_true List.not_mem_nil (hgf ▸ hf)
      · rfl

/-- The occurrences left when files have been removed. -/
theorem mem_bucket_removeFiles (files : List String) {k : EntityKey} {e : EntityRef} :
    e ∈ bucket (s.removeFiles files).entities k ↔
      e ∈ bucket s.entities k ∧ ∀ f ∈ files, e.file = some f → k ∉ bucket s.fileMap f := by
  induction files generalizing s with
  | nil => simp [removeFiles]
  | cons f files ih =>
      have hfirst : e ∈ bucket (s.removeFile f).entities k ↔
          e ∈ bucket s.entities k ∧ (e.file = some f → k ∉ bucket s.fileMap f) := by
        rw [bucket_removeFile_entities]
        split
        · next hk => simp [hk]
        · next hk => exact (and_iff_left fun _ => hk).symm
      refine ih.trans ?_
      rw [hfirst, and_assoc, List.forall_mem_cons]
      refine and_congr_right fun _ => and_congr_right fun hf => forall₂_congr fun g _ => ?_
      refine imp_congr_right fun hfile => ?_
      rw [(removeFile_views s f).2.1, bucket_erase]
      split
      · next hgf => exact iff_of_true List.not_mem_nil (hgf ▸ hf (hgf ▸ hfile))
      · rfl

/-- Removing every file that goes keeps the invariant exactly when endpoints are kept. -/
theorem Consistent.removeFiles_iff (h : Consistent s) {files : List String} {gone : String → Prop}
    (hfiles : ∀ f ∈ files, gone f) (howners : ∀ f ∈ s.owners, gone f → f ∈ files) :
    Consistent (s.removeFiles files) ↔ KeepsEndpoints s gone := by
  have hedges : ∀ key ∈ s.edgeSet, gone key.assertingFile → key.assertingFile ∈ files := by
    intro key hkey hgone
    refine howners _ (Finset.mem_union_left _ (Finset.mem_union_right _ ?_)) hgone
    exact Finmap.mem_keys.mpr (mem_of_bucket ((h.edgeSet key).mp hkey))
  constructor
  · intro hafter key hkey hstays k hk
    have hkept : key ∈ (s.removeFiles files).edgeSet :=
      (mem_removeFiles_edgeSet files).mpr ⟨hkey, fun f hf hmem =>
        hstays (h.asserted f key hmem ▸ hfiles f hf)⟩
    have hmem : k ∈ (s.removeFiles files).entities := by
      rcases List.mem_pair.mp hk with rfl | rfl
      · exact (hafter.endpoints key hkept).1
      · exact (hafter.endpoints key hkept).2
    obtain ⟨e, he⟩ := List.exists_mem_of_ne_nil _ ((hafter.identities k).mp hmem)
    obtain ⟨hbefore, hdropped⟩ := (mem_bucket_removeFiles files).mp he
    refine ⟨e, hbefore, fun f hgone hfile hmap => hdropped f ?_ hfile hmap⟩
    refine howners f (Finset.mem_union_left _ (Finset.mem_union_left _ ?_)) hgone
    exact Finmap.mem_keys.mpr (mem_of_bucket hmap)
  · intro hkeeps
    refine ((h.outside gone).removeFiles files hkeeps hfiles).everywhere fun key hkey hgone => ?_
    obtain ⟨hset, hremoved⟩ := (mem_removeFiles_edgeSet files).mp hkey
    exact hremoved _ (hedges key hset hgone) ((h.edgeSet key).mp hset)

end WorkspaceIndex

namespace Session

open WorkspaceIndex

variable {canonicalIdentityKey : String → String}

/-- Along every history whose removals keep the endpoints of the edges that stay, the views of
the index agree. -/
theorem Reachable.consistent {σ : Session}
    (h : Reachable canonicalIdentityKey (fun _ _ => True)
      (fun σ gone => KeepsEndpoints σ.index gone) σ) : Consistent σ.index := by
  have hsingle : ∀ {s : WorkspaceIndex} {file : String}, Consistent s →
      KeepsEndpoints s (· = file) → Consistent (s.removeFile file) := by
    intro s file hs hkeeps
    have hgone : ∀ f ∈ [file], f = file := fun f hf => List.mem_singleton.mp hf
    exact (hs.removeFiles_iff hgone fun f _ hf => List.mem_singleton.mpr hf).mpr hkeeps
  induction h with
  | new => exact consistent_new
  | addEdges _ _ ih => exact ih.addEdges _ _
  | removeFile _ hremoves ih => exact hsingle ih hremoves
  | replaceSemanticProjection _ hremoves _ ih =>
      exact { (hsingle ih hremoves).addEdges _ _ with }
  | removeFilesInRoot _ hremoves hresult ih =>
      obtain ⟨files, ⟨-, hmem⟩, rfl⟩ := hresult
      refine (ih.removeFiles_iff (fun f hf => ((hmem f).mp hf).2) ?_).mpr hremoves
      exact fun f howner hf => (hmem f).mpr ⟨howner, hf⟩

/-- An injection of one service into another. -/
def injection (subject object : String) : SemanticEdge where
  relation := .injects
  subject := { domain := "spring", entityType := "Service", name := subject, file := none }
  object := { domain := "spring", entityType := "Service", name := object, file := none }
  layer := "spring"
  callEvidence := none

/-- Two files with an edge in common, and one of them with another edge. -/
def overlapping : Session :=
  (new.addEdges "f" [injection "A" "B", injection "B" "C"]).addEdges "g" [injection "A" "B"]

/-- The file with the common edge goes, and the two edges of the other one stay. -/
theorem Reachable.consistent_overlapping :
    (overlapping.removeFile "g").index.edgeSet.card = 2 ∧
      Consistent (overlapping.removeFile "g").index := by
  have hkept : ∀ key ∈ overlapping.index.edgeSet, key.assertingFile ≠ "g" →
      ∀ k ∈ [key.subjectKey, key.objectKey], ∃ e ∈ bucket overlapping.index.entities k,
        e.file ≠ some "g" := by
    decide +kernel
  have hreachable : Reachable id (fun _ _ => True) (fun σ gone => KeepsEndpoints σ.index gone)
      (overlapping.removeFile "g") := by
    refine .removeFile (.addEdges (.addEdges .new trivial) trivial) fun key hkey hstays k hk => ?_
    obtain ⟨e, he, hfile⟩ := hkept key hkey hstays k hk
    exact ⟨e, he, fun f hgone hfile' => absurd (hgone ▸ hfile') hfile⟩
  exact ⟨by decide +kernel, hreachable.consistent⟩

/-- `f` asserts an edge whose subject carries the provenance of `g`, and `g` is removed. -/
def foreignRemoved : Session :=
  ((new.addEdges "g" [{
    relation := .injects
    subject := { domain := "spring", entityType := "Service", name := "A", file := none }
    object := { domain := "spring", entityType := "Service", name := "C", file := none }
    layer := "spring"
    callEvidence := none }]).addEdges "f" [{
    relation := .injects
    subject := { domain := "spring", entityType := "Service", name := "A", file := some "g" }
    object := { domain := "spring", entityType := "Service", name := "B", file := none }
    layer := "spring"
    callEvidence := none }]).removeFile "g"

/-- The edge of `f` stays in the edge set although its subject has no occurrence left. -/
theorem not_consistent_foreignRemoved :
    Reachable id (fun _ _ => True) (fun _ _ => True) foreignRemoved ∧
      ¬ Consistent foreignRemoved.index := by
  refine ⟨.removeFile (.addEdges (.addEdges .new trivial) trivial) trivial, fun h => ?_⟩
  have hdangling : ∃ key ∈ foreignRemoved.index.edgeSet,
      key.subjectKey ∉ foreignRemoved.index.entities := by
    decide +kernel
  obtain ⟨key, hkey, hgone⟩ := hdangling
  exact hgone (h.endpoints key hkey).1

end Session
end CleanCtx
