import CleanCtx.Workspace.Projections

/-!
The answers of the index. What an index answers about a set of files depends on
what it represents for them: two indexes that represent the same projections
answer alike, as multisets, whatever else they hold and in whatever order it
came.
-/
namespace CleanCtx
namespace WorkspaceIndex

/-- The two indexes answer the queries of a scope alike. -/
structure SameAnswers (scope : Option WorkspaceScope) (s s' : WorkspaceIndex) : Prop where
  forwardEdges : ∀ key,
    (s.forwardEdgesByIdentity scope key).Perm (s'.forwardEdgesByIdentity scope key)
  reverseEdges : ∀ key,
    (s.reverseEdgesByIdentity scope key).Perm (s'.reverseEdgesByIdentity scope key)
  found : ∀ name, (s.findEntitiesByName scope name).Perm (s'.findEntitiesByName scope name)
  identity : ∀ key, s.hasIdentityInScope scope key = s'.hasIdentityInScope scope key
  forwardEvidence : ∀ domain entityType, s.hasForwardCapabilityEvidence scope domain entityType =
    s'.hasForwardCapabilityEvidence scope domain entityType
  reverseEvidence : ∀ domain entityType, s.hasReverseCapabilityEvidence scope domain entityType =
    s'.hasReverseCapabilityEvidence scope domain entityType

/-- The two indexes answer the queries that have no scope alike. -/
structure SameEvidence (s s' : WorkspaceIndex) : Prop where
  entities : ∀ key, (s.entitiesByIdentity key).Perm (s'.entitiesByIdentity key)
  injectTypes : ∀ name, (s.resolveInjectType name).Perm (s'.resolveInjectType name)
  selectors : ∀ name, (s.resolveSelector name).Perm (s'.resolveSelector name)
  edgeCount : s.edgeCount = s'.edgeCount
  isEmpty : s.isEmpty = s'.isEmpty
  identityCount : s.entityIdentityCount = s'.entityIdentityCount
  occurrenceCount : s.entityOccurrenceCount = s'.entityOccurrenceCount
  current : ∀ file fidelity sourceHash,
    s.hasCurrentSemanticProjection file fidelity sourceHash =
      s'.hasCurrentSemanticProjection file fidelity sourceHash

variable {s s' : WorkspaceIndex} {P P' : String → Projection} {own : String → Prop}
  {scope : Option WorkspaceScope} {stored : StoredEdge} {k : EntityKey} {e : EntityRef}

theorem mem_foldl_pushNew (keys : List EntityKey) (acc : List EntityKey) :
    k ∈ keys.foldl pushNew acc ↔ k ∈ acc ∨ k ∈ keys := by
  induction keys generalizing acc with
  | nil => simp
  | cons key keys ih =>
      rw [List.foldl_cons, ih, mem_pushNew, List.mem_cons]
      tauto

theorem nodup_foldl_pushNew (keys : List EntityKey) {acc : List EntityKey} (hacc : acc.Nodup) :
    (keys.foldl pushNew acc).Nodup := by
  induction keys generalizing acc with
  | nil => exact hacc
  | cons key keys ih => exact ih (nodup_pushNew hacc)

/-- For the files of a set, the projections leave the same occurrences. -/
structure SameContributions (own : String → Prop) (P P' : String → Projection) : Prop where
  edges : ∀ f, own f → (P f).edges = (P' f).edges
  occurrences : ∀ x, own x → ∀ e : EntityRef, e.file = some x →
    ((∃ g, e ∈ registrations g (P g).edges) ↔ ∃ g, e ∈ registrations g (P' g).edges)

namespace Represents

theorem mem_forward (h : Represents own s P) (hown : own stored.assertingFile) :
    stored ∈ bucket s.forward k ↔
      stored ∈ storedEdges stored.assertingFile (P stored.assertingFile).edges ∧
        entityKey stored.edge.subject = k := by
  constructor
  · intro hstored
    exact ⟨h.forward k stored hstored hown,
      (h.outside.forward_sound k _ (List.mem_map_of_mem hstored)).2⟩
  · rintro ⟨hstored, rfl⟩
    have hset : stored.key ∈ s.edgeSet := (h.mem_edgeSet hown rfl).mpr (List.mem_map_of_mem hstored)
    obtain ⟨found, hfound, hkey⟩ := List.mem_map.mp
      (h.outside.forward_complete stored.key hset (not_not.mpr hown))
    have hfile : found.assertingFile = stored.assertingFile :=
      congrArg EdgeKey.assertingFile hkey
    have hmem := h.forward _ found hfound (hfile ▸ hown)
    rw [hfile] at hmem
    exact storedEdges_inj hmem hstored hkey ▸ hfound

theorem mem_reverse (h : Represents own s P) (hown : own stored.assertingFile) :
    stored ∈ bucket s.reverse k ↔
      stored ∈ storedEdges stored.assertingFile (P stored.assertingFile).edges ∧
        entityKey stored.edge.object = k := by
  constructor
  · intro hstored
    exact ⟨h.reverse k stored hstored hown,
      (h.outside.reverse_sound k _ (List.mem_map_of_mem hstored)).2⟩
  · rintro ⟨hstored, rfl⟩
    have hset : stored.key ∈ s.edgeSet := (h.mem_edgeSet hown rfl).mpr (List.mem_map_of_mem hstored)
    obtain ⟨found, hfound, hkey⟩ := List.mem_map.mp
      (h.outside.reverse_complete stored.key hset (not_not.mpr hown))
    have hfile : found.assertingFile = stored.assertingFile :=
      congrArg EdgeKey.assertingFile hkey
    have hmem := h.reverse _ found hfound (hfile ▸ hown)
    rw [hfile] at hmem
    exact storedEdges_inj hmem hstored hkey ▸ hfound

/-- The rows of the files of the set are the same in both indexes. -/
theorem filter_forward_perm (h : Represents own s P) (h' : Represents own s' P')
    (hP : SameContributions own P P') {p : StoredEdge → Bool}
    (hp : ∀ stored, p stored = true → own stored.assertingFile) (k : EntityKey) :
    ((bucket s.forward k).filter p).Perm ((bucket s'.forward k).filter p) := by
  refine (List.perm_ext_iff_of_nodup ((h.outside.forward k).of_map.filter _)
    ((h'.outside.forward k).of_map.filter _)).mpr fun stored => ?_
  rw [List.mem_filter, List.mem_filter]
  refine and_congr_left fun hstored => ?_
  have hown := hp stored hstored
  rw [h.mem_forward hown, h'.mem_forward hown, hP.edges _ hown]

theorem filter_reverse_perm (h : Represents own s P) (h' : Represents own s' P')
    (hP : SameContributions own P P') {p : StoredEdge → Bool}
    (hp : ∀ stored, p stored = true → own stored.assertingFile) (k : EntityKey) :
    ((bucket s.reverse k).filter p).Perm ((bucket s'.reverse k).filter p) := by
  refine (List.perm_ext_iff_of_nodup ((h.outside.reverse k).of_map.filter _)
    ((h'.outside.reverse k).of_map.filter _)).mpr fun stored => ?_
  rw [List.mem_filter, List.mem_filter]
  refine and_congr_left fun hstored => ?_
  have hown := hp stored hstored
  rw [h.mem_reverse hown, h'.mem_reverse hown, hP.edges _ hown]

/-- An occurrence whose provenance is in the set is in both indexes or in none. -/
theorem mem_entities_iff (h : Represents own s P) (h' : Represents own s' P')
    (hP : SameContributions own P P') (he : ∀ x, e.file = some x → own x) (k : EntityKey) :
    e ∈ bucket s.entities k ↔ e ∈ bucket s'.entities k := by
  have honce : ∀ {s s' : WorkspaceIndex} {P P' : String → Projection}, Represents own s P →
      Represents own s' P' → SameContributions own P P' → e ∈ bucket s.entities k →
      e ∈ bucket s'.entities k := by
    intro s s' P P' h h' hP hmem
    obtain ⟨x, hx⟩ := Option.ne_none_iff_exists'.mp (h.provenance k e hmem)
    have hkey := h.outside.keyed k e hmem
    rw [← hkey] at hmem ⊢
    rw [h'.entities x (he x hx) e hx, ← hP.occurrences x (he x hx) e hx]
    exact (h.entities x (he x hx) e hx).mp hmem
  have hP' : SameContributions own P' P :=
    ⟨fun f hf => (hP.edges f hf).symm, fun x hx e hf => (hP.occurrences x hx e hf).symm⟩
  exact ⟨honce h h' hP, honce h' h hP'⟩

/-- Occurrences of several identities, taken identity by identity, are distinct. -/
theorem nodup_flatMap (h : Represents own s P) {keys : List EntityKey} (hkeys : keys.Nodup)
    {select : EntityKey → List EntityRef}
    (hselect : ∀ k, (select k).Sublist (bucket s.entities k)) :
    (keys.flatMap select).Nodup := by
  refine List.nodup_flatMap.mpr ⟨fun k _ => ?_, hkeys.imp fun {k k'} hne => ?_⟩
  · exact (h.outside.occurrences k).of_map.sublist (hselect k)
  · intro e he he'
    exact hne ((h.outside.keyed k e ((hselect k).subset he)).symm.trans
      (h.outside.keyed k' e ((hselect k').subset he')))

theorem mem_nameIndex (h : Represents own s P) (n : String) :
    k ∈ bucket s.nameIndex n ↔ bucket s.entities k ≠ [] ∧ k.name = n := by
  rw [h.outside.mem_names, h.outside.identities k]

theorem mem_findEntitiesByName (h : Represents own s P) (name : String) :
    e ∈ s.findEntitiesByName scope name ↔
      e ∈ bucket s.entities (entityKey e) ∧ e.name = name ∧
        entityOccurrenceAdmitted e scope = true := by
  unfold findEntitiesByName
  rw [List.mem_flatMap]
  constructor
  · rintro ⟨k, hk, he⟩
    obtain ⟨hmem, hadmitted⟩ := List.mem_filter.mp he
    have hkey := h.outside.keyed k e hmem
    rw [← hkey] at hk hmem
    exact ⟨hmem, ((h.mem_nameIndex name).mp hk).2, hadmitted⟩
  · rintro ⟨hmem, hname, hadmitted⟩
    exact ⟨entityKey e, (h.mem_nameIndex name).mpr ⟨List.ne_nil_of_mem hmem, hname⟩,
      List.mem_filter.mpr ⟨hmem, hadmitted⟩⟩

theorem hasAdjacencyEvidence_iff (adjacency : HashMap EntityKey (List StoredEdge))
    (domain entityType : String) :
    hasAdjacencyEvidence scope adjacency domain entityType = true ↔
      ∃ key : EntityKey, key.domain = domain ∧ key.entityType = entityType ∧
        selectedOccurrences adjacency key scope ≠ [] := by
  unfold hasAdjacencyEvidence
  rw [decide_eq_true_iff]
  constructor
  · exact fun ⟨key, _, hkey⟩ => ⟨key, hkey⟩
  · intro ⟨key, hdomain, htype, hne⟩
    refine ⟨key, Finmap.mem_keys.mpr ?_, hdomain, htype, hne⟩
    by_contra hnot
    rw [selectedOccurrences, bucket_of_notMem hnot] at hne
    exact hne rfl

theorem hasAdjacencyEvidence_congr {adjacency adjacency' : HashMap EntityKey (List StoredEdge)}
    (h : ∀ key, (selectedOccurrences adjacency key scope).Perm
      (selectedOccurrences adjacency' key scope)) (domain entityType : String) :
    hasAdjacencyEvidence scope adjacency domain entityType =
      hasAdjacencyEvidence scope adjacency' domain entityType := by
  rw [Bool.eq_iff_iff, hasAdjacencyEvidence_iff, hasAdjacencyEvidence_iff]
  refine exists_congr fun key => and_congr_right fun _ => and_congr_right fun _ => ?_
  rw [ne_eq, ne_eq, ← List.length_eq_zero_iff, (h key).length_eq, List.length_eq_zero_iff]

/-- Indexes that represent the same contributions answer alike about the files of the set. -/
theorem sameAnswers (h : Represents own s P) (h' : Represents own s' P')
    (hP : SameContributions own P P') (hscope : ∀ f, scope.all (·.admits f) = true → own f) :
    SameAnswers scope s s' := by
  have hforward : ∀ key, (s.forwardEdgesByIdentity scope key).Perm
      (s'.forwardEdgesByIdentity scope key) := fun key =>
    (h.filter_forward_perm h' hP (fun stored hstored => hscope _ hstored) key).map _
  have hreverse : ∀ key, (s.reverseEdgesByIdentity scope key).Perm
      (s'.reverseEdgesByIdentity scope key) := fun key =>
    (h.filter_reverse_perm h' hP (fun stored hstored => hscope _ hstored) key).map _
  have hown : ∀ e, entityOccurrenceAdmitted e scope = true → ∀ x, e.file = some x → own x := by
    intro e he x hx
    refine hscope x ?_
    rw [entityOccurrenceAdmitted, hx] at he
    exact he
  refine
    { forwardEdges := hforward
      reverseEdges := hreverse
      found := fun name => ?_
      identity := fun key => ?_
      forwardEvidence := hasAdjacencyEvidence_congr hforward
      reverseEvidence := hasAdjacencyEvidence_congr hreverse }
  · refine (List.perm_ext_iff_of_nodup ?_ ?_).mpr fun e => ?_
    · exact h.nodup_flatMap (h.outside.nodup_names name) fun _ => List.filter_sublist
    · exact h'.nodup_flatMap (h'.outside.nodup_names name) fun _ => List.filter_sublist
    · rw [h.mem_findEntitiesByName, h'.mem_findEntitiesByName]
      refine and_congr_left fun he => ?_
      exact h.mem_entities_iff h' hP (hown e he.2) _
  · rw [Bool.eq_iff_iff, hasIdentityInScope, hasIdentityInScope, List.any_eq_true, List.any_eq_true]
    refine exists_congr fun e => and_congr_left fun he => ?_
    exact h.mem_entities_iff h' hP (hown e he) key

/-! An index of everything that was contributed. -/

section Whole

variable (h : Represents (fun _ => True) s P) (h' : Represents (fun _ => True) s' P)
include h h'

theorem mem_entities (k : EntityKey) : e ∈ bucket s.entities k ↔ e ∈ bucket s'.entities k :=
  h.mem_entities_iff h' ⟨fun _ _ => rfl, fun _ _ _ _ => Iff.rfl⟩ (fun _ _ => trivial) k

theorem entities_perm (k : EntityKey) : (bucket s.entities k).Perm (bucket s'.entities k) :=
  (List.perm_ext_iff_of_nodup (h.outside.occurrences k).of_map
    (h'.outside.occurrences k).of_map).mpr fun _ => h.mem_entities h' k

theorem mem_reverse_iff (k : EntityKey) : stored ∈ bucket s.reverse k ↔ stored ∈ bucket s'.reverse k := by
  rw [h.mem_reverse trivial, h'.mem_reverse trivial]

theorem mem_nameIndex_iff (n : String) : k ∈ bucket s.nameIndex n ↔ k ∈ bucket s'.nameIndex n := by
  rw [h.mem_nameIndex, h'.mem_nameIndex, ne_eq, ne_eq, ← List.length_eq_zero_iff,
    (h.entities_perm h' k).length_eq, List.length_eq_zero_iff]

theorem isInjectTarget_eq (k : EntityKey) : s.isInjectTarget k = s'.isInjectTarget k := by
  rw [Bool.eq_iff_iff, isInjectTarget, isInjectTarget, List.any_eq_true, List.any_eq_true]
  exact exists_congr fun stored => and_congr_left fun _ => h.mem_reverse_iff h' k

theorem injectTypes_perm (name : String) :
    (s.resolveInjectType name).Perm (s'.resolveInjectType name) := by
  have hsublist : ∀ (s : WorkspaceIndex) (k : EntityKey),
      (if s.isInjectTarget k then bucket s.entities k else []).Sublist (bucket s.entities k) := by
    intro s k
    split
    · exact List.Sublist.refl _
    · exact List.nil_sublist _
  refine (List.perm_ext_iff_of_nodup ?_ ?_).mpr fun e => ?_
  · exact h.nodup_flatMap (h.outside.nodup_names name) (hsublist s)
  · exact h'.nodup_flatMap (h'.outside.nodup_names name) (hsublist s')
  · rw [resolveInjectType, resolveInjectType, List.mem_flatMap, List.mem_flatMap]
    refine exists_congr fun k => and_congr (h.mem_nameIndex_iff h' name) ?_
    rw [h.isInjectTarget_eq h' k]
    split
    · exact h.mem_entities h' k
    · rfl

theorem mem_selectorSubjects_iff (selector : String) :
    k ∈ s.selectorSubjects selector ↔ k ∈ s'.selectorSubjects selector := by
  rw [selectorSubjects, selectorSubjects, mem_foldl_pushNew, mem_foldl_pushNew]
  refine or_congr_right ?_
  rw [List.mem_flatMap, List.mem_flatMap]
  refine exists_congr fun marker => and_congr (h.mem_nameIndex_iff h' selector) ?_
  rw [List.mem_map, List.mem_map]
  refine exists_congr fun stored => and_congr_left fun _ => ?_
  rw [List.mem_filter, List.mem_filter, h.mem_reverse_iff h' marker]

theorem selectors_perm (selector : String) :
    (s.resolveSelector selector).Perm (s'.resolveSelector selector) := by
  refine (List.perm_ext_iff_of_nodup ?_ ?_).mpr fun e => ?_
  · exact h.nodup_flatMap (nodup_foldl_pushNew _ List.nodup_nil) fun k => List.Sublist.refl _
  · exact h'.nodup_flatMap (nodup_foldl_pushNew _ List.nodup_nil) fun k => List.Sublist.refl _
  · rw [resolveSelector, resolveSelector, List.mem_flatMap, List.mem_flatMap]
    exact exists_congr fun k =>
      and_congr (h.mem_selectorSubjects_iff h' selector) (h.mem_entities h' k)

theorem edgeCount_eq : s.edgeCount = s'.edgeCount := by
  have hset : s.edgeSet = s'.edgeSet := by
    ext key
    rw [h.mem_edgeSet trivial rfl, h'.mem_edgeSet trivial rfl]
  rw [h.outside.edgeCount, h'.outside.edgeCount, hset]

theorem sameEvidence : SameEvidence s s' where
  entities := h.entities_perm h'
  injectTypes := h.injectTypes_perm h'
  selectors := h.selectors_perm h'
  edgeCount := h.edgeCount_eq h'
  isEmpty := by rw [isEmpty, isEmpty, h.edgeCount_eq h']
  identityCount := congrArg Finset.card
    (h.outside.identities.keys_eq h'.outside.identities fun k => (h.entities_perm h' k).length_eq)
  occurrenceCount := h.outside.identities.storedCount_eq h'.outside.identities fun k =>
    (h.entities_perm h' k).length_eq
  current file fidelity sourceHash := by
    rw [hasCurrentSemanticProjection, hasCurrentSemanticProjection, h.coverage file trivial,
      h'.coverage file trivial]

end Whole

end Represents

end WorkspaceIndex
end CleanCtx
