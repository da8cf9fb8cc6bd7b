import CleanCtx.Workspace.IndexInvariant

/-!
The two adjacencies. An occurrence is filed under its subject and under its object,
and the two copies are one edge. Where the views agree, what leaves a subject is
therefore what arrives at the objects, under any scope.
-/
namespace CleanCtx
namespace WorkspaceIndex

variable {s s' : WorkspaceIndex} {file : String} {gone : String → Prop}

def SameCopies (s : WorkspaceIndex) : Prop :=
  ∀ subject object, ∀ stored ∈ bucket s.forward subject, ∀ copy ∈ bucket s.reverse object,
    stored.key = copy.key → stored = copy

theorem SameCopies.mono (h : SameCopies s)
    (hforward : ∀ k, ∀ stored ∈ bucket s'.forward k, stored ∈ bucket s.forward k)
    (hreverse : ∀ k, ∀ stored ∈ bucket s'.reverse k, stored ∈ bucket s.reverse k) :
    SameCopies s' := fun subject object stored hstored copy hcopy =>
  h subject object stored (hforward _ _ hstored) copy (hreverse _ _ hcopy)

/-- A new occurrence has no copy yet. -/
theorem SameCopies.insertOccurrence (hcopies : SameCopies s) (h : ConsistentOutside gone s)
    {edge : SemanticEdge} (hnew : EdgeKey.new file edge ∉ s.edgeSet) :
    SameCopies (s.insertOccurrence file edge) := by
  intro subject object stored hstored copy hcopy hkey
  have hstored' := mem_bucket_pushEntry.mp hstored
  have hcopy' := mem_bucket_pushEntry.mp hcopy
  rcases hstored' with hold | ⟨-, rfl⟩
  · rcases hcopy' with holdCopy | ⟨-, rfl⟩
    · exact hcopies subject object stored hold copy holdCopy hkey
    · refine absurd (h.forward_sound subject _ (List.mem_map_of_mem hold)).1 ?_
      rw [hkey]
      exact hnew
  · rcases hcopy' with holdCopy | ⟨-, rfl⟩
    · refine absurd (h.reverse_sound object _ (List.mem_map_of_mem holdCopy)).1 ?_
      rw [← hkey]
      exact hnew
    · rfl

/-- One iteration of `add_edges`. -/
theorem SameCopies.addEdge (hcopies : SameCopies s) (h : ConsistentOutside gone s)
    (keys : List EntityKey) (edge : SemanticEdge) :
    SameCopies (WorkspaceIndex.addEdge file (s, keys) edge).1 := by
  have hcounted := h.congr_counters (s.totalEdgesInserted + 1) s.fileMap s.semanticCoverage
  unfold WorkspaceIndex.addEdge
  dsimp only
  split
  · exact hcopies.mono (by simp) (by simp)
  · have hsubject := hcounted.registerEntity (attachFiles file edge).subject keys
    have hobject := hsubject.registerEntity (attachFiles file edge).object
    split
    · exact hcopies.mono (by simp) (by simp)
    · next hnew => exact (hcopies.mono (by simp) (by simp)).insertOccurrence (hobject _) hnew

theorem SameCopies.addEdges (hcopies : SameCopies s) (h : ConsistentOutside gone s)
    (file : String) (edges : List SemanticEdge) : SameCopies (s.addEdges file edges) := by
  have hfold : ∀ (edges : List SemanticEdge) (state : WorkspaceIndex × List EntityKey),
      SameCopies state.1 → ConsistentOutside gone state.1 →
        SameCopies (edges.foldl (WorkspaceIndex.addEdge file) state).1 := by
    intro edges
    induction edges with
    | nil => exact fun _ hstate _ => hstate
    | cons edge edges ih =>
        exact fun state hstate hviews =>
          ih _ (hstate.addEdge hviews state.2 edge) (hviews.addEdge state.2 edge)
  have hadded := hfold edges (s, []) hcopies h
  unfold WorkspaceIndex.addEdges
  dsimp only
  split
  · exact hadded
  · exact hadded.mono (fun _ _ => id) fun _ _ => id

theorem SameCopies.removeFile (hcopies : SameCopies s) (h : ConsistentOutside gone s)
    (file : String) : SameCopies (s.removeFile file) := by
  refine hcopies.mono (fun k stored hstored => ?_) fun k stored hstored => ?_
  · rw [bucket_removeFile_forward s file h.identities, bucket_removeOccurrences_forward] at hstored
    split at hstored
    · cases hstored
    · exact List.mem_of_mem_filter hstored
  · rw [bucket_removeFile_reverse s file h.identities, bucket_removeOccurrences_reverse] at hstored
    split at hstored
    · cases hstored
    · exact List.mem_of_mem_filter hstored

theorem SameCopies.removeFiles (files : List String) (hcopies : SameCopies s)
    (h : ConsistentOutside (fun _ => True) s) : SameCopies (s.removeFiles files) := by
  have hkeeps : ∀ {s : WorkspaceIndex}, KeepsEndpoints s fun _ => True :=
    fun _ _ hstays => absurd trivial hstays
  induction files generalizing s with
  | nil => exact hcopies
  | cons f files ih => exact ih (hcopies.removeFile h f) (h.removeFile hkeeps trivial)

/-- The views agree, down to the copies of an occurrence. -/
structure Mirrored (s : WorkspaceIndex) : Prop extends Consistent s where
  copies : SameCopies s

namespace Mirrored

theorem new : Mirrored new := ⟨consistent_new, fun _ _ _ h => nomatch h⟩

theorem addEdges (h : Mirrored s) (file : String) (edges : List SemanticEdge) :
    Mirrored (s.addEdges file edges) :=
  ⟨h.toConsistent.addEdges file edges,
    h.copies.addEdges (h.toConsistent.outside fun _ => False) file edges⟩

theorem removeFiles (h : Mirrored s) {files : List String} (hfiles : ∀ f ∈ files, gone f)
    (howners : ∀ f ∈ s.owners, gone f → f ∈ files) (hkeeps : KeepsEndpoints s gone) :
    Mirrored (s.removeFiles files) :=
  ⟨(h.toConsistent.removeFiles_iff hfiles howners).mpr hkeeps,
    h.copies.removeFiles files (h.toConsistent.outside _)⟩

theorem removeFile (h : Mirrored s) (hkeeps : KeepsEndpoints s (· = file)) :
    Mirrored (s.removeFile file) := by
  have hgone : ∀ f ∈ [file], f = file := fun f hf => List.mem_singleton.mp hf
  exact h.removeFiles hgone (fun f _ hf => List.mem_singleton.mpr hf) hkeeps

/-- One edge in the two adjacencies. -/
theorem mem_reverse_of_forward (h : Mirrored s) {k : EntityKey} {stored : StoredEdge}
    (hstored : stored ∈ bucket s.forward k) :
    entityKey stored.edge.subject = k ∧ stored ∈ bucket s.reverse (entityKey stored.edge.object) := by
  obtain ⟨hset, hsubject⟩ := (h.mem_forward k _).mp (List.mem_map_of_mem hstored)
  obtain ⟨copy, hcopy, hkey⟩ := List.mem_map.mp ((h.mem_reverse _ stored.key).mpr ⟨hset, rfl⟩)
  obtain rfl := h.copies _ _ stored hstored copy hcopy hkey.symm
  exact ⟨hsubject, hcopy⟩

theorem mem_forward_of_reverse (h : Mirrored s) {k : EntityKey} {stored : StoredEdge}
    (hstored : stored ∈ bucket s.reverse k) :
    entityKey stored.edge.object = k ∧ stored ∈ bucket s.forward (entityKey stored.edge.subject) := by
  obtain ⟨hset, hobject⟩ := (h.mem_reverse k _).mp (List.mem_map_of_mem hstored)
  obtain ⟨copy, hcopy, hkey⟩ := List.mem_map.mp ((h.mem_forward _ stored.key).mpr ⟨hset, rfl⟩)
  obtain rfl := h.copies _ _ copy hcopy stored hstored hkey
  exact ⟨hobject, hcopy⟩

end Mirrored

variable {scope : Option WorkspaceScope} {k : EntityKey} {edge : SemanticEdge}

theorem mem_selectedOccurrences {adjacency : HashMap EntityKey (List StoredEdge)} :
    edge ∈ selectedOccurrences adjacency k scope ↔ ∃ stored ∈ bucket adjacency k,
      scope.all (·.admits stored.assertingFile) = true ∧ stored.edge = edge := by
  simp only [selectedOccurrences, List.mem_map, List.mem_filter, and_assoc]

/-- What leaves a subject arrives at its objects. -/
theorem Mirrored.mem_forwardEdges (h : Mirrored s) :
    edge ∈ s.forwardEdgesByIdentity scope k ↔ entityKey edge.subject = k ∧
      edge ∈ s.reverseEdgesByIdentity scope (entityKey edge.object) := by
  rw [forwardEdgesByIdentity, reverseEdgesByIdentity, mem_selectedOccurrences,
    mem_selectedOccurrences]
  constructor
  · rintro ⟨stored, hstored, hadmitted, rfl⟩
    obtain ⟨hsubject, hcopy⟩ := h.mem_reverse_of_forward hstored
    exact ⟨hsubject, stored, hcopy, hadmitted, rfl⟩
  · rintro ⟨rfl, stored, hstored, hadmitted, rfl⟩
    exact ⟨stored, (h.mem_forward_of_reverse hstored).2, hadmitted, rfl⟩

/-- What arrives at an object leaves its subjects. -/
theorem Mirrored.mem_reverseEdges (h : Mirrored s) :
    edge ∈ s.reverseEdgesByIdentity scope k ↔ entityKey edge.object = k ∧
      edge ∈ s.forwardEdgesByIdentity scope (entityKey edge.subject) := by
  rw [h.mem_forwardEdges, and_iff_right rfl]
  constructor
  · intro hedge
    obtain ⟨stored, hstored, -, rfl⟩ := mem_selectedOccurrences.mp hedge
    have hobject := (h.mem_forward_of_reverse hstored).1
    exact ⟨hobject, hobject ▸ hedge⟩
  · rintro ⟨rfl, hedge⟩
    exact hedge

end WorkspaceIndex

namespace Session

open WorkspaceIndex

/-- The two adjacencies mirror each other along every history whose removals keep the endpoints of
the edges that stay. -/
theorem Reachable.mirrored {canonicalIdentityKey : String → String} {σ : Session}
    (h : Reachable canonicalIdentityKey (fun _ _ => True)
      (fun σ gone => KeepsEndpoints σ.index gone) σ) : Mirrored σ.index := by
  induction h with
  | new => exact .new
  | addEdges _ _ ih => exact ih.addEdges _ _
  | removeFile _ hremoves ih => exact ih.removeFile hremoves
  | replaceSemanticProjection _ hremoves _ ih =>
      exact { (ih.removeFile hremoves).addEdges _ _ with }
  | removeFilesInRoot _ hremoves hresult ih =>
      obtain ⟨files, ⟨-, hmem⟩, rfl⟩ := hresult
      refine ih.removeFiles (fun f hf => ((hmem f).mp hf).2) (fun f howner hf => ?_) hremoves
      exact (hmem f).mpr ⟨howner, hf⟩

end Session
end CleanCtx
