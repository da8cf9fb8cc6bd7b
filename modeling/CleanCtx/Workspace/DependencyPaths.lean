import CleanCtx.Workspace.Traversal

/-!
What the traversals return, for any index and scope. A cycle witness is a closed
path of admitted occurrences, and there is one exactly when the admitted
dependencies have a cycle. A traversal from a start in scope lists the identities
of the index that are within the depth, nearest first.
-/
namespace CleanCtx

namespace WorkspaceIndex

variable {index : WorkspaceIndex} {scope : Option WorkspaceScope}

/-- A closed path of admitted occurrences: each edge begins where the one before it ends, and the
last one ends where the first begins. -/
structure ClosedPath (index : WorkspaceIndex) (scope : Option WorkspaceScope)
    (witness : List CycleWitnessStep) : Prop where
  nonempty : witness ≠ []
  stored : ∀ step ∈ witness, ∃ key, ∃ stored ∈ index.scopedRows scope dependencyCycleRelations key,
    step = cycleStep key stored
  joined : witness.IsChain fun step next => step.object = next.subject
  closed : witness.getLast?.map CycleWitnessStep.object = witness.head?.map CycleWitnessStep.subject

/-- A walk of the search that returns to its start is a closed path. -/
theorem closedPath_of_walk {v : Nat} {witness : List CycleWitnessStep} (hne : witness ≠ [])
    (hwalk : DepthFirst.Walk (index.cycleAdjacency scope) v witness v) :
    index.ClosedPath scope witness := by
  have hends : ∀ i j step, (j, step) ∈ index.cycleAdjacency scope i →
      some step.subject = index.nodeList[i]?.map CycleEntity.ofKey ∧
        some step.object = index.nodeList[j]?.map CycleEntity.ofKey := by
    intro i j step hstep
    obtain ⟨key, hi, stored, -, hj, rfl⟩ := mem_cycleAdjacency.mp hstep
    rw [hi, lookup_indexMap.mp hj]
    exact ⟨rfl, rfl⟩
  obtain ⟨hchain, hhead, hlast⟩ := hwalk.joined hends
  refine ⟨hne, fun step hstep => ?_, hchain.imp fun _ _ => Option.some.inj, ?_⟩
  · obtain ⟨i, j, hmem⟩ := hwalk.mem hstep
    obtain ⟨key, -, stored, hstored, -, hstep⟩ := mem_cycleAdjacency.mp hmem
    exact ⟨key, stored, hstored, hstep⟩
  · rw [List.head?_eq_some_head hne, List.getLast?_eq_some_getLast hne] at *
    exact (hlast _ rfl).trans (hhead _ rfl).symm

/-- The cycle query never panics; it returns a closed path exactly when there is a cycle. -/
theorem dependencyCycleWitness_exact (index : WorkspaceIndex) (scope : Option WorkspaceScope) :
    ∃ result, index.dependencyCycleWitness scope = some result ∧
      (result.isSome = true ↔
        ∃ key, Relation.TransGen (index.DependsOn scope dependencyCycleRelations) key key) ∧
      ∀ witness, result = some witness → index.ClosedPath scope witness := by
  obtain ⟨result, hresult, hcycle⟩ := index.dependencyCycleWitness_spec scope
  refine ⟨result, hresult, hcycle, fun witness hwitness => ?_⟩
  subst hwitness
  unfold dependencyCycleWitness at hresult
  split at hresult
  · cases hresult
  · obtain ⟨hne, v, hwalk⟩ := DepthFirst.findCycle_walk hresult
    exact closedPath_of_walk hne hwalk

def Distance (index : WorkspaceIndex) (scope : Option WorkspaceScope) (start key : EntityKey)
    (n : Nat) : Prop :=
  IsLeast {k | Steps (index.DependsOn scope dependencyRelations) k start key} n

theorem exists_distance {start key : EntityKey} {k : Nat}
    (h : Steps (index.DependsOn scope dependencyRelations) k start key) :
    ∃ n ≤ k, index.Distance scope start key n := by
  classical
  exact ⟨Nat.find ⟨k, h⟩, Nat.find_min' _ h, Nat.find_spec ⟨k, h⟩, fun _ hj => Nat.find_min' _ hj⟩

theorem NoFurther.distance_le {start left right : EntityKey} {m n : Nat}
    (h : index.NoFurther scope start left right) (hleft : index.Distance scope start left m)
    (hright : index.Distance scope start right n) : m ≤ n := by
  obtain ⟨j, hj, hsteps⟩ := h n hright.1
  exact (hleft.2 hsteps).trans hj

/-- The traversal never panics. From a start in scope it lists the identities of the index, other
than the start, whose distance is within the depth: each one once, by distance. -/
theorem transitiveDependencies_exact (index : WorkspaceIndex) (scope : Option WorkspaceScope)
    (startKey : EntityKey) (depth : Int) :
    ∃ result, index.transitiveDependencies scope startKey depth = some result ∧ result.Nodup ∧
      (result.Pairwise fun left right => ∀ m n, index.Distance scope startKey left m →
        index.Distance scope startKey right n → m ≤ n) ∧
      ∀ key, key ∈ result ↔ index.startIsInScope scope startKey = true ∧ key ≠ startKey ∧
        key ∈ index.nodeList ∧ ∃ n : Nat, index.Distance scope startKey key n ∧
          (0 < depth → (n : Int) ≤ depth) := by
  obtain ⟨result, hresult, hnodup, hordered, hmem⟩ :=
    index.transitiveDependencies_spec scope startKey depth
  refine ⟨result, hresult, hnodup, ?_, fun key => (hmem key).trans ?_⟩
  · exact hordered.imp fun h _ _ => h.distance_le
  · refine and_congr_right fun _ => and_congr_right fun _ => and_congr_right fun _ => ?_
    constructor
    · rintro ⟨k, hk, hsteps⟩
      obtain ⟨n, hn, hdistance⟩ := exists_distance hsteps
      exact ⟨n, hdistance, fun hpos => (Int.ofNat_le.mpr hn).trans (hk hpos)⟩
    · rintro ⟨n, hdistance, hn⟩
      exact ⟨n, hn, hdistance.1⟩

/-- The result is everything that the admitted dependencies reach within the depth. -/
def ReachesExactly (index : WorkspaceIndex) (scope : Option WorkspaceScope) (startKey : EntityKey)
    (depth : Int) : Prop :=
  ∃ result, index.transitiveDependencies scope startKey depth = some result ∧
    ∀ key, key ∈ result ↔ key ≠ startKey ∧ ∃ k : Nat, (0 < depth → (k : Int) ≤ depth) ∧
      Steps (index.DependsOn scope dependencyRelations) k startKey key

/-- A dependency that is not listed, as the start is out of scope or it is no node itself. -/
theorem not_reachesExactly {startKey key : EntityKey} (hne : key ≠ startKey)
    (hdepends : index.DependsOn scope dependencyRelations startKey key)
    (hout : index.startIsInScope scope startKey = false ∨ key ∉ index.nodeList) :
    ¬ index.ReachesExactly scope startKey 1 := by
  rintro ⟨result, hresult, hall⟩
  obtain ⟨result', hresult', -, -, hmem⟩ := index.transitiveDependencies_spec scope startKey 1
  obtain rfl := Option.some.inj (hresult.symm.trans hresult')
  have hsteps : Steps (index.DependsOn scope dependencyRelations) 1 startKey key :=
    ⟨startKey, rfl, hdepends⟩
  obtain ⟨hin, -, hnode, -⟩ := (hmem key).mp ((hall key).mpr ⟨hne, 1, fun _ => le_rfl, hsteps⟩)
  rcases hout with hout | hout
  · rw [hout] at hin
    cases hin
  · exact hout hnode

end WorkspaceIndex

namespace Session

open WorkspaceIndex

variable {canonicalIdentityKey : String → String}

/-- Whatever is removed, no view holds more than the edge set. -/
theorem Reachable.consistentOutside {σ : Session}
    (h : Reachable canonicalIdentityKey (fun _ _ => True) (fun _ _ => True) σ) :
    ConsistentOutside (fun _ => True) σ.index := by
  have hkeeps : ∀ {s : WorkspaceIndex}, KeepsEndpoints s fun _ => True :=
    fun _ _ hstays => absurd trivial hstays
  induction h with
  | new => exact consistent_new.outside _
  | addEdges _ _ ih => exact ih.addEdges _ _
  | removeFile _ _ ih => exact ih.removeFile hkeeps trivial
  | replaceSemanticProjection _ _ _ ih =>
      exact { (ih.removeFile hkeeps trivial).addEdges _ _ with }
  | removeFilesInRoot _ _ hresult ih =>
      obtain ⟨files, -, rfl⟩ := hresult
      exact ih.removeFiles files hkeeps fun _ _ => trivial

/-- An occurrence is filed under its subject. -/
theorem Reachable.subject_eq {σ : Session}
    (h : Reachable canonicalIdentityKey (fun _ _ => True) (fun _ _ => True) σ) {key : EntityKey}
    {stored : StoredEdge} (hstored : stored ∈ bucket σ.index.forward key) :
    entityKey stored.edge.subject = key :=
  (h.consistentOutside.forward_sound key _ (List.mem_map_of_mem hstored)).2

/-- In every history the steps of a witness are stored edges with their own ends. -/
theorem Reachable.closedPath_stored {σ : Session}
    (h : Reachable canonicalIdentityKey (fun _ _ => True) (fun _ _ => True) σ)
    {scope : Option WorkspaceScope} {witness : List CycleWitnessStep}
    (hwitness : σ.index.ClosedPath scope witness) : ∀ step ∈ witness, ∃ stored : StoredEdge,
      stored ∈ bucket σ.index.forward (entityKey stored.edge.subject) ∧
        step = cycleStep (entityKey stored.edge.subject) stored := by
  intro step hstep
  obtain ⟨key, stored, hstored, rfl⟩ := hwitness.stored step hstep
  have hmem := (mem_scopedRows.mp hstored).1
  obtain rfl := h.subject_eq hmem
  exact ⟨stored, hmem, rfl⟩

/-- An edge between two services. -/
def injects (subject object : String) (subjectFile objectFile : Option String) : SemanticEdge where
  relation := .injects
  subject := { domain := "spring", entityType := "Service", name := subject, file := subjectFile }
  object := { domain := "spring", entityType := "Service", name := object, file := objectFile }
  layer := "spring"
  callEvidence := none

/-- A file below one root asserts an edge of an identity that occurs only below another one. -/
def borrowed : Session := new.addEdges "/a/f" [injects "A" "B" (some "/b/g") none]

/-- The file in which the target of an edge occurs is removed. -/
def targetRemoved : Session :=
  ((new.addEdges "g" [injects "B" "C" none none]).addEdges "f"
    [injects "A" "B" none (some "g")]).removeFile "g"

theorem not_reachesExactly_borrowed_targetRemoved :
    (Reachable id (fun _ _ => True) (fun _ _ => True) borrowed ∧
      ¬ borrowed.index.ReachesExactly (some { roots := [["/", "a"]], narrowing := none })
        ⟨"spring", "Service", "A"⟩ 1) ∧
    Reachable id (fun _ _ => True) (fun _ _ => True) targetRemoved ∧
      ¬ targetRemoved.index.ReachesExactly none ⟨"spring", "Service", "A"⟩ 1 := by
  have hborrowed : borrowed.index.DependsOn (some { roots := [["/", "a"]], narrowing := none })
      dependencyRelations ⟨"spring", "Service", "A"⟩ ⟨"spring", "Service", "B"⟩ :=
    ⟨{ assertingFile := "/a/f", edge := injects "A" "B" (some "/b/g") (some "/a/f") },
      by decide +kernel, rfl⟩
  have hremoved : targetRemoved.index.DependsOn none dependencyRelations
      ⟨"spring", "Service", "A"⟩ ⟨"spring", "Service", "B"⟩ :=
    ⟨{ assertingFile := "f", edge := injects "A" "B" (some "f") (some "g") },
      by decide +kernel, rfl⟩
  refine ⟨⟨.addEdges .new trivial, not_reachesExactly (by decide) hborrowed (.inl ?_)⟩,
    .removeFile (.addEdges (.addEdges .new trivial) trivial) trivial,
    not_reachesExactly (by decide) hremoved (.inr ?_)⟩
  · decide +kernel
  · rw [mem_nodeList]
    decide +kernel

end Session
end CleanCtx
