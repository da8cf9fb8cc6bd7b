import Mathlib.Data.Finset.Sort
import Mathlib.Data.Prod.Lex
import Mathlib.Data.String.Basic
import CleanCtx.Library.BreadthFirst
import CleanCtx.Library.DepthFirst
import CleanCtx.Workspace.Answers

/-!
Graph traversal queries (`workspace/index/traversal.rs`, with the breadth-first
search of `compression/graph_utils.rs`): the dependency-cycle witness and the
transitive dependencies, both over the edge occurrences a scope admits.
-/
namespace CleanCtx

namespace EntityKey

def toTuple (key : EntityKey) : String ×ₗ String ×ₗ String :=
  toLex (key.domain, toLex (key.entityType, key.name))

def le (left right : EntityKey) : Prop := left.toTuple ≤ right.toTuple

instance : DecidableRel le := fun _ _ => inferInstanceAs (Decidable (_ ≤ _))

instance : IsTrans EntityKey le := ⟨fun _ _ _ => le_trans⟩

instance : Std.Total le := ⟨fun _ _ => le_total _ _⟩

theorem toTuple_inj {left right : EntityKey} (h : left.toTuple = right.toTuple) : left = right := by
  cases left
  cases right
  have hparts := Prod.mk.inj (toLex.injective h)
  have htail := Prod.mk.inj (toLex.injective hparts.2)
  rw [EntityKey.mk.injEq]
  exact ⟨hparts.1, htail.1, htail.2⟩

instance : Std.Antisymm le := ⟨fun _ _ h h' => toTuple_inj (le_antisymm h h')⟩

end EntityKey

/-- `cycle_relation_sort_key`. -/
def cycleRelationSortKey : SemanticRelation → Nat
  | .injects => 0
  | .importsModule => 1
  | _ => 2

structure CycleEntity where
  domain : String
  entityType : String
  name : String
  deriving DecidableEq

def CycleEntity.ofKey (key : EntityKey) : CycleEntity := ⟨key.domain, key.entityType, key.name⟩

structure CycleWitnessStep where
  subject : CycleEntity
  relation : SemanticRelation
  object : CycleEntity
  assertingFile : String
  deriving DecidableEq

def CycleWitnessStep.sortKey (step : CycleWitnessStep) :
    Nat ×ₗ String ×ₗ String ×ₗ String ×ₗ String :=
  toLex (cycleRelationSortKey step.relation, toLex (step.object.domain,
    toLex (step.object.entityType, toLex (step.object.name, step.assertingFile))))

namespace WorkspaceIndex

def dependencyRelations : List SemanticRelation :=
  [.injects, .autowired, .importsModule, .handlesAction, .callsService, .hasEntity, .mapsFrom,
    .configurationProperties]

def dependencyCycleRelations : List SemanticRelation := [.injects, .importsModule]

variable (index : WorkspaceIndex) (scope : Option WorkspaceScope)

/-- The sorted identities of `build_node_index`. -/
def nodeList : List EntityKey :=
  (index.entities.keys ∪ index.forward.keys ∪ index.reverse.keys).sort EntityKey.le

def indexMap : HashMap EntityKey Nat := indexFrom id 0 index.nodeList ∅

/-- The occurrences that leave an identity by a relation of a list, as far as the scope admits. -/
def scopedRows (relations : List SemanticRelation) (key : EntityKey) : List StoredEdge :=
  ((bucket index.forward key).filter (relations.contains ·.edge.relation)).filter
    fun stored => scope.all (·.admits stored.assertingFile)

def cycleStep (key : EntityKey) (stored : StoredEdge) : CycleWitnessStep where
  subject := .ofKey key
  relation := stored.edge.relation
  object := .ofKey (entityKey stored.edge.object)
  assertingFile := stored.assertingFile

def cycleAdjacency (node : Nat) : List (Nat × CycleWitnessStep) :=
  match index.nodeList[node]? with
  | none => []
  | some key =>
      ((index.scopedRows scope dependencyCycleRelations key).filterMap fun stored =>
        (index.indexMap.lookup (entityKey stored.edge.object)).map fun object =>
          (object, cycleStep key stored)).mergeSort
        fun left right => decide (left.2.sortKey ≤ right.2.sortKey)

/-- The outer option is `none` where the source would panic. -/
def dependencyCycleWitness : Option (Option (List CycleWitnessStep)) :=
  if index.nodeList = [] then some none
  else DepthFirst.findCycle (index.cycleAdjacency scope) index.nodeList.length

def hasCycle : Option Bool := (index.dependencyCycleWitness scope).map Option.isSome

def dependencyAdjacency (node : Nat) : List Nat :=
  match index.nodeList[node]? with
  | none => []
  | some key => (index.scopedRows scope dependencyRelations key).filterMap fun stored =>
      index.indexMap.lookup (entityKey stored.edge.object)

def startIsInScope (startKey : EntityKey) : Bool :=
  scope.isNone || index.hasIdentityInScope scope startKey

def transitiveDependencies (startKey : EntityKey) (depth : Int) : Option (List EntityKey) :=
  if startKey ∉ index.forward then some []
  else if index.startIsInScope scope startKey = false then some []
  else
    match index.indexMap.lookup startKey with
    | none => some []
    | some startIdx =>
        let depth := if depth < 0 then 0 else depth
        (BreadthFirst.transitiveDependencies startIdx depth index.nodeList.length
          (index.dependencyAdjacency scope)).bind fun result =>
            result.mapM fun node => index.nodeList[node]?

/-- An identity depends on another one by the evidence of a scope. -/
def DependsOn (relations : List SemanticRelation) (subject object : EntityKey) : Prop :=
  ∃ stored ∈ index.scopedRows scope relations subject, entityKey stored.edge.object = object

def LeadsTo (relations : List SemanticRelation) (subject object : EntityKey) : Prop :=
  index.DependsOn scope relations subject object ∧ object ∈ index.nodeList

variable {index scope} {s s' : WorkspaceIndex} {P P' : String → Projection} {own : String → Prop}
  {relations : List SemanticRelation} {key : EntityKey}

theorem mem_scopedRows {stored : StoredEdge} : stored ∈ index.scopedRows scope relations key ↔
    stored ∈ bucket index.forward key ∧ stored.edge.relation ∈ relations ∧
      scope.all (·.admits stored.assertingFile) = true := by
  rw [scopedRows, List.mem_filter, List.mem_filter, List.contains_iff_mem, and_assoc]

theorem nodup_nodeList : index.nodeList.Nodup := Finset.sort_nodup ..

theorem mem_nodeList : key ∈ index.nodeList ↔
    key ∈ index.entities ∨ key ∈ index.forward ∨ key ∈ index.reverse := by
  rw [nodeList, Finset.mem_sort, Finset.mem_union, Finset.mem_union, Finmap.mem_keys,
    Finmap.mem_keys, Finmap.mem_keys, or_assoc]

theorem lookup_indexMap {node : Nat} :
    index.indexMap.lookup key = some node ↔ index.nodeList[node]? = some key := by
  have hindexes : Indexes id index.indexMap index.nodeList :=
    Indexes.empty.indexFrom index.nodeList
  constructor
  · intro h
    obtain ⟨found, hget, rfl⟩ := hindexes.sound h
    exact hget
  · intro h
    obtain ⟨position, hposition⟩ := hindexes.lookup_isSome (List.mem_of_getElem? h)
    obtain ⟨found, hget, heq⟩ := hindexes.sound hposition
    obtain rfl : found = key := heq
    have hlt := (List.getElem?_eq_some_iff.mp h).1
    rw [(List.getElem?_inj hlt nodup_nodeList).mp (h.trans hget.symm)]
    exact hposition

theorem DependsOn.mem_nodeList {subject object : EntityKey}
    (h : index.DependsOn scope relations subject object) : subject ∈ index.nodeList := by
  obtain ⟨stored, hstored, -⟩ := h
  exact WorkspaceIndex.mem_nodeList.mpr (.inr (.inl (mem_of_bucket (mem_scopedRows.mp hstored).1)))

/-- Positions are related as the identities at them are. -/
theorem numbers_leadsTo {r : Nat → Nat → Prop}
    (hr : ∀ i j, r i j ↔ ∃ key, index.nodeList[i]? = some key ∧
      ∃ stored ∈ index.scopedRows scope relations key,
        index.indexMap.lookup (entityKey stored.edge.object) = some j) :
    Numbers index.nodeList r (index.LeadsTo scope relations) where
  nodup := nodup_nodeList
  iff i j := by
    rw [hr]
    refine exists_congr fun key => ⟨fun ⟨hi, stored, hstored, hj⟩ => ?_, fun hrow => ?_⟩
    · have hj := lookup_indexMap.mp hj
      exact ⟨entityKey stored.edge.object, hi, hj, ⟨stored, hstored, rfl⟩, List.mem_of_getElem? hj⟩
    · obtain ⟨_, hi, hj, ⟨stored, hstored, rfl⟩, -⟩ := hrow
      exact ⟨hi, stored, hstored, lookup_indexMap.mpr hj⟩
  mem _ _ h := ⟨h.1.mem_nodeList, h.2⟩

/-- The edges of an identity's position are its admitted occurrences that lead to a node. -/
theorem mem_cycleAdjacency {i j : Nat} {step : CycleWitnessStep} :
    (j, step) ∈ index.cycleAdjacency scope i ↔ ∃ key, index.nodeList[i]? = some key ∧
      ∃ stored ∈ index.scopedRows scope dependencyCycleRelations key,
        index.indexMap.lookup (entityKey stored.edge.object) = some j ∧
          step = cycleStep key stored := by
  unfold cycleAdjacency
  cases index.nodeList[i]? with
  | none => simp
  | some key =>
      simp only [List.mem_mergeSort, List.mem_filterMap, Option.map_eq_some_iff, Prod.mk.injEq,
        Option.some.injEq, exists_eq_left']
      refine exists_congr fun stored => and_congr_right fun _ => ?_
      constructor
      · rintro ⟨_, hlookup, rfl, rfl⟩
        exact ⟨hlookup, rfl⟩
      · rintro ⟨hlookup, rfl⟩
        exact ⟨j, hlookup, rfl, rfl⟩

/-- The cycle query never panics, and it finds a witness exactly when there is a cycle. -/
theorem dependencyCycleWitness_spec (index : WorkspaceIndex) (scope : Option WorkspaceScope) :
    ∃ result, index.dependencyCycleWitness scope = some result ∧ (result.isSome = true ↔
      ∃ key, Relation.TransGen (index.DependsOn scope dependencyCycleRelations) key key) := by
  have hnumbers : Numbers index.nodeList (DepthFirst.Edge (index.cycleAdjacency scope))
      (index.LeadsTo scope dependencyCycleRelations) := by
    refine numbers_leadsTo fun i j => ⟨fun ⟨step, hstep⟩ => ?_, fun hrow => ?_⟩
    · obtain ⟨key, hi, stored, hstored, hj, -⟩ := mem_cycleAdjacency.mp hstep
      exact ⟨key, hi, stored, hstored, hj⟩
    · obtain ⟨key, hi, stored, hstored, hj⟩ := hrow
      exact ⟨cycleStep key stored, mem_cycleAdjacency.mpr ⟨key, hi, stored, hstored, hj, rfl⟩⟩
  obtain ⟨result, hresult, hcycle⟩ := DepthFirst.findCycle_spec fun v w hvw => hnumbers.lt hvw
  unfold dependencyCycleWitness
  split
  · next hnil =>
    refine ⟨none, rfl, iff_of_false Bool.false_ne_true ?_⟩
    rintro ⟨key, hkey⟩
    obtain ⟨_, hfirst, -⟩ := Relation.TransGen.head'_iff.mp hkey
    have hmem := hfirst.mem_nodeList
    rw [hnil] at hmem
    cases hmem
  · refine ⟨result, hresult, ?_⟩
    rw [hcycle, hnumbers.cycle_iff]
    exact exists_congr fun key => transGen_self_iff (r := index.DependsOn scope _)
      (p := (· ∈ index.nodeList)) fun _ _ => DependsOn.mem_nodeList

/-- Whatever number of dependencies leads to the second identity, the first one is within it. -/
def NoFurther (index : WorkspaceIndex) (scope : Option WorkspaceScope)
    (start left right : EntityKey) : Prop :=
  ∀ k, Steps (index.DependsOn scope dependencyRelations) k start right →
    ∃ j ≤ k, Steps (index.DependsOn scope dependencyRelations) j start left

/-- The traversal never panics. From a start in scope it lists the other identities of the index
that the admitted dependencies reach within the depth, each one once, nearest first. -/
theorem transitiveDependencies_spec (index : WorkspaceIndex) (scope : Option WorkspaceScope)
    (startKey : EntityKey) (depth : Int) :
    ∃ result, index.transitiveDependencies scope startKey depth = some result ∧
      result.Nodup ∧ result.Pairwise (index.NoFurther scope startKey) ∧
      ∀ key, key ∈ result ↔ index.startIsInScope scope startKey = true ∧ key ≠ startKey ∧
        key ∈ index.nodeList ∧ ∃ k : Nat, (0 < depth → (k : Int) ≤ depth) ∧
          Steps (index.DependsOn scope dependencyRelations) k startKey key := by
  have hnumbers : Numbers index.nodeList (BreadthFirst.Edge (index.dependencyAdjacency scope))
      (index.LeadsTo scope dependencyRelations) := by
    refine numbers_leadsTo fun i j => ?_
    unfold BreadthFirst.Edge dependencyAdjacency
    cases index.nodeList[i]? with
    | none => simp
    | some key => simp [List.mem_filterMap]
  have hbound : ∀ k : Nat, (0 < (if depth < 0 then 0 else depth) →
      (k : Int) ≤ if depth < 0 then 0 else depth) ↔ (0 < depth → (k : Int) ≤ depth) := by
    intro k
    split <;> omega
  unfold WorkspaceIndex.transitiveDependencies
  split
  · next hforward =>
    refine ⟨[], rfl, List.nodup_nil, .nil, fun key => iff_of_false List.not_mem_nil ?_⟩
    rintro ⟨-, hne, -, k, -, hsteps⟩
    obtain ⟨_, stored, hstored, -⟩ := hsteps.first hne
    exact hforward (mem_of_bucket (mem_scopedRows.mp hstored).1)
  · next hforward =>
    split
    · next hstart =>
      refine ⟨[], rfl, List.nodup_nil, .nil, fun key => iff_of_false List.not_mem_nil ?_⟩
      rintro ⟨hin, -⟩
      rw [hstart] at hin
      cases hin
    · next hstart =>
      rw [Bool.not_eq_false] at hstart
      obtain ⟨startIdx, hidx⟩ := List.mem_iff_getElem?.mp
        (mem_nodeList.mpr (.inr (.inl (not_not.mp hforward))))
      have hsteps : ∀ {k i key}, index.nodeList[i]? = some key →
          (Steps (BreadthFirst.Edge (index.dependencyAdjacency scope)) k startIdx i ↔
            Steps (index.DependsOn scope dependencyRelations) k startKey key) := fun hi =>
        (hnumbers.steps_iff hidx hi).trans (steps_restrict (p := (· ∈ index.nodeList))
          (fun _ _ => DependsOn.mem_nodeList) (List.mem_of_getElem? hi))
      rw [lookup_indexMap.mpr hidx]
      obtain ⟨result, hresult, hnodup, hordered, hmem⟩ := BreadthFirst.transitiveDependencies_spec
        (if depth < 0 then 0 else depth) (fun v w hvw => (hnumbers.lt hvw).2)
        (List.getElem?_eq_some_iff.mp hidx).1
      obtain ⟨keys, hkeys⟩ : ∃ keys, result.mapM (fun node => index.nodeList[node]?) = some keys := by
        refine Lists.exists_mapM fun i hi => ?_
        obtain ⟨hne, k, -, hsteps⟩ := (hmem i).mp hi
        obtain ⟨j, hj⟩ := hsteps.last hne
        rw [List.getElem?_eq_getElem (hnumbers.lt hj).2]
        rfl
      have hall := Lists.mapM_eq_some_iff.mp hkeys
      refine ⟨keys, ?_, ?_, ?_, fun key => ?_⟩
      · dsimp only
        rw [hresult]
        exact hkeys
      · exact Lists.pairwise_of_forall₂ hall hnodup fun hi hj hne heq =>
          hne (hnumbers.position_inj hi (heq ▸ hj))
      · refine Lists.pairwise_of_forall₂ hall hordered fun hi hj hnearer k hk => ?_
        obtain ⟨m, hm, hnear⟩ := hnearer k ((hsteps hj).mpr hk)
        exact ⟨m, hm, (hsteps hi).mp hnear⟩
      · constructor
        · intro hkey
          obtain ⟨i, hi, hkey⟩ := Lists.exists_left_of_forall₂ hall key hkey
          obtain ⟨hne, k, hk, hpath⟩ := (hmem i).mp hi
          refine ⟨hstart, ?_, List.mem_of_getElem? hkey, k, (hbound k).mp hk,
            (hsteps hkey).mp hpath⟩
          rintro rfl
          exact hne (hnumbers.position_inj hkey hidx)
        · rintro ⟨-, hne, hnode, k, hk, hpath⟩
          obtain ⟨i, hi⟩ := List.mem_iff_getElem?.mp hnode
          have hmem : i ∈ result := by
            refine (hmem i).mpr ⟨?_, k, (hbound k).mpr hk, (hsteps hi).mpr hpath⟩
            rintro rfl
            exact hne (Option.some.inj (hi.symm.trans hidx))
          obtain ⟨found, hfound, heq⟩ := Lists.exists_right_of_forall₂ hall i hmem
          rwa [← Option.some.inj (heq.symm.trans hi)]

/-! With only the files of a set in scope, whose evidence the index represents, every target is
a node. -/

theorem Represents.mem_nodeList_of_dependsOn (h : Represents own s P)
    (hscope : ∀ f, scope.all (·.admits f) = true → own f) {subject object : EntityKey}
    (hdepends : s.DependsOn scope relations subject object) : object ∈ s.nodeList := by
  obtain ⟨stored, hstored, rfl⟩ := hdepends
  obtain ⟨hmem, -, hadmitted⟩ := mem_scopedRows.mp hstored
  obtain ⟨hset, -⟩ := h.outside.forward_sound subject _ (List.mem_map_of_mem hmem)
  have hown := hscope _ hadmitted
  exact mem_nodeList.mpr (.inl (h.outside.endpoints _ hset (not_not.mpr hown)).2)

/-- The transitive dependencies are what the admitted dependencies reach within the depth. -/
theorem Represents.transitiveDependencies (h : Represents own s P)
    (hscope : ∀ f, scope.all (·.admits f) = true → own f) (startKey : EntityKey) (depth : Int) :
    ∃ result, s.transitiveDependencies scope startKey depth = some result ∧
      ∀ key, key ∈ result ↔ s.startIsInScope scope startKey = true ∧ key ≠ startKey ∧
        ∃ k : Nat, (0 < depth → (k : Int) ≤ depth) ∧
          Steps (s.DependsOn scope dependencyRelations) k startKey key := by
  obtain ⟨result, hresult, -, -, hmem⟩ := s.transitiveDependencies_spec scope startKey depth
  refine ⟨result, hresult, fun key => (hmem key).trans ?_⟩
  refine and_congr_right fun _ => and_congr_right fun hne => and_iff_right_of_imp ?_
  rintro ⟨k, -, hsteps⟩
  obtain ⟨_, hlast⟩ := hsteps.last hne
  exact h.mem_nodeList_of_dependsOn hscope hlast

/-- The cycle query answers whether the admitted dependencies have a cycle. -/
theorem hasCycle_spec (index : WorkspaceIndex) (scope : Option WorkspaceScope) :
    ∃ answer, index.hasCycle scope = some answer ∧ (answer = true ↔
      ∃ key, Relation.TransGen (index.DependsOn scope dependencyCycleRelations) key key) := by
  obtain ⟨result, hresult, hcycle⟩ := index.dependencyCycleWitness_spec scope
  exact ⟨result.isSome, by rw [hasCycle, hresult]; rfl, hcycle⟩

end WorkspaceIndex
end CleanCtx
