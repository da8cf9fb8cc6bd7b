import CleanCtx.Workspace.IndexInvariant

/-!
The index as a function of the evidence that was contributed to it. For a set of
files, an index represents their projections when its views hold what the
projections store: the edges of each file under that file, and the occurrences
whose provenance is in the set, whoever registered them. Adding edges always
keeps that; removing files keeps it exactly when the occurrences they drop are
those that nobody else registered.
-/
namespace CleanCtx
namespace WorkspaceIndex

def registered (file : String) (edge : SemanticEdge) : List EntityRef :=
  if isRegistration edge then [attachFile file edge.subject]
  else [attachFile file edge.subject, attachFile file edge.object]

def registrations (file : String) (edges : List SemanticEdge) : List EntityRef :=
  edges.flatMap (registered file)

def storeEdge (file : String) (stored : List StoredEdge) (edge : SemanticEdge) :
    List StoredEdge :=
  if isRegistration edge ∨ EdgeKey.new file edge ∈ stored.map StoredEdge.key then stored
  else stored ++ [{ assertingFile := file, edge := attachFiles file edge }]

def storedEdges (file : String) (edges : List SemanticEdge) : List StoredEdge :=
  edges.foldl (storeEdge file) []

/-- The projections when a file contributes further edges. -/
def contribute (projections : String → Projection) (file : String) (edges : List SemanticEdge) :
    String → Projection :=
  Function.update projections file
    { projections file with edges := (projections file).edges ++ edges }

variable {s : WorkspaceIndex} {file : String} {edge : SemanticEdge} {edges : List SemanticEdge}
  {stored : StoredEdge} {e : EntityRef} {P : String → Projection} {own : String → Prop}

/-! Provenance is no part of an identity. -/

@[simp] theorem entityKey_attachFile : entityKey (attachFile file e) = entityKey e := rfl

@[simp] theorem isRegistration_attachFiles :
    isRegistration (attachFiles file edge) = isRegistration edge := rfl

@[simp] theorem new_attachFiles : EdgeKey.new file (attachFiles file edge) = .new file edge := rfl

@[simp] theorem registrations_nil : registrations file [] = [] := rfl

theorem registrations_append (edges' : List SemanticEdge) :
    registrations file (edges ++ edges') = registrations file edges ++ registrations file edges' :=
  List.flatMap_append

theorem registrations_singleton : registrations file [edge] = registered file edge := by
  rw [registrations, List.flatMap_singleton]

@[simp] theorem storedEdges_nil : storedEdges file [] = [] := rfl

theorem storedEdges_concat : storedEdges file (edges ++ [edge]) =
    storeEdge file (storedEdges file edges) edge := by
  rw [storedEdges, List.foldl_append, List.foldl_cons, List.foldl_nil, storedEdges]

theorem mem_storeEdge {before : List StoredEdge} (h : stored ∈ before) :
    stored ∈ storeEdge file before edge := by
  unfold storeEdge
  split
  · exact h
  · exact List.mem_append_left _ h

theorem file_registered (h : e ∈ registered file edge) : e.file ≠ none := by
  unfold registered at h
  split at h
  · rw [List.mem_singleton.mp h]
    exact Option.some_ne_none _
  · rcases List.mem_pair.mp h with rfl | rfl
    · exact Option.some_ne_none _
    · exact Option.some_ne_none _

/-- What the stored edges of a file hold. -/
theorem storedEdges_spec (file : String) (edges : List SemanticEdge) :
    ((storedEdges file edges).map StoredEdge.key).Nodup ∧
      ∀ stored ∈ storedEdges file edges, stored.assertingFile = file ∧
        stored.edge.subject ∈ registrations file edges ∧
        stored.edge.object ∈ registrations file edges := by
  induction edges using List.reverseRecOn with
  | nil => exact ⟨List.nodup_nil, fun _ h => by cases h⟩
  | append_singleton edges edge ih =>
      obtain ⟨hnodup, hall⟩ := ih
      have hold : ∀ stored ∈ storedEdges file edges, stored.assertingFile = file ∧
          stored.edge.subject ∈ registrations file (edges ++ [edge]) ∧
          stored.edge.object ∈ registrations file (edges ++ [edge]) := by
        intro stored hstored
        obtain ⟨hfile, hsubject, hobject⟩ := hall stored hstored
        rw [registrations_append]
        exact ⟨hfile, List.mem_append_left _ hsubject, List.mem_append_left _ hobject⟩
      rw [storedEdges_concat, storeEdge]
      split
      · exact ⟨hnodup, hold⟩
      · next hnew =>
        rw [not_or] at hnew
        constructor
        · rw [List.map_append, List.map_singleton, ← List.concat_eq_append]
          exact hnodup.concat hnew.2
        · intro stored hstored
          rcases List.mem_append.mp hstored with hmem | hmem
          · exact hold stored hmem
          · rw [List.mem_singleton.mp hmem, registrations_append, registrations_singleton,
              registered, if_neg hnew.1]
            refine ⟨rfl, List.mem_append_right _ ?_, List.mem_append_right _ ?_⟩
            · exact List.mem_cons_self
            · exact List.mem_cons_of_mem _ List.mem_cons_self

theorem storedEdges_inj {stored' : StoredEdge} (h : stored ∈ storedEdges file edges)
    (h' : stored' ∈ storedEdges file edges) (hkey : stored.key = stored'.key) :
    stored = stored' :=
  List.inj_on_of_nodup_map (storedEdges_spec file edges).1 h h' hkey

/-! One iteration of `add_edges`, view by view. -/

/-- An occurrence is stored unless the same one is. -/
theorem mem_registerEntity_entities (hkeyed : ∀ k, ∀ e ∈ bucket s.entities k, entityKey e = k)
    (entity : EntityRef) (keys : List EntityKey) (k : EntityKey) :
    e ∈ bucket (s.registerEntity (entityKey entity) entity keys).1.entities k ↔
      e ∈ bucket s.entities k ∨ (e = entity ∧ k = entityKey entity) := by
  rw [bucket_registerEntity]
  split
  · next h => rw [h.1, List.mem_append, List.mem_singleton, and_iff_left rfl]
  · next h =>
    refine ⟨.inl, fun hor => hor.elim id ?_⟩
    rintro ⟨rfl, rfl⟩
    have hfile : e.file ∈ (bucket s.entities (entityKey e)).map EntityRef.file :=
      by_contra fun hnot => h ⟨rfl, hnot⟩
    obtain ⟨found, hfound, hsame⟩ := List.mem_map.mp hfile
    have hkey := hkeyed _ found hfound
    have heq : found = e := by
      cases found
      cases e
      simp only [entityKey, EntityKey.mk.injEq] at hkey hsame
      rw [hkey.1, hkey.2.1, hkey.2.2, hsame]
    exact heq ▸ hfound

section Step

variable (s) (file) (keys : List EntityKey) (edge)

def Skips : Prop := isRegistration edge = true ∨ EdgeKey.new file edge ∈ s.edgeSet

theorem addEdge_skips (h : Skips s file edge) :
    (addEdge file (s, keys) edge).1.forward = s.forward ∧
      (addEdge file (s, keys) edge).1.reverse = s.reverse ∧
      (addEdge file (s, keys) edge).1.fileEdges = s.fileEdges := by
  unfold addEdge
  dsimp only
  by_cases hreg : isRegistration edge = true
  · rw [if_pos (by simpa using hreg)]
    simp
  · rw [if_neg (by simpa using hreg), if_pos (by simpa using h.resolve_left hreg)]
    simp

theorem addEdge_inserts (h : ¬ Skips s file edge) :
    (addEdge file (s, keys) edge).1.forward = pushEntry s.forward (entityKey edge.subject)
        { assertingFile := file, edge := attachFiles file edge } ∧
      (addEdge file (s, keys) edge).1.reverse = pushEntry s.reverse (entityKey edge.object)
        { assertingFile := file, edge := attachFiles file edge } ∧
      (addEdge file (s, keys) edge).1.fileEdges =
        pushEntry s.fileEdges file (.new file edge) := by
  obtain ⟨hreg, hset⟩ := not_or.mp h
  unfold addEdge
  dsimp only
  rw [if_neg (by simpa using hreg), if_neg (by simpa using hset)]
  simp only [insertOccurrence, registerEntity_forward, registerEntity_reverse,
    registerEntity_fileEdges, new_attachFiles]
  exact ⟨rfl, rfl, trivial⟩

theorem addEdge_frame :
    (addEdge file (s, keys) edge).1.fileMap = s.fileMap ∧
      (addEdge file (s, keys) edge).1.semanticCoverage = s.semanticCoverage := by
  unfold addEdge
  dsimp only
  split
  · simp
  · split
    · simp
    · simp [insertOccurrence]

variable {s} in
theorem mem_addEdge_entities (hkeyed : ∀ k, ∀ e ∈ bucket s.entities k, entityKey e = k)
    (k : EntityKey) :
    e ∈ bucket (addEdge file (s, keys) edge).1.entities k ↔
      e ∈ bucket s.entities k ∨ (e ∈ registered file edge ∧ k = entityKey e) := by
  have hentry : ∀ entity : EntityRef,
      (e = entity ∧ k = entityKey entity) ↔ (e = entity ∧ k = entityKey e) := fun entity =>
    and_congr_right fun heq => by rw [heq]
  unfold addEdge registered
  dsimp only
  by_cases hreg : isRegistration edge = true
  · rw [if_pos (by simpa using hreg), if_pos hreg, List.mem_singleton]
    exact (mem_registerEntity_entities (by exact hkeyed) _ _ k).trans (or_congr_right (hentry _))
  · rw [if_neg (by simpa using hreg), if_neg hreg, List.mem_pair]
    have hboth : ∀ t : WorkspaceIndex, t.entities = s.entities → ∀ keys keys' : List EntityKey,
        e ∈ bucket ((t.registerEntity (entityKey (attachFile file edge.subject))
          (attachFile file edge.subject) keys).1.registerEntity
          (entityKey (attachFile file edge.object)) (attachFile file edge.object)
          keys').1.entities k ↔
        e ∈ bucket s.entities k ∨
          ((e = attachFile file edge.subject ∨ e = attachFile file edge.object) ∧
            k = entityKey e) := by
      intro t ht keys keys'
      rw [← ht] at hkeyed ⊢
      have hsubject := fun k e => mem_registerEntity_entities (e := e) hkeyed
        (attachFile file edge.subject) keys k
      rw [mem_registerEntity_entities (fun k e he => ?_), hsubject, hentry, hentry, or_assoc,
        ← or_and_right]
      rcases (hsubject k e).mp he with hold | ⟨rfl, rfl⟩
      · exact hkeyed k e hold
      · rfl
    have hcounted := hboth { s with totalEdgesInserted := s.totalEdgesInserted + 1 } rfl keys
    split
    · exact hcounted _
    · exact hcounted _

end Step

/-- The index holds, for the files of a set, what their projections store. -/
structure Represents (own : String → Prop) (s : WorkspaceIndex) (P : String → Projection) :
    Prop where
  outside : ConsistentOutside (fun f => ¬ own f) s
  provenance : ∀ k, ∀ e ∈ bucket s.entities k, e.file ≠ none
  fileEdges : ∀ f, own f →
    bucket s.fileEdges f = (storedEdges f (P f).edges).map StoredEdge.key
  forward : ∀ k, ∀ stored ∈ bucket s.forward k, own stored.assertingFile →
    stored ∈ storedEdges stored.assertingFile (P stored.assertingFile).edges
  reverse : ∀ k, ∀ stored ∈ bucket s.reverse k, own stored.assertingFile →
    stored ∈ storedEdges stored.assertingFile (P stored.assertingFile).edges
  entities : ∀ x, own x → ∀ e : EntityRef, e.file = some x →
    (e ∈ bucket s.entities (entityKey e) ↔ ∃ g, e ∈ registrations g (P g).edges)
  coverage : ∀ f, own f → s.semanticCoverage.lookup f = (P f).coverage

theorem represents_new : Represents own new fun _ => .none where
  outside := consistent_new.outside _
  provenance _ _ h := by cases h
  fileEdges _ _ := rfl
  forward _ _ h := by cases h
  reverse _ _ h := by cases h
  entities _ _ _ _ := iff_of_false List.not_mem_nil fun h => List.not_mem_nil h.choose_spec
  coverage _ _ := rfl

@[simp] theorem contribute_self (edges : List SemanticEdge) :
    contribute P file edges file =
      { P file with edges := (P file).edges ++ edges } := Function.update_self ..

theorem contribute_of_ne {f : String} (h : f ≠ file) (edges : List SemanticEdge) :
    contribute P file edges f = P f := Function.update_of_ne h ..

theorem contribute_append (edges edges' : List SemanticEdge) :
    contribute (contribute P file edges) file edges' = contribute P file (edges ++ edges') := by
  funext f
  by_cases hf : f = file
  · rw [hf, contribute_self, contribute_self, contribute_self, List.append_assoc]
  · rw [contribute_of_ne hf, contribute_of_ne hf, contribute_of_ne hf]

theorem contribute_nil : contribute P file [] = P := by
  funext f
  by_cases hf : f = file
  · rw [hf, contribute_self, List.append_nil]
  · rw [contribute_of_ne hf]

theorem exists_mem_registrations_contribute (edges : List SemanticEdge) :
    (∃ g, e ∈ registrations g (contribute P file edges g).edges) ↔
      (∃ g, e ∈ registrations g (P g).edges) ∨ e ∈ registrations file edges := by
  constructor
  · intro ⟨g, hg⟩
    by_cases hf : g = file
    · rw [hf, contribute_self, registrations_append, List.mem_append] at hg
      exact hg.imp_left fun h => ⟨file, h⟩
    · rw [contribute_of_ne hf] at hg
      exact .inl ⟨g, hg⟩
  · intro h
    rcases h with ⟨g, hg⟩ | hnew
    · refine ⟨g, ?_⟩
      by_cases hf : g = file
      · rw [hf] at hg ⊢
        rw [contribute_self, registrations_append]
        exact List.mem_append_left _ hg
      · rw [contribute_of_ne hf]
        exact hg
    · refine ⟨file, ?_⟩
      rw [contribute_self, registrations_append]
      exact List.mem_append_right _ hnew

namespace Represents

/-- Within the set, the edge set says what a file's projection stores. -/
theorem mem_edgeSet (h : Represents own s P) {f : String} (hf : own f) {key : EdgeKey}
    (hkey : key.assertingFile = f) :
    key ∈ s.edgeSet ↔ key ∈ (storedEdges f (P f).edges).map StoredEdge.key := by
  rw [h.outside.edgeSet, hkey, h.fileEdges f hf]

theorem skips_iff (h : Represents own s P) (hfile : own file) : Skips s file edge ↔
    isRegistration edge = true ∨
      EdgeKey.new file edge ∈ (storedEdges file (P file).edges).map StoredEdge.key :=
  or_congr_right (h.mem_edgeSet hfile rfl)

/-- Rows keep to the projections when the new occurrence, if there is one, is pushed. -/
theorem rows (h : Represents own s P) {before after : HashMap EntityKey (List StoredEdge)}
    {k : EntityKey}
    (hrows : ∀ k, ∀ stored ∈ bucket before k, own stored.assertingFile →
      stored ∈ storedEdges stored.assertingFile (P stored.assertingFile).edges)
    (hskips : Skips s file edge → after = before)
    (hinserts : ¬ Skips s file edge → after = pushEntry before k
      { assertingFile := file, edge := attachFiles file edge }) :
    ∀ j, ∀ stored ∈ bucket after j, own stored.assertingFile →
      stored ∈ storedEdges stored.assertingFile
        (contribute P file [edge] stored.assertingFile).edges := by
  intro j stored hstored hown
  have hold : stored ∈ bucket before j → stored ∈ storedEdges stored.assertingFile
      (contribute P file [edge] stored.assertingFile).edges := by
    intro hmem
    have hbefore := hrows j stored hmem hown
    by_cases hf : stored.assertingFile = file
    · rw [hf] at hbefore ⊢
      rw [contribute_self, storedEdges_concat]
      exact mem_storeEdge hbefore
    · rw [contribute_of_ne hf]
      exact hbefore
  by_cases hskip : Skips s file edge
  · rw [hskips hskip] at hstored
    exact hold hstored
  · rw [hinserts hskip, bucket_pushEntry, List.mem_append] at hstored
    rcases hstored with hmem | hnew
    · exact hold hmem
    · split at hnew
      · rw [List.mem_singleton.mp hnew] at hown ⊢
        rw [contribute_self, storedEdges_concat, storeEdge,
          if_neg fun hor => hskip ((h.skips_iff hown).mpr hor)]
        exact List.mem_append_right _ List.mem_cons_self
      · cases hnew

/-- One iteration of `add_edges`. -/
theorem addEdge (h : Represents own s P) (file : String) (keys : List EntityKey)
    (edge : SemanticEdge) :
    Represents own (WorkspaceIndex.addEdge file (s, keys) edge).1 (contribute P file [edge]) := by
  refine
    { outside := h.outside.addEdge keys edge
      provenance := fun k e he => ?_
      fileEdges := fun f hf => ?_
      forward := ?_
      reverse := ?_
      entities := fun x hx e he => ?_
      coverage := fun f hf => ?_ }
  · rcases (mem_addEdge_entities file edge keys h.outside.keyed k).mp he with hold | hnew
    · exact h.provenance k e hold
    · exact file_registered hnew.1
  · by_cases hskip : Skips s file edge
    · rw [(addEdge_skips s file edge keys hskip).2.2, h.fileEdges f hf]
      by_cases hff : f = file
      · rw [hff] at hf ⊢
        rw [contribute_self, storedEdges_concat, storeEdge,
          if_pos ((h.skips_iff hf).mp hskip)]
      · rw [contribute_of_ne hff]
    · rw [(addEdge_inserts s file edge keys hskip).2.2, bucket_pushEntry, h.fileEdges f hf]
      split
      · next hff =>
        rw [hff] at hf ⊢
        rw [contribute_self, storedEdges_concat, storeEdge,
          if_neg fun hor => hskip ((h.skips_iff hf).mpr hor), List.map_append]
        rfl
      · next hff => rw [contribute_of_ne hff, List.append_nil]
  · exact h.rows h.forward (fun hskip => (addEdge_skips s file edge keys hskip).1)
      fun hskip => (addEdge_inserts s file edge keys hskip).1
  · exact h.rows h.reverse (fun hskip => (addEdge_skips s file edge keys hskip).2.1)
      fun hskip => (addEdge_inserts s file edge keys hskip).2.1
  · rw [mem_addEdge_entities file edge keys h.outside.keyed, h.entities x hx e he,
      exists_mem_registrations_contribute, registrations_singleton, and_iff_left rfl]
  · rw [(addEdge_frame s file edge keys).2, h.coverage f hf]
    by_cases hff : f = file
    · rw [hff, contribute_self]
    · rw [contribute_of_ne hff]

/-- The views that the counters and the file map do not touch. -/
theorem congr_counters (h : Represents own s P) (n : Nat)
    (fileMap : HashMap String (List EntityKey)) :
    Represents own { s with
      totalEdgesInserted := n
      fileMap } P := { h with outside := h.outside.congr_counters n fileMap s.semanticCoverage }

theorem addEdges (h : Represents own s P) (file : String) (edges : List SemanticEdge) :
    Represents own (s.addEdges file edges) (contribute P file edges) := by
  have hfold : ∀ (edges : List SemanticEdge) (state : WorkspaceIndex × List EntityKey)
      (P : String → Projection), Represents own state.1 P →
      Represents own (edges.foldl (WorkspaceIndex.addEdge file) state).1
        (contribute P file edges) := by
    intro edges
    induction edges with
    | nil =>
        intro state P hstate
        rw [contribute_nil]
        exact hstate
    | cons edge edges ih =>
        intro state P hstate
        have hrest := ih _ _ (hstate.addEdge file state.2 edge)
        rw [contribute_append, List.singleton_append] at hrest
        exact hrest
  have hadded := hfold edges (s, []) P h
  unfold WorkspaceIndex.addEdges
  dsimp only
  split
  · exact hadded
  · exact hadded.congr_counters _ _

theorem cover (h : Represents own s P) (file : String) (coverage : SemanticCoverage) :
    Represents own (s.cover file coverage) (Function.update P file
      { P file with coverage := some coverage }) := by
  have hedges : ∀ f, (Function.update P file { P file with coverage := some coverage } f).edges =
      (P f).edges := by
    intro f
    by_cases hf : f = file
    · rw [hf, Function.update_self]
    · rw [Function.update_of_ne hf]
  refine
    { outside := h.outside.congr_counters _ _ _
      provenance := h.provenance
      fileEdges := fun f hf => ?_
      forward := fun k stored hstored hown => ?_
      reverse := fun k stored hstored hown => ?_
      entities := fun x hx e he => ?_
      coverage := fun f hf => ?_ }
  · rw [hedges]
    exact h.fileEdges f hf
  · rw [hedges]
    exact h.forward k stored hstored hown
  · rw [hedges]
    exact h.reverse k stored hstored hown
  · simp only [hedges]
    exact h.entities x hx e he
  · by_cases hff : f = file
    · rw [hff, Function.update_self]
      exact Finmap.lookup_insert _
    · rw [Function.update_of_ne hff]
      exact (Finmap.lookup_insert_of_ne _ hff).trans (h.coverage f hf)

end Represents

/-! Removal of several files, view by view. -/

section Remove

variable (s) (files : List String)

theorem bucket_removeFiles_fileEdges (f : String) : bucket (s.removeFiles files).fileEdges f =
    if f ∈ files then [] else bucket s.fileEdges f := by
  induction files generalizing s with
  | nil => rfl
  | cons g files ih =>
      refine (ih _).trans ?_
      rw [(removeFile_views s g).2.2.1, bucket_erase]
      by_cases hf : f = g
      · simp [hf]
      · simp [hf]

theorem bucket_removeFiles_fileMap (f : String) : bucket (s.removeFiles files).fileMap f =
    if f ∈ files then [] else bucket s.fileMap f := by
  induction files generalizing s with
  | nil => rfl
  | cons g files ih =>
      refine (ih _).trans ?_
      rw [(removeFile_views s g).2.1, bucket_erase]
      by_cases hf : f = g
      · simp [hf]
      · simp [hf]

theorem lookup_removeFiles_coverage (f : String) :
    (s.removeFiles files).semanticCoverage.lookup f =
      if f ∈ files then none else s.semanticCoverage.lookup f := by
  induction files generalizing s with
  | nil => rfl
  | cons g files ih =>
      refine (ih _).trans ?_
      rw [(removeFile_views s g).2.2.2.1]
      by_cases hf : f = g
      · subst hf
        simp
      · simp [hf, Finmap.lookup_erase_ne hf]

variable {s}

theorem mem_of_mem_removeFiles (h : Occupied s.entities) (k : EntityKey) :
    (stored ∈ bucket (s.removeFiles files).forward k → stored ∈ bucket s.forward k) ∧
      (stored ∈ bucket (s.removeFiles files).reverse k → stored ∈ bucket s.reverse k) := by
  induction files generalizing s with
  | nil => exact ⟨id, id⟩
  | cons g files ih =>
      obtain ⟨hforward, hreverse⟩ := ih (occupied_removeFile s g h)
      constructor
      · intro hstored
        have hmem := hforward hstored
        rw [bucket_removeFile_forward s g h] at hmem
        split at hmem
        · cases hmem
        · rw [bucket_removeOccurrences_forward] at hmem
          exact (List.mem_filter.mp hmem).1
      · intro hstored
        have hmem := hreverse hstored
        rw [bucket_removeFile_reverse s g h] at hmem
        split at hmem
        · cases hmem
        · rw [bucket_removeOccurrences_reverse] at hmem
          exact (List.mem_filter.mp hmem).1

end Remove

/-- When files go, an occurrence is dropped exactly if nobody else registered it. -/
def ForgetsExactly (own : String → Prop) (s : WorkspaceIndex) (P : String → Projection)
    (gone : String → Prop) : Prop :=
  ∀ x, own x → ∀ e : EntityRef, e.file = some x → e ∈ bucket s.entities (entityKey e) →
    ((gone x ∧ entityKey e ∈ bucket s.fileMap x) ↔
      ∀ g, e ∈ registrations g (P g).edges → gone g)

/-- What the files of the set register has its provenance in the set. -/
def ProvenanceWithin (own : String → Prop) (P : String → Projection) : Prop :=
  ∀ f, own f → ∀ e ∈ registrations f (P f).edges, ∀ x, e.file = some x → own x

namespace Represents

variable {gone : String → Prop} {files : List String}

/-- An endpoint of an edge that stays is registered by the file that asserts the edge. -/
theorem exists_endpoint (h : Represents own s P) {key : EdgeKey} (hkey : key ∈ s.edgeSet)
    (hown : own key.assertingFile) {k : EntityKey} (hk : k ∈ [key.subjectKey, key.objectKey]) :
    ∃ e ∈ registrations key.assertingFile (P key.assertingFile).edges,
      e.file ≠ none ∧ entityKey e = k := by
  obtain ⟨stored, hstored, rfl⟩ := List.mem_map.mp ((h.mem_edgeSet hown rfl).mp hkey)
  obtain ⟨hfile, hsubject, hobject⟩ := (storedEdges_spec _ _).2 stored hstored
  have hprovenance : ∀ e ∈ registrations stored.key.assertingFile
      (P stored.key.assertingFile).edges, e.file ≠ none := by
    intro e he
    obtain ⟨edge, -, hedge⟩ := List.mem_flatMap.mp he
    exact file_registered hedge
  rcases List.mem_pair.mp hk with rfl | rfl
  · exact ⟨_, hsubject, hprovenance _ hsubject, rfl⟩
  · exact ⟨_, hobject, hprovenance _ hobject, rfl⟩

theorem keepsEndpoints (h : Represents own s P) (hwithin : ProvenanceWithin own P)
    (hexact : ForgetsExactly own s P gone) :
    KeepsEndpoints s fun f => ¬ own f ∨ gone f := by
  intro key hkey hstays k hk
  obtain ⟨hown, hnot⟩ := not_or.mp hstays
  obtain ⟨e, he, hfile, rfl⟩ := h.exists_endpoint hkey (not_not.mp hown) hk
  obtain ⟨x, hx⟩ := Option.ne_none_iff_exists'.mp hfile
  have hxown := hwithin _ (not_not.mp hown) e he x hx
  have hmem := (h.entities x hxown e hx).mpr ⟨_, he⟩
  refine ⟨e, hmem, fun f hf hef hmap => ?_⟩
  obtain rfl : x = f := Option.some.inj (hx.symm.trans hef)
  have hgone := hf.resolve_left (not_not.mpr hxown)
  exact hnot ((hexact x hxown e hx hmem).mp ⟨hgone, hmap⟩ _ he)

/-- The occurrences that are left, in terms of who registered them. -/
theorem entities_removeFiles_iff (h : Represents own s P) (hfiles : ∀ f ∈ files, gone f)
    (howners : ∀ f ∈ s.owners, gone f → f ∈ files) {x : String} (hx : own x) (he : e.file = some x)
    [DecidablePred gone] :
    (e ∈ bucket (s.removeFiles files).entities (entityKey e) ↔
      ∃ g, e ∈ registrations g (Session.forget P gone g).edges) ↔
    (e ∈ bucket s.entities (entityKey e) →
      ((gone x ∧ entityKey e ∈ bucket s.fileMap x) ↔
        ∀ g, e ∈ registrations g (P g).edges → gone g)) := by
  have hdropped : (∀ f ∈ files, e.file = some f → entityKey e ∉ bucket s.fileMap f) ↔
      ¬ (gone x ∧ entityKey e ∈ bucket s.fileMap x) := by
    constructor
    · intro hall ⟨hgone, hmap⟩
      refine hall x (howners x ?_ hgone) he hmap
      exact Finset.mem_union_left _ (Finset.mem_union_left _
        (Finmap.mem_keys.mpr (mem_of_bucket hmap)))
    · intro hnot f hf hef hmap
      obtain rfl : x = f := Option.some.inj (he.symm.trans hef)
      exact hnot ⟨hfiles x hf, hmap⟩
  have hleft : (∃ g, e ∈ registrations g (Session.forget P gone g).edges) ↔
      ¬ ∀ g, e ∈ registrations g (P g).edges → gone g := by
    simp only [not_forall, exists_prop]
    refine exists_congr fun g => ?_
    unfold Session.forget
    split
    · next hg => exact iff_of_false List.not_mem_nil fun hand => hand.2 hg
    · next hg => exact (and_iff_left hg).symm
  rw [mem_bucket_removeFiles, hdropped, hleft]
  by_cases hmem : e ∈ bucket s.entities (entityKey e)
  · rw [and_iff_right hmem, not_iff_not, forall_prop_of_true hmem]
  · refine iff_of_true (iff_of_false (fun hand => hmem hand.1) fun hnot => hnot fun g hg => ?_)
      fun hyes => absurd hyes hmem
    exact absurd ((h.entities x hx e he).mpr ⟨g, hg⟩) hmem

/-- Removing every file that goes leaves what the projections of the others store exactly when
the occurrences that are dropped are those that nobody else registered. -/
theorem removeFiles_iff (h : Represents own s P) (hwithin : ProvenanceWithin own P)
    (hfiles : ∀ f ∈ files, gone f) (howners : ∀ f ∈ s.owners, gone f → f ∈ files)
    [DecidablePred gone] :
    Represents own (s.removeFiles files) (Session.forget P gone) ↔
      ForgetsExactly own s P gone := by
  refine ⟨fun hafter x hx e he =>
    (h.entities_removeFiles_iff hfiles howners hx he).mp (hafter.entities x hx e he),
    fun hexact => ?_⟩
  have hforget : ∀ f, ¬ gone f → Session.forget P gone f = P f := fun f hf => if_neg hf
  have hforgotten : ∀ f, gone f → Session.forget P gone f = .none := fun f hf => if_pos hf
  have hset : ∀ key ∈ (s.removeFiles files).edgeSet, ¬ gone key.assertingFile := by
    intro key hkey hgone
    obtain ⟨hmem, hremoved⟩ := (mem_removeFiles_edgeSet files).mp hkey
    have hlist := (h.outside.edgeSet key).mp hmem
    refine hremoved _ (howners _ ?_ hgone) hlist
    exact Finset.mem_union_left _ (Finset.mem_union_right _
      (Finmap.mem_keys.mpr (mem_of_bucket hlist)))
  have hwider : ConsistentOutside (fun f => ¬ own f ∨ gone f) s := h.outside.mono fun _ _ => .inl
  have houtside := hwider.removeFiles files (h.keepsEndpoints hwithin hexact)
    fun f hf => .inr (hfiles f hf)
  have hrows : ∀ stored : StoredEdge, stored.key ∈ (s.removeFiles files).edgeSet →
      own stored.assertingFile → (own stored.assertingFile →
        stored ∈ storedEdges stored.assertingFile (P stored.assertingFile).edges) →
      stored ∈ storedEdges stored.assertingFile
        (Session.forget P gone stored.assertingFile).edges := by
    intro stored hkey hown hbefore
    have hstays : ¬ gone stored.assertingFile := hset _ hkey
    rw [hforget _ hstays]
    exact hbefore hown
  refine
    { outside := houtside.mono fun key hkey hor => hor.resolve_right (hset key hkey)
      provenance := fun k e he => h.provenance k e ((mem_bucket_removeFiles files).mp he).1
      fileEdges := fun f hf => ?_
      forward := fun k stored hstored hown => ?_
      reverse := fun k stored hstored hown => ?_
      entities := fun x hx e he =>
        (h.entities_removeFiles_iff hfiles howners hx he).mpr (hexact x hx e he)
      coverage := fun f hf => ?_ }
  · rw [bucket_removeFiles_fileEdges]
    by_cases hgone : gone f
    · rw [hforgotten f hgone]
      split
      · rfl
      · next hnot =>
        refine bucket_of_notMem fun hmem => hnot (howners f ?_ hgone)
        exact Finset.mem_union_left _ (Finset.mem_union_right _ (Finmap.mem_keys.mpr hmem))
    · rw [hforget f hgone, if_neg fun hmem => hgone (hfiles f hmem)]
      exact h.fileEdges f hf
  · refine hrows stored (houtside.forward_sound k _ (List.mem_map_of_mem hstored)).1 hown ?_
    exact h.forward k stored ((mem_of_mem_removeFiles files h.outside.identities k).1 hstored)
  · refine hrows stored (houtside.reverse_sound k _ (List.mem_map_of_mem hstored)).1 hown ?_
    exact h.reverse k stored ((mem_of_mem_removeFiles files h.outside.identities k).2 hstored)
  · rw [lookup_removeFiles_coverage]
    by_cases hgone : gone f
    · rw [hforgotten f hgone]
      split
      · rfl
      · next hnot =>
        refine Finmap.lookup_eq_none.mpr fun hmem => hnot (howners f ?_ hgone)
        exact Finset.mem_union_right _ (Finmap.mem_keys.mpr hmem)
    · rw [hforget f hgone, if_neg fun hmem => hgone (hfiles f hmem)]
      exact h.coverage f hf

end Represents

end WorkspaceIndex
end CleanCtx
