import CleanCtx.Workspace.Forgetting
import CleanCtx.Workspace.Traversal

/-!
Scope isolation. When edges carry their own file as provenance, the index
represents the projections of the files in a scope whatever other files
contribute, and so every scoped answer depends on those projections only.
-/
namespace CleanCtx
namespace WorkspaceIndex

/-- No reference is passed off on another file, as far as one of the two is in the set. -/
def OwnProvenance (own : String → Prop) (file : String) (edges : List SemanticEdge) : Prop :=
  ∀ edge ∈ edges, ∀ e ∈ [edge.subject, edge.object], ∀ x, e.file = some x →
    own file ∨ own x → x = file

/-- What is registered carries the provenance of who registers it. -/
def Owned (own : String → Prop) (P : String → Projection) : Prop :=
  ∀ f, ∀ e ∈ registrations f (P f).edges, ∀ x, e.file = some x → own f ∨ own x → x = f

/-- The identities tracked to a file of the set are those it registers. -/
def Tracked (own : String → Prop) (s : WorkspaceIndex) (P : String → Projection) : Prop :=
  ∀ x, own x → ∀ k, k ∈ bucket s.fileMap x ↔
    ∃ e ∈ registrations x (P x).edges, entityKey e = k

variable {s s' : WorkspaceIndex} {P P' : String → Projection} {own : String → Prop}
  {file : String} {edge : SemanticEdge} {edges : List SemanticEdge} {keys : List EntityKey}
  {e : EntityRef} {k : EntityKey}

theorem OwnProvenance.registered (h : OwnProvenance own file [edge])
    (he : e ∈ registered file edge) {x : String} (hx : e.file = some x) (hor : own file ∨ own x) :
    x = file := by
  have hattached : ∀ e' ∈ [edge.subject, edge.object], e = attachFile file e' → x = file := by
    rintro e' he' rfl
    cases hfile : e'.file with
    | none =>
        rw [attachFile, hfile] at hx
        exact (Option.some.inj hx).symm
    | some y =>
        rw [attachFile, hfile] at hx
        obtain rfl : y = x := Option.some.inj hx
        exact h edge List.mem_cons_self e' he' y hfile hor
  unfold WorkspaceIndex.registered at he
  split at he
  · exact hattached _ List.mem_cons_self (List.mem_singleton.mp he)
  · rcases List.mem_pair.mp he with hsubject | hobject
    · exact hattached _ List.mem_cons_self hsubject
    · exact hattached _ (List.mem_cons_of_mem _ List.mem_cons_self) hobject

theorem Owned.contribute (h : Owned own P) (hadds : OwnProvenance own file edges) :
    Owned own (contribute P file edges) := by
  intro f e he x hx hor
  by_cases hf : f = file
  · subst hf
    rw [contribute_self, registrations_append, List.mem_append] at he
    rcases he with hold | hnew
    · exact h f e hold x hx hor
    · obtain ⟨edge, hedge, hmem⟩ := List.mem_flatMap.mp hnew
      refine OwnProvenance.registered (fun edge' hedge' => ?_) hmem hx hor
      rw [List.mem_singleton.mp hedge']
      exact hadds edge hedge
  · rw [contribute_of_ne hf] at he
    exact h f e he x hx hor

theorem keyed_registerEntity (hkeyed : ∀ k, ∀ e ∈ bucket s.entities k, entityKey e = k)
    (entity : EntityRef) (keys : List EntityKey) :
    ∀ k, ∀ e ∈ bucket (s.registerEntity (entityKey entity) entity keys).1.entities k,
      entityKey e = k := by
  intro k e he
  rcases (mem_registerEntity_entities hkeyed entity keys k).mp he with hold | ⟨rfl, rfl⟩
  · exact hkeyed k e hold
  · rfl

theorem mem_registerEntity_snd (hkeyed : ∀ k, ∀ e ∈ bucket s.entities k, entityKey e = k)
    (entity : EntityRef) (keys : List EntityKey) :
    (∀ k ∈ (s.registerEntity (entityKey entity) entity keys).2, k ∈ keys ∨ k = entityKey entity) ∧
    (∀ k ∈ keys, k ∈ (s.registerEntity (entityKey entity) entity keys).2) ∧
    (entityKey entity ∈ (s.registerEntity (entityKey entity) entity keys).2 ∨
      entity ∈ bucket s.entities (entityKey entity)) := by
  rw [registerEntity_snd]
  split
  · next h =>
    refine ⟨fun _ => .inl, fun _ => id, .inr ?_⟩
    have hmem := (mem_registerEntity_entities hkeyed entity [] _).mpr (.inr ⟨rfl, rfl⟩)
    rw [bucket_registerEntity, if_neg fun hand => hand.2 h] at hmem
    exact hmem
  · refine ⟨fun k hk => ?_, fun _ hk => List.mem_append_left _ hk, .inl ?_⟩
    · exact (List.mem_append.mp hk).imp_right List.mem_singleton.mp
    · exact List.mem_append_right _ List.mem_cons_self

/-- What one iteration of `add_edges` collects for the file map. -/
theorem mem_addEdge_snd (hkeyed : ∀ k, ∀ e ∈ bucket s.entities k, entityKey e = k)
    (file : String) (keys : List EntityKey) (edge : SemanticEdge) :
    (∀ k ∈ (addEdge file (s, keys) edge).2, k ∈ keys ∨
      ∃ e ∈ registered file edge, entityKey e = k) ∧
    (∀ k ∈ keys, k ∈ (addEdge file (s, keys) edge).2) ∧
    ∀ e ∈ registered file edge, entityKey e ∈ (addEdge file (s, keys) edge).2 ∨
      e ∈ bucket s.entities (entityKey e) := by
  have hpair : ∀ t : WorkspaceIndex, t.entities = s.entities → ∀ subject object : EntityRef,
      let first := t.registerEntity (entityKey subject) subject keys
      let second := (first.1.registerEntity (entityKey object) object first.2).2
      (∀ k ∈ second, k ∈ keys ∨ ∃ e ∈ [subject, object], entityKey e = k) ∧
      (∀ k ∈ keys, k ∈ second) ∧
      ∀ e ∈ [subject, object], entityKey e ∈ second ∨ e ∈ bucket s.entities (entityKey e) := by
    intro t ht subject object
    rw [← ht] at hkeyed ⊢
    obtain ⟨hnew, hkept, hsubject⟩ := mem_registerEntity_snd hkeyed subject keys
    obtain ⟨hnew', hkept', hobject⟩ := mem_registerEntity_snd
      (keyed_registerEntity hkeyed subject keys) object
      (t.registerEntity (entityKey subject) subject keys).2
    refine ⟨fun k hk => ?_, fun k hk => hkept' k (hkept k hk), fun e he => ?_⟩
    · rcases hnew' k hk with hfirst | rfl
      · exact (hnew k hfirst).imp_right fun heq => ⟨subject, List.mem_cons_self, heq.symm⟩
      · exact .inr ⟨object, by simp, rfl⟩
    · have hfirst : entityKey subject ∈ _ ∨ _ := hsubject.imp_left (hkept' _)
      rcases List.mem_pair.mp he with rfl | rfl
      · exact hfirst
      · refine hobject.elim .inl fun hmem => ?_
        rcases (mem_registerEntity_entities hkeyed subject keys _).mp hmem with hold | ⟨rfl, -⟩
        · exact .inr hold
        · exact hfirst
  have hcounted := hpair { s with totalEdgesInserted := s.totalEdgesInserted + 1 } rfl
    (attachFile file edge.subject) (attachFile file edge.object)
  unfold addEdge registered
  dsimp only
  by_cases hreg : isRegistration edge = true
  · rw [if_pos (by simpa using hreg), if_pos hreg]
    obtain ⟨hnew, hkept, hsubject⟩ := mem_registerEntity_snd
      (s := { s with totalEdgesInserted := s.totalEdgesInserted + 1 }) hkeyed
      (attachFile file edge.subject) keys
    refine ⟨fun k hk => ?_, hkept, fun e he => ?_⟩
    · exact (hnew k hk).imp_right fun heq => ⟨_, List.mem_cons_self, heq.symm⟩
    · rw [List.mem_singleton.mp he]
      exact hsubject
  · rw [if_neg (by simpa using hreg), if_neg hreg]
    split
    · exact hcounted
    · exact hcounted

/-- Adding edges tracks what they register. -/
theorem Tracked.addEdges (htracked : Tracked own s P) (h : Represents own s P)
    (howned : Owned own P) (hadds : OwnProvenance own file edges) :
    Tracked own (s.addEdges file edges) (WorkspaceIndex.contribute P file edges) := by
  have hfold : ∀ (edges : List SemanticEdge) (state : WorkspaceIndex × List EntityKey)
      (P : String → Projection), Represents own state.1 P → Owned own P →
      OwnProvenance own file edges → (own file → ∀ k,
        (k ∈ bucket state.1.fileMap file ∨ k ∈ state.2) ↔
          ∃ e ∈ registrations file (P file).edges, entityKey e = k) →
      (edges.foldl (addEdge file) state).1.fileMap = state.1.fileMap ∧ (own file → ∀ k,
        (k ∈ bucket state.1.fileMap file ∨ k ∈ (edges.foldl (addEdge file) state).2) ↔
          ∃ e ∈ registrations file (WorkspaceIndex.contribute P file edges file).edges,
            entityKey e = k) := by
    intro edges
    induction edges with
    | nil =>
        intro state P _ _ _ hstate
        rw [contribute_nil]
        exact ⟨rfl, hstate⟩
    | cons edge edges ih =>
        intro state P h howned hadds hstate
        have hedge : OwnProvenance own file [edge] := fun edge' hedge' =>
          hadds edge' (List.mem_cons.mpr (.inl (List.mem_singleton.mp hedge')))
        have hmap := (addEdge_frame state.1 file edge state.2).1
        obtain ⟨hnew, hkept, hcollected⟩ :=
          mem_addEdge_snd h.outside.keyed file state.2 edge
        have hstep := ih (addEdge file state edge) _ (h.addEdge file state.2 edge)
          (howned.contribute hedge) (fun edge' hedge' => hadds edge' (List.mem_cons_of_mem _ hedge'))
        rw [contribute_append, List.singleton_append] at hstep
        rw [List.foldl_cons]
        change (addEdge file state edge).1.fileMap = state.1.fileMap at hmap
        rw [hmap] at hstep
        refine hstep fun hfile k => ?_
        rw [contribute_self, registrations_append, registrations_singleton]
        constructor
        · intro hk
          have hold : (k ∈ bucket state.1.fileMap file ∨ k ∈ state.2) → _ := (hstate hfile k).mp
          have hweaken : (∃ e ∈ registrations file (P file).edges, entityKey e = k) →
              ∃ e ∈ registrations file (P file).edges ++ registered file edge, entityKey e = k :=
            fun ⟨e, he, hek⟩ => ⟨e, List.mem_append_left _ he, hek⟩
          rcases hk with hk | hk
          · exact hweaken (hold (.inl hk))
          · rcases hnew k hk with hk | ⟨e, he, hek⟩
            · exact hweaken (hold (.inr hk))
            · exact ⟨e, List.mem_append_right _ he, hek⟩
        · rintro ⟨e, he, rfl⟩
          have hold : e ∈ registrations file (P file).edges →
              entityKey e ∈ bucket state.1.fileMap file ∨
                entityKey e ∈ (addEdge file state edge).2 := fun he =>
            ((hstate hfile _).mpr ⟨e, he, rfl⟩).imp_right (hkept _)
          rcases List.mem_append.mp he with he | he
          · exact hold he
          · rcases hcollected e he with hk | hmem
            · exact .inr hk
            · obtain ⟨x, hx⟩ := Option.ne_none_iff_exists'.mp (file_registered he)
              obtain rfl := hedge.registered he hx (.inl hfile)
              obtain ⟨g, hg⟩ := (h.entities x hfile e hx).mp hmem
              exact hold (howned g e hg x hx (.inr hfile) ▸ hg)
  obtain ⟨hmap, hfile⟩ := hfold edges (s, []) P h howned hadds fun hown k => by
    rw [or_iff_left List.not_mem_nil]
    exact htracked file hown k
  have hadded : ∀ f, bucket (s.addEdges file edges).fileMap f =
      if f = file then (edges.foldl (addEdge file) (s, [])).2.foldl pushNew (bucket s.fileMap file)
      else bucket s.fileMap f := by
    intro f
    unfold WorkspaceIndex.addEdges
    dsimp only
    split
    · next hnil =>
      rw [hmap, hnil]
      split
      · next hf => rw [hf, List.foldl_nil]
      · rfl
    · rw [bucket_insert, hmap]
  intro x hx k
  rw [hadded]
  split
  · next hxf =>
    rw [hxf] at hx ⊢
    rw [mem_foldl_pushNew]
    exact hfile hx k
  · next hxf =>
    rw [contribute_of_ne hxf]
    exact htracked x hx k

theorem Represents.forgetsExactly (h : Represents own s P) (htracked : Tracked own s P)
    (howned : Owned own P) (gone : String → Prop) : ForgetsExactly own s P gone := by
  intro x hx e he hmem
  obtain ⟨g, hg⟩ := (h.entities x hx e he).mp hmem
  have hgx := howned g e hg x he (.inr hx)
  have hmap : entityKey e ∈ bucket s.fileMap x :=
    (htracked x hx _).mpr ⟨e, hgx ▸ hg, rfl⟩
  rw [and_iff_left hmap]
  constructor
  · exact fun hgone g' hg' => howned g' e hg' x he (.inr hx) ▸ hgone
  · exact fun hall => hgx ▸ hall g hg

theorem Owned.within (h : Owned own P) : ProvenanceWithin own P := fun f hf e he x hx =>
  (h f e he x hx (.inl hf)).symm ▸ hf

theorem Owned.forget (h : Owned own P) (gone : String → Prop) [DecidablePred gone] :
    Owned own (Session.forget P gone) := by
  intro f e he
  unfold Session.forget at he
  split at he
  · cases he
  · exact h f e he

theorem Tracked.removeFiles (h : Tracked own s P) {files : List String} {gone : String → Prop}
    [DecidablePred gone] (hfiles : ∀ f ∈ files, gone f)
    (howners : ∀ f ∈ s.owners, gone f → f ∈ files) :
    Tracked own (s.removeFiles files) (Session.forget P gone) := by
  intro x hx k
  rw [bucket_removeFiles_fileMap]
  unfold Session.forget
  by_cases hgone : gone x
  · rw [if_pos hgone]
    have hnone : ¬ ∃ e ∈ registrations x Projection.none.edges, entityKey e = k :=
      fun ⟨e, he, _⟩ => List.not_mem_nil he
    refine iff_of_false (fun hk => ?_) hnone
    split at hk
    · cases hk
    · next hnot =>
      refine hnot (howners x ?_ hgone)
      exact Finset.mem_union_left _ (Finset.mem_union_left _
        (Finmap.mem_keys.mpr (mem_of_bucket hk)))
  · rw [if_neg hgone, if_neg fun hmem => hgone (hfiles x hmem)]
    exact h x hx k

/-- The two indexes answer everything that is asked in a scope alike. -/
structure SameScopedAnswers (scope : WorkspaceScope) (s s' : WorkspaceIndex) : Prop
    extends SameAnswers (some scope) s s' where
  cycle : ∃ answer, s.hasCycle (some scope) = some answer ∧ s'.hasCycle (some scope) = some answer
  dependencies : ∀ startKey depth, ∃ result result',
    s.transitiveDependencies (some scope) startKey depth = some result ∧
      s'.transitiveDependencies (some scope) startKey depth = some result' ∧
      ∀ key, key ∈ result ↔ key ∈ result'

theorem Represents.dependsOn_iff {scope : Option WorkspaceScope} (h : Represents own s P)
    (h' : Represents own s' P') (hP : SameContributions own P P')
    (hscope : ∀ f, scope.all (·.admits f) = true → own f) (relations : List SemanticRelation)
    (subject object : EntityKey) :
    s.DependsOn scope relations subject object ↔ s'.DependsOn scope relations subject object := by
  refine exists_congr fun stored => and_congr_left fun _ => ?_
  rw [mem_scopedRows, mem_scopedRows]
  refine and_congr_left fun hadmitted => ?_
  have hown := hscope _ hadmitted.2
  rw [h.mem_forward hown, h'.mem_forward hown, hP.edges _ hown]

/-- Indexes that represent the same contributions answer alike in a scope of the set. -/
theorem Represents.sameScopedAnswers {scope : WorkspaceScope} (h : Represents own s P)
    (h' : Represents own s' P') (hP : SameContributions own P P')
    (hscope : ∀ f, (some scope).all (·.admits f) = true → own f) :
    SameScopedAnswers scope s s' := by
  have hanswers := h.sameAnswers h' hP hscope
  refine { hanswers with cycle := ?_, dependencies := fun startKey depth => ?_ }
  · obtain ⟨answer, hanswer, hcycle⟩ := s.hasCycle_spec (some scope)
    obtain ⟨answer', hanswer', hcycle'⟩ := s'.hasCycle_spec (some scope)
    have hrelation : s.DependsOn (some scope) dependencyCycleRelations =
        s'.DependsOn (some scope) dependencyCycleRelations := by
      funext subject object
      exact propext (h.dependsOn_iff h' hP hscope _ subject object)
    have hsame : answer = answer' := by
      rw [Bool.eq_iff_iff, hcycle, hcycle', hrelation]
    exact ⟨answer, hanswer, hsame ▸ hanswer'⟩
  · obtain ⟨result, hresult, hmem⟩ := h.transitiveDependencies hscope startKey depth
    obtain ⟨result', hresult', hmem'⟩ := h'.transitiveDependencies hscope startKey depth
    refine ⟨result, result', hresult, hresult', fun key => ?_⟩
    rw [hmem, hmem', startIsInScope, startIsInScope, hanswers.identity startKey]
    refine and_congr_right fun _ => and_congr_right fun _ => exists_congr fun k =>
      and_congr_right fun _ => ?_
    exact steps_congr (h.dependsOn_iff h' hP hscope dependencyRelations) k startKey key

theorem Owned.sameContributions (h : Owned own P) (h' : Owned own P')
    (hsame : ∀ f, own f → (P f).edges = (P' f).edges) : SameContributions own P P' := by
  refine ⟨hsame, fun x hx e he => ⟨fun ⟨g, hg⟩ => ⟨x, ?_⟩, fun ⟨g, hg⟩ => ⟨x, ?_⟩⟩⟩
  · rw [← hsame x hx, h g e hg x he (.inr hx)]
    exact hg
  · rw [hsame x hx, h' g e hg x he (.inr hx)]
    exact hg

end WorkspaceIndex

namespace Session

open WorkspaceIndex

variable {canonicalIdentityKey canonicalIdentityKey' : String → String} {own : String → Prop}

theorem cover_edges (σ : Session) (file : String) (coverage : SemanticCoverage) (f : String) :
    ((σ.cover file coverage).projections f).edges = (σ.projections f).edges := by
  unfold cover
  by_cases hf : f = file
  · subst hf
    simp only [Function.update_self]
  · simp only [Function.update_of_ne hf]

/-- Along every history of owned evidence the index represents the projections of the set. -/
theorem Reachable.owned {σ : Session}
    (h : Reachable canonicalIdentityKey (OwnProvenance own) (fun _ _ => True) σ) :
    Represents own σ.index σ.projections ∧ Tracked own σ.index σ.projections ∧
      Owned own σ.projections := by
  have hremoved : ∀ {s : WorkspaceIndex} {P : String → Projection} {files : List String}
      (gone : String → Prop) [DecidablePred gone],
      Represents own s P ∧ Tracked own s P ∧ Owned own P → (∀ f ∈ files, gone f) →
      (∀ f ∈ s.owners, gone f → f ∈ files) →
      Represents own (s.removeFiles files) (forget P gone) ∧
        Tracked own (s.removeFiles files) (forget P gone) ∧ Owned own (forget P gone) := by
    intro s P files gone _ ⟨hs, htracked, howned⟩ hfiles howners
    refine ⟨?_, htracked.removeFiles hfiles howners, howned.forget gone⟩
    exact (hs.removeFiles_iff howned.within hfiles howners).mpr
      (hs.forgetsExactly htracked howned gone)
  have hsingle : ∀ {σ : Session} (file : String),
      Represents own σ.index σ.projections ∧ Tracked own σ.index σ.projections ∧
        Owned own σ.projections →
      Represents own (σ.removeFile file).index (σ.removeFile file).projections ∧
        Tracked own (σ.removeFile file).index (σ.removeFile file).projections ∧
        Owned own (σ.removeFile file).projections := by
    intro σ file hσ
    have hgone : ∀ f ∈ [file], f = file := fun f hf => List.mem_singleton.mp hf
    exact hremoved (· = file) hσ hgone fun f _ hf => List.mem_singleton.mpr hf
  have hadded : ∀ {σ : Session} {file : String} {edges : List SemanticEdge},
      Represents own σ.index σ.projections ∧ Tracked own σ.index σ.projections ∧
        Owned own σ.projections → OwnProvenance own file edges →
      Represents own (σ.addEdges file edges).index (σ.addEdges file edges).projections ∧
        Tracked own (σ.addEdges file edges).index (σ.addEdges file edges).projections ∧
        Owned own (σ.addEdges file edges).projections := fun hσ hadds =>
    ⟨hσ.1.addEdges _ _, hσ.2.1.addEdges hσ.1 hσ.2.2 hadds, hσ.2.2.contribute hadds⟩
  induction h with
  | new =>
      refine ⟨represents_new, fun x _ k => iff_of_false List.not_mem_nil ?_, ?_⟩
      · exact fun ⟨e, he, _⟩ => List.not_mem_nil he
      · exact fun f e he => absurd he List.not_mem_nil
  | addEdges _ hadds ih => exact hadded ih hadds
  | removeFile _ _ ih => exact hsingle _ ih
  | @replaceSemanticProjection σ file edges _ _ _ _ hadds ih =>
      obtain ⟨hs, htracked, howned⟩ := hadded (hsingle file ih) hadds
      refine ⟨hs.cover _ _, fun x hx k => ?_, fun f e he => ?_⟩
      · rw [cover_edges]
        exact htracked x hx k
      · rw [cover_edges] at he
        exact howned f e he
  | removeFilesInRoot _ _ hresult ih =>
      obtain ⟨files, ⟨-, hmem⟩, rfl⟩ := hresult
      exact hremoved _ ih (fun f hf => ((hmem f).mp hf).2) fun f howner hf =>
        (hmem f).mpr ⟨howner, hf⟩

/-- Two histories in which the files of a scope contributed the same answer alike in the scope. -/
theorem Reachable.isolated {scope : WorkspaceScope} {σ σ' : Session}
    (h : Reachable canonicalIdentityKey (OwnProvenance (scope.admits · = true)) (fun _ _ => True) σ)
    (h' : Reachable canonicalIdentityKey' (OwnProvenance (scope.admits · = true))
      (fun _ _ => True) σ')
    (hsame : ∀ f, scope.admits f = true → (σ.projections f).edges = (σ'.projections f).edges) :
    SameScopedAnswers scope σ.index σ'.index := by
  obtain ⟨hs, -, howned⟩ := h.owned
  obtain ⟨hs', -, howned'⟩ := h'.owned
  exact hs.sameScopedAnswers hs' (howned.sameContributions howned' hsame) fun _ => id

/-- A file below a root, alone and with a file of another root that closes a cycle. -/
def inside : Session :=
  new.addEdges "/a/f" [{
    relation := .injects
    subject := { domain := "spring", entityType := "Service", name := "A", file := none }
    object := { domain := "spring", entityType := "Service", name := "B", file := none }
    layer := "spring"
    callEvidence := none }]

def crossed : Session :=
  inside.addEdges "/b/g" [{
    relation := .injects
    subject := { domain := "spring", entityType := "Service", name := "B", file := none }
    object := { domain := "spring", entityType := "Service", name := "A", file := none }
    layer := "spring"
    callEvidence := none }]

theorem Reachable.isolated_crossed :
    SameScopedAnswers { roots := [["/", "a"]], narrowing := none } inside.index crossed.index := by
  have howned : ∀ (own : String → Prop) (file : String) (subject object : EntityRef),
      subject.file = none → object.file = none → OwnProvenance own file [{
        relation := .injects
        subject
        object
        layer := "spring"
        callEvidence := none }] := by
    intro own file subject object hsubject hobject edge hedge e he x hx
    rw [List.mem_singleton.mp hedge] at he
    rcases List.mem_pair.mp he with rfl | rfl
    · rw [hsubject] at hx
      cases hx
    · rw [hobject] at hx
      cases hx
  have hinside : Reachable id (OwnProvenance
      (WorkspaceScope.admits { roots := [["/", "a"]], narrowing := none } · = true))
      (fun _ _ => True) inside := .addEdges .new (howned _ _ _ _ rfl rfl)
  have hcrossed : Reachable id (OwnProvenance
      (WorkspaceScope.admits { roots := [["/", "a"]], narrowing := none } · = true))
      (fun _ _ => True) crossed := .addEdges hinside (howned _ _ _ _ rfl rfl)
  refine hinside.isolated hcrossed fun f hf => ?_
  have hne : f ≠ "/b/g" := by
    rintro rfl
    revert hf
    decide +kernel
  exact congrArg Projection.edges (Function.update_of_ne hne ..).symm

end Session
end CleanCtx
