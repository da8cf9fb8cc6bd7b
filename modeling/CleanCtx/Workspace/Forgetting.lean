import CleanCtx.Workspace.Answers

/-!
Forgetting. A history whose removals drop exactly what nobody else registered
leaves an index that answers every query as one that is built afresh from the
projections that are left, file by file in any order.
-/
namespace CleanCtx
namespace WorkspaceIndex

/-- Contribute the projection of one file to an index. -/
def project (projections : String → Projection) (index : WorkspaceIndex) (file : String) :
    WorkspaceIndex :=
  let index := index.addEdges file (projections file).edges
  match (projections file).coverage with
  | some coverage => index.cover file coverage
  | none => index

def rebuild (projections : String → Projection) (files : List String) : WorkspaceIndex :=
  files.foldl (project projections) new

def Lists (projections : String → Projection) (files : List String) : Prop :=
  files.Nodup ∧ ∀ f, projections f ≠ .none → f ∈ files

variable {P : String → Projection} {own : String → Prop}

/-- The projections of some files only. -/
def listed (projections : String → Projection) (files : List String) : String → Projection :=
  fun f => if f ∈ files then projections f else .none

theorem listed_concat {files : List String} (file : String) :
    listed P (files ++ [file]) = Function.update (listed P files) file (P file) := by
  funext f
  by_cases hf : f = file
  · rw [hf, Function.update_self, listed, if_pos (List.mem_append_right _ List.mem_cons_self)]
  · rw [Function.update_of_ne hf]
    simp [listed, hf]

theorem listed_eq {files : List String} (h : Lists P files) : listed P files = P := by
  funext f
  unfold listed
  split
  · rfl
  · next hf =>
    by_contra hne
    exact hf (h.2 f (Ne.symm hne))

/-- Contributing the projection of a file that has none yet. -/
theorem Represents.project {s : WorkspaceIndex} {files : List String} {file : String}
    (h : Represents own s (listed P files)) (hfile : file ∉ files) :
    Represents own (project P s file) (listed P (files ++ [file])) := by
  have hnone : listed P files file = .none := if_neg hfile
  have hadded := h.addEdges file (P file).edges
  rw [listed_concat]
  unfold WorkspaceIndex.project
  cases hcoverage : (P file).coverage with
  | none =>
      have hsame : contribute (listed P files) file (P file).edges =
          Function.update (listed P files) file (P file) := by
        have hP : P file = { edges := (P file).edges, coverage := none } := by
          rw [← hcoverage]
        rw [contribute, hnone]
        exact congrArg (Function.update _ file) hP.symm
      exact hsame ▸ hadded
  | some coverage =>
      have hcovered := hadded.cover file coverage
      have hsame : Function.update (contribute (listed P files) file (P file).edges) file
          { contribute (listed P files) file (P file).edges file with
            coverage := some coverage } =
          Function.update (listed P files) file (P file) := by
        have hP : P file = { edges := (P file).edges, coverage := some coverage } := by
          rw [← hcoverage]
        rw [contribute_self, contribute, Function.update_idem, hnone]
        exact congrArg (Function.update _ file) hP.symm
      exact hsame ▸ hcovered

theorem represents_rebuild {files : List String} (h : Lists P files) :
    Represents own (rebuild P files) P := by
  have hlisted : ∀ files : List String, files.Nodup →
      Represents own (rebuild P files) (listed P files) := by
    intro files
    induction files using List.reverseRecOn with
    | nil => exact fun _ => represents_new
    | append_singleton files file ih =>
        intro hnodup
        rw [← List.concat_eq_append, List.nodup_concat] at hnodup
        rw [rebuild, List.foldl_append, List.foldl_cons, List.foldl_nil]
        exact (ih hnodup.2).project hnodup.1
  have hall := hlisted files h.1
  rwa [listed_eq h] at hall

end WorkspaceIndex

namespace Session

open WorkspaceIndex

variable {canonicalIdentityKey : String → String}

/-- The condition on a removal: it drops exactly what nobody else registered. -/
def removesExactly (σ : Session) (gone : String → Prop) : Prop :=
  ForgetsExactly (fun _ => True) σ.index σ.projections gone

theorem Reachable.represents {σ : Session}
    (h : Reachable canonicalIdentityKey (fun _ _ => True) removesExactly σ) :
    Represents (fun _ => True) σ.index σ.projections := by
  have hsingle : ∀ {σ : Session} {file : String},
      Represents (fun _ => True) σ.index σ.projections → removesExactly σ (· = file) →
      Represents (fun _ => True) (σ.removeFile file).index (σ.removeFile file).projections := by
    intro σ file hσ hexact
    have hgone : ∀ f ∈ [file], f = file := fun f hf => List.mem_singleton.mp hf
    refine (hσ.removeFiles_iff (fun _ _ _ _ _ _ => trivial) hgone ?_).mpr hexact
    exact fun f _ hf => List.mem_singleton.mpr hf
  induction h with
  | new => exact represents_new
  | addEdges _ _ ih => exact ih.addEdges _ _
  | removeFile _ hremoves ih => exact hsingle ih hremoves
  | replaceSemanticProjection _ hremoves _ ih =>
      exact ((hsingle ih hremoves).addEdges _ _).cover _ _
  | removeFilesInRoot _ hremoves hresult ih =>
      obtain ⟨files, ⟨-, hmem⟩, rfl⟩ := hresult
      refine (ih.removeFiles_iff (fun _ _ _ _ _ _ => trivial)
        (fun f hf => ((hmem f).mp hf).2) ?_).mpr hremoves
      exact fun f howner hf => (hmem f).mpr ⟨howner, hf⟩

/-- At any time finitely many files have a projection. -/
theorem Reachable.exists_lists {adds : String → List SemanticEdge → Prop}
    {removes : Session → (String → Prop) → Prop} {σ : Session}
    (h : Reachable canonicalIdentityKey adds removes σ) : ∃ files, Lists σ.projections files := by
  have hcons : ∀ {P Q : String → Projection} (file : String), (∃ files, Lists P files) →
      (∀ f, f ≠ file → Q f = P f) → ∃ files, Lists Q files := by
    rintro P Q file ⟨files, -, hall⟩ hsame
    refine ⟨(file :: files).dedup, List.nodup_dedup _, fun f hf => List.mem_dedup.mpr ?_⟩
    by_cases hne : f = file
    · exact hne ▸ List.mem_cons_self
    · rw [hsame f hne] at hf
      exact List.mem_cons_of_mem _ (hall f hf)
  have hforget : ∀ {P : String → Projection} (gone : String → Prop) [DecidablePred gone],
      (∃ files, Lists P files) → ∃ files, Lists (forget P gone) files := by
    intro P gone _ ⟨files, hnodup, hall⟩
    refine ⟨files, hnodup, fun f hf => hall f fun hnone => hf ?_⟩
    unfold forget
    split
    · rfl
    · exact hnone
  induction h with
  | new => exact ⟨[], List.nodup_nil, fun _ hf => absurd rfl hf⟩
  | addEdges _ _ ih => exact hcons _ ih fun f hf => Function.update_of_ne hf ..
  | removeFile _ _ ih => exact hforget _ ih
  | @replaceSemanticProjection σ file edges _ _ _ _ _ ih =>
      have hadded := hcons file (hforget (· = file) ih) fun f hf =>
        contribute_of_ne hf edges
      exact hcons _ hadded fun f hf => Function.update_of_ne hf ..
  | removeFilesInRoot _ _ _ ih => exact hforget _ ih

/-- Along every history whose removals drop exactly what nobody else registered, every query
answers as in an index built afresh from the projections that are left. -/
theorem Reachable.forgets {σ : Session}
    (h : Reachable canonicalIdentityKey (fun _ _ => True) removesExactly σ) :
    (∃ files, Lists σ.projections files) ∧ ∀ files, Lists σ.projections files →
      (∀ scope, SameAnswers scope σ.index (rebuild σ.projections files)) ∧
        SameEvidence σ.index (rebuild σ.projections files) := by
  refine ⟨h.exists_lists, fun files hfiles => ?_⟩
  have hfresh : Represents (fun _ => True) _ _ := represents_rebuild hfiles
  refine ⟨fun scope => h.represents.sameAnswers hfresh ?_ fun _ _ => trivial,
    h.represents.sameEvidence hfresh⟩
  exact ⟨fun _ _ => rfl, fun _ _ _ _ => Iff.rfl⟩

/-- Of two overlapping files one goes, and the index is the one that the other builds. -/
theorem Reachable.forgets_overlapping :
    (∀ scope, SameAnswers scope (overlapping.removeFile "g").index
      (rebuild (overlapping.removeFile "g").projections ["f"])) ∧
      SameEvidence (overlapping.removeFile "g").index
        (rebuild (overlapping.removeFile "g").projections ["f"]) := by
  have hnone : ∀ f, f ≠ "f" → f ≠ "g" → overlapping.projections f = .none := fun f hf hg =>
    (Function.update_of_ne hg ..).trans (Function.update_of_ne hf ..)
  have hall : ∀ k ∈ overlapping.index.entities.keys, ∀ e ∈ bucket overlapping.index.entities k,
      (e.file = some "f" ∧ e ∈ registrations "f" (overlapping.projections "f").edges) ∨
        (e.file = some "g" ∧ k ∈ bucket overlapping.index.fileMap "g" ∧
          e ∉ registrations "f" (overlapping.projections "f").edges) := by
    decide +kernel
  have hexact : removesExactly overlapping (· = "g") := by
    intro x _ e he hmem
    obtain ⟨hfile, hf⟩ | ⟨hfile, hmap, hf⟩ :=
      hall _ (Finmap.mem_keys.mpr (mem_of_bucket hmem)) e hmem
    · obtain rfl : "f" = x := Option.some.inj (hfile.symm.trans he)
      exact iff_of_false (fun h => absurd h.1 (by decide)) fun h => absurd (h "f" hf) (by decide)
    · obtain rfl : "g" = x := Option.some.inj (hfile.symm.trans he)
      refine iff_of_true ⟨rfl, hmap⟩ fun owner howner => by_contra fun hne => ?_
      by_cases howner' : owner = "f"
      · exact hf (howner' ▸ howner)
      · rw [hnone owner howner' hne] at howner
        cases howner
  have hlists : Lists (overlapping.removeFile "g").projections ["f"] := by
    refine ⟨List.nodup_singleton _, fun f hf => List.mem_singleton.mpr (by_contra fun hne => ?_)⟩
    refine hf ?_
    change forget overlapping.projections (· = "g") f = .none
    unfold forget
    split
    · rfl
    · next hg => exact hnone f hne hg
  have hreachable : Reachable id (fun _ _ => True) removesExactly (overlapping.removeFile "g") :=
    .removeFile (.addEdges (.addEdges .new trivial) trivial) hexact
  exact hreachable.forgets.2 ["f"] hlists

/-- `f` asserts an edge whose subject carries the provenance of `g`, and `f` is removed. -/
def foreignKept : Session :=
  (new.addEdges "f" [{
    relation := .injects
    subject := { domain := "spring", entityType := "Service", name := "A", file := some "g" }
    object := { domain := "spring", entityType := "Service", name := "B", file := none }
    layer := "spring"
    callEvidence := none }]).removeFile "f"

/-- Nothing is left to build from, and an occurrence is left in the index. -/
theorem not_forgets_foreignKept :
    Reachable id (fun _ _ => True) (fun _ _ => True) foreignKept ∧
      Lists foreignKept.projections [] ∧
      ¬ SameEvidence foreignKept.index (rebuild foreignKept.projections []) := by
  refine ⟨.removeFile (.addEdges .new trivial) trivial,
    ⟨List.nodup_nil, fun f hf => absurd ?_ hf⟩, fun h => ?_⟩
  · change forget _ (· = "f") f = .none
    unfold forget
    split
    · rfl
    · next hne => exact Function.update_of_ne hne ..
  · have hcount : foreignKept.index.entityOccurrenceCount ≠
        (rebuild foreignKept.projections []).entityOccurrenceCount := by
      decide +kernel
    exact hcount h.occurrenceCount

end Session
end CleanCtx
