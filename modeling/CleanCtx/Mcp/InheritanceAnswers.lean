import CleanCtx.Mcp.Classification
import CleanCtx.Workspace.Adjacency

/-!
Typed inheritance from both sides. What a query derives comes from a base-list fact,
and the spellings a reverse query looks up include the one of every fact that resolves
to its target: where the adjacencies mirror each other the two queries derive the same
facts. A derived fact has one possible kind unless one file declares its class twice.
-/
namespace CleanCtx

namespace CsharpResolution

theorem TypeKind.entityType_injective {kind kind' : TypeKind}
    (h : kind.entityType = kind'.entityType) : kind = kind' := by
  cases kind <;> cases kind' <;> first | rfl | exact absurd h (by decide)

namespace Catalog

variable {catalog : Catalog} {edge : SemanticEdge}

def visibleTo (catalog : Catalog) (reference : BaseReference) : List ResolvedTarget :=
  Scopes.visible (catalog.targetsAt reference.shape.arity) reference.paths

def referencesOf (catalog : Catalog) (edge : SemanticEdge) : List BaseReference :=
  (edgeFile edge).elim [] fun file => catalog.references.filter (·.stands file edge)

theorem resolve_eq_some_iff {reference : BaseReference} {target : ResolvedTarget} :
    catalog.resolve reference = some target ↔ catalog.visibleTo reference ≠ [] ∧
      ∀ t ∈ catalog.visibleTo reference, t = target :=
  Scopes.resolve_eq_some_iff _

theorem recognizesEdge_iff : catalog.recognizesEdge edge = true ↔ catalog.referencesOf edge ≠ [] := by
  rw [recognizesEdge, referencesOf]
  cases edgeFile edge with
  | none => simp
  | some file => simp

theorem resolveEdge_eq : catalog.resolveEdge edge =
    (catalog.referencesOf edge).head?.bind catalog.resolve := by
  rw [resolveEdge, referencesOf]
  cases edgeFile edge with
  | none => rfl
  | some file =>
      rw [Option.elim_some, List.head?_filter]
      rfl

theorem written_of_mem {reference : BaseReference} (h : reference ∈ catalog.referencesOf edge) :
    reference ∈ catalog.references ∧ reference.written = edge.object.name := by
  rw [referencesOf] at h
  cases hfile : edgeFile edge with
  | none =>
      rw [hfile] at h
      cases h
  | some file =>
      rw [hfile, Option.elim_some, List.mem_filter, BaseReference.stands] at h
      simp only [Bool.and_eq_true, decide_eq_true_eq] at h
      exact ⟨h.1, h.2.2⟩

theorem mem_writtenReferencesTo {kind : TypeKind} {name written : String} :
    written ∈ catalog.writtenReferencesTo kind name ↔ ∃ reference ∈ catalog.references,
      catalog.resolve reference = some { kind, name } ∧ reference.written = written := by
  rw [writtenReferencesTo, mem_destutter_ne, List.mem_mergeSort, List.mem_filterMap]
  refine exists_congr fun reference => and_congr_right fun _ => ?_
  cases catalog.resolve reference with
  | none => simp
  | some target =>
      cases target
      simp [Option.filter, and_comm]

end Catalog
end CsharpResolution

namespace Classification

open CsharpResolution

variable {index : WorkspaceIndex} {scope : Option WorkspaceScope} {catalog : Option Catalog}
  {relation : SemanticRelation} {subject object : EntityKey}

def Has (edges : List SemanticEdge) (relation : SemanticRelation) (subject object : EntityKey) :
    Prop :=
  ∃ edge ∈ edges, edge.relation = relation ∧ entityKey edge.subject = subject ∧
    entityKey edge.object = object

theorem has_append (edges edges' : List SemanticEdge) :
    Has (edges ++ edges') relation subject object ↔
      Has edges relation subject object ∨ Has edges' relation subject object := by
  simp only [Has, List.mem_append, or_and_right, exists_or]

/-- What is left out as a duplicate is a fact that the answer has. -/
theorem has_appendDistinct {edges derived : List SemanticEdge} :
    Has (appendDistinct edges derived) relation subject object ↔
      Has edges relation subject object ∨ Has derived relation subject object := by
  rw [appendDistinct]
  induction derived generalizing edges with
  | nil => simp [Has]
  | cons candidate derived ih =>
      have hcons : Has (candidate :: derived) relation subject object ↔
          Has [candidate] relation subject object ∨ Has derived relation subject object :=
        has_append [candidate] derived
      rw [List.foldl_cons, ih, hcons]
      split
      · next hany =>
        obtain ⟨edge, hedge, hsame⟩ := List.any_eq_true.mp hany
        simp only [sameFact, Bool.and_eq_true, decide_eq_true_eq] at hsame
        obtain ⟨⟨⟨hrelation, hsubject⟩, hobject⟩, -⟩ := hsame
        have hknown : Has [candidate] relation subject object → Has edges relation subject object := by
          rintro ⟨fact, hfact, hr, hs, ho⟩
          obtain rfl := List.mem_singleton.mp hfact
          exact ⟨edge, hedge, hrelation.trans hr, hsubject.trans hs, hobject.trans ho⟩
        exact ⟨fun h => h.imp_right .inr, fun h => h.elim .inl fun h => h.imp_left hknown⟩
      · rw [has_append, or_assoc]

theorem mem_writtenNames {kind : TypeKind} {name written : String} :
    written ∈ writtenNames catalog kind name ↔ written = name ∨
      ∃ c ∈ catalog, ∃ reference ∈ c.references,
        c.resolve reference = some { kind, name } ∧ reference.written = written := by
  rw [writtenNames, mem_destutter_ne, List.mem_mergeSort, List.mem_cons]
  cases catalog with
  | none => simp
  | some c => simp [Catalog.mem_writtenReferencesTo]

/-- What a base-list fact is classified as, and that its spelling is one of those of the target. -/
theorem classify_eq_some {neutral fact : SemanticEdge}
    (h : classify index scope catalog neutral = some fact) : ∃ kind name,
      fact = typedFact neutral kind name ∧ neutral.object.name ∈ writtenNames catalog kind name := by
  rw [classify] at h
  split at h
  · next target htarget =>
    obtain ⟨c, hc, htarget⟩ := Option.bind_eq_some_iff.mp htarget
    rw [Catalog.resolveEdge_eq] at htarget
    obtain ⟨reference, hfirst, hresolve⟩ := Option.bind_eq_some_iff.mp htarget
    obtain ⟨hmem, hwritten⟩ := Catalog.written_of_mem (List.mem_of_head? hfirst)
    exact ⟨target.kind, target.name, (Option.some.inj h).symm,
      mem_writtenNames.mpr (.inr ⟨c, hc, reference, hmem, hresolve, hwritten⟩)⟩
  · split at h
    · cases h
    · dsimp only at h
      split at h
      · exact ⟨.class, _, (Option.some.inj h).symm, mem_writtenNames.mpr (.inl rfl)⟩
      · exact ⟨.interface, _, (Option.some.inj h).symm, mem_writtenNames.mpr (.inl rfl)⟩
      · cases h

theorem has_filterMap_classify {edges : List SemanticEdge} :
    Has ((edges.filter isNeutralClassBase).filterMap (classify index scope catalog))
        relation subject object ↔
      ∃ neutral ∈ edges, isNeutralClassBase neutral = true ∧
        ∃ fact, classify index scope catalog neutral = some fact ∧ fact.relation = relation ∧
          entityKey fact.subject = subject ∧ entityKey fact.object = object := by
  simp only [Has, List.mem_filterMap, List.mem_filter]
  constructor
  · rintro ⟨fact, ⟨neutral, ⟨hmem, hneutral⟩, hclassify⟩, hfact⟩
    exact ⟨neutral, hmem, hneutral, fact, hclassify, hfact⟩
  · rintro ⟨neutral, hmem, hneutral, fact, hclassify, hfact⟩
    exact ⟨fact, ⟨neutral, ⟨hmem, hneutral⟩, hclassify⟩, hfact⟩

theorem entityKey_object {neutral : SemanticEdge} (h : isNeutralClassBase neutral = true) :
    entityKey neutral.object = ⟨"builtin", "TypeRef", neutral.object.name⟩ := by
  simp only [isNeutralClassBase, Bool.and_eq_true, decide_eq_true_eq] at h
  rw [entityKey, h.1.2, h.2]

/-- The query on a class: its stored facts, and what its base-list facts are classified as. -/
theorem has_forward {name : String} :
    Has (forward index scope catalog ⟨"builtin", "Class", name⟩ true) relation subject object ↔
      Has (index.forwardEdgesByIdentity scope ⟨"builtin", "Class", name⟩) relation subject object ∨
      ∃ neutral ∈ index.forwardEdgesByIdentity scope ⟨"builtin", "Class", name⟩,
        isNeutralClassBase neutral = true ∧
        ∃ fact, classify index scope catalog neutral = some fact ∧ fact.relation = relation ∧
          entityKey fact.subject = subject ∧ entityKey fact.object = object := by
  rw [forward, if_neg (by simp [builtinClass]), has_appendDistinct, has_filterMap_classify]

theorem targetKind_entityType (kind : TypeKind) (name : String) :
    targetKind ⟨"builtin", kind.entityType, name⟩ = some kind := by
  cases kind <;> rfl

/-- The query on a type: its stored facts, and what the facts with one of its spellings are
classified as. -/
theorem has_reverse {kind : TypeKind} {name : String} :
    Has (reverse index scope catalog ⟨"builtin", kind.entityType, name⟩ true) relation subject
        ⟨"builtin", kind.entityType, name⟩ ↔
      Has (index.reverseEdgesByIdentity scope ⟨"builtin", kind.entityType, name⟩) relation subject
        ⟨"builtin", kind.entityType, name⟩ ∨
      ∃ written ∈ writtenNames catalog kind name,
        ∃ neutral ∈ index.reverseEdgesByIdentity scope ⟨"builtin", "TypeRef", written⟩,
          isNeutralClassBase neutral = true ∧
          ∃ fact, classify index scope catalog neutral = some fact ∧ fact.relation = relation ∧
            entityKey fact.subject = subject ∧
            entityKey fact.object = ⟨"builtin", kind.entityType, name⟩ := by
  rw [reverse, targetKind_entityType]
  dsimp only
  rw [if_neg (by decide), has_appendDistinct]
  refine or_congr_right ?_
  have hfilter : ∀ edges : List SemanticEdge,
      Has (edges.filter (·.object.entityType = kind.entityType)) relation subject
          ⟨"builtin", kind.entityType, name⟩ ↔
        Has edges relation subject ⟨"builtin", kind.entityType, name⟩ := by
    intro edges
    simp only [Has, List.mem_filter, decide_eq_true_eq]
    refine exists_congr fun fact => and_congr_left fun hfact => and_iff_left ?_
    exact congrArg EntityKey.entityType hfact.2.2
  rw [hfilter, has_filterMap_classify]
  simp only [List.mem_flatMap]
  constructor
  · rintro ⟨neutral, ⟨written, hwritten, hmem⟩, hrest⟩
    exact ⟨written, hwritten, neutral, hmem, hrest⟩
  · rintro ⟨written, hwritten, neutral, hmem, hrest⟩
    exact ⟨neutral, ⟨written, hwritten, hmem⟩, hrest⟩

/-- The two queries on the ends of a fact agree about it. -/
def Dual (index : WorkspaceIndex) (scope : Option WorkspaceScope) (catalog : Option Catalog) :
    Prop :=
  ∀ (className : String) (kind : TypeKind) (target : String) (relation : SemanticRelation),
    Has (forward index scope catalog ⟨"builtin", "Class", className⟩ true) relation
        ⟨"builtin", "Class", className⟩ ⟨"builtin", kind.entityType, target⟩ ↔
      Has (reverse index scope catalog ⟨"builtin", kind.entityType, target⟩ true) relation
        ⟨"builtin", "Class", className⟩ ⟨"builtin", kind.entityType, target⟩

theorem dual_of_mirrored (h : index.Mirrored) : Dual index scope catalog := by
  intro className kind target relation
  rw [has_forward, has_reverse]
  refine or_congr ?_ ?_
  · constructor
    · rintro ⟨fact, hfact, hrelation, hsubject, hobject⟩
      have hmem := (h.mem_forwardEdges.mp hfact).2
      rw [hobject] at hmem
      exact ⟨fact, hmem, hrelation, hsubject, hobject⟩
    · rintro ⟨fact, hfact, hrelation, hsubject, hobject⟩
      have hmem := (h.mem_reverseEdges.mp hfact).2
      rw [hsubject] at hmem
      exact ⟨fact, hmem, hrelation, hsubject, hobject⟩
  · constructor
    · rintro ⟨neutral, hmem, hneutral, fact, hclassify, hrelation, hsubject, hobject⟩
      obtain ⟨kind', name, rfl, hwritten⟩ := classify_eq_some hclassify
      obtain rfl := TypeKind.entityType_injective (congrArg EntityKey.entityType hobject)
      obtain rfl : name = target := congrArg EntityKey.name hobject
      refine ⟨_, hwritten, neutral, ?_, hneutral, _, hclassify, hrelation, hsubject, hobject⟩
      have hreverse := (h.mem_forwardEdges.mp hmem).2
      rwa [entityKey_object hneutral] at hreverse
    · rintro ⟨written, hwritten, neutral, hmem, hneutral, fact, hclassify, hfact⟩
      obtain ⟨kind', name, rfl, -⟩ := classify_eq_some hclassify
      refine ⟨neutral, ?_, hneutral, _, hclassify, hfact⟩
      have hforward := (h.mem_reverseEdges.mp hmem).2
      rwa [show entityKey neutral.subject = ⟨"builtin", "Class", className⟩ from hfact.2.1]
        at hforward

/-! The kinds a written type may have. -/

def Evidence (index : WorkspaceIndex) (scope : Option WorkspaceScope) (neutral : SemanticEdge) :
    Prop :=
  (neutral ∈ index.forwardEdgesByIdentity scope (entityKey neutral.subject) ∨
    neutral ∈ index.reverseEdgesByIdentity scope (entityKey neutral.object)) ∧
    isNeutralClassBase neutral = true

/-- A declaration in scope of this kind matches the written type, as the class that wrote it sees
it. Where no reference of the catalog is known for it, the written type is a plain name. -/
def MatchesKind (index : WorkspaceIndex) (scope : Option WorkspaceScope) (catalog : Option Catalog)
    (neutral : SemanticEdge) (kind : TypeKind) : Prop :=
  if catalog.any (·.recognizesEdge neutral) then
    ∃ c ∈ catalog, ∃ reference ∈ c.referencesOf neutral, ∃ target ∈ c.visibleTo reference,
      target.kind = kind
  else declares index scope kind neutral.object.name = true

/-- A typed fact is derived only when exactly one kind matches, and that is its kind. -/
def Unambiguous (index : WorkspaceIndex) (scope : Option WorkspaceScope)
    (catalog : Option Catalog) : Prop :=
  ∀ neutral fact, Evidence index scope neutral → classify index scope catalog neutral = some fact →
    ∃ kind name, fact = typedFact neutral kind name ∧
      ∀ other, MatchesKind index scope catalog neutral other ↔ other = kind

/-- When the first reference with the file, class and spelling of a base-list fact sees one type,
no other one sees a type of another kind. -/
def SingleKind (index : WorkspaceIndex) (scope : Option WorkspaceScope)
    (catalog : Option Catalog) : Prop :=
  ∀ neutral, Evidence index scope neutral → ∀ c ∈ catalog, ∀ first target,
    (c.referencesOf neutral).head? = some first →
      c.visibleTo first ≠ [] → (∀ t ∈ c.visibleTo first, t = target) →
        ∀ reference ∈ c.referencesOf neutral, ∀ t ∈ c.visibleTo reference, t.kind = target.kind

/-- What the catalog resolves is classified as that. -/
theorem classify_of_first {c : Catalog} {neutral : SemanticEdge} {first : BaseReference}
    {target : ResolvedTarget} (hfirst : (c.referencesOf neutral).head? = some first)
    (hresolve : c.resolve first = some target) : classify index scope (some c) neutral =
      some (typedFact neutral target.kind target.name) := by
  have htarget : (some c).bind (·.resolveEdge neutral) = some target := by
    rw [Option.bind_some, Catalog.resolveEdge_eq, hfirst, Option.bind_some, hresolve]
  rw [classify, htarget]

theorem recognizes_of_first {c : Catalog} {neutral : SemanticEdge} {first : BaseReference}
    (hfirst : (c.referencesOf neutral).head? = some first) :
    (some c).any (·.recognizesEdge neutral) = true :=
  Catalog.recognizesEdge_iff.mpr fun hnil => by
    rw [hnil] at hfirst
    cases hfirst

/-- Without a reference a name is classified by the only kind that declares it. -/
theorem matchesKind_of_plain {neutral fact : SemanticEdge}
    (hplain : ¬ catalog.any (·.recognizesEdge neutral) = true)
    (h : (match declares index scope .class neutral.object.name,
        declares index scope .interface neutral.object.name with
      | true, false => some (typedFact neutral .class neutral.object.name)
      | false, true => some (typedFact neutral .interface neutral.object.name)
      | _, _ => none) = some fact) : ∃ kind name, fact = typedFact neutral kind name ∧
        ∀ other, MatchesKind index scope catalog neutral other ↔ other = kind := by
  simp only [MatchesKind, if_neg hplain]
  split at h
  · next hclass hinterface =>
    refine ⟨.class, _, (Option.some.inj h).symm, fun other => ?_⟩
    cases other <;> simp [hclass, hinterface]
  · next hclass hinterface =>
    refine ⟨.interface, _, (Option.some.inj h).symm, fun other => ?_⟩
    cases other <;> simp [hclass, hinterface]
  · cases h

theorem unambiguous_iff : Unambiguous index scope catalog ↔ SingleKind index scope catalog := by
  constructor
  · rintro h neutral hevidence c rfl first target hfirst hne hall reference hreference t ht
    have hresolve := Catalog.resolve_eq_some_iff.mpr ⟨hne, hall⟩
    obtain ⟨kind, name, hfact, hmatches⟩ :=
      h neutral _ hevidence (classify_of_first hfirst hresolve)
    simp only [MatchesKind, if_pos (recognizes_of_first hfirst)] at hmatches
    obtain ⟨t', ht'⟩ := List.exists_mem_of_ne_nil _ hne
    have hkind : t.kind = kind := (hmatches _).mp ⟨c, rfl, reference, hreference, t, ht, rfl⟩
    have hkind' : t'.kind = kind :=
      (hmatches _).mp ⟨c, rfl, first, List.mem_of_head? hfirst, t', ht', rfl⟩
    rw [hkind, ← hkind', hall t' ht']
  · intro h neutral fact hevidence hclassify
    rw [classify] at hclassify
    split at hclassify
    · next target htarget =>
      obtain ⟨c, rfl, hedge⟩ := Option.bind_eq_some_iff.mp htarget
      rw [Catalog.resolveEdge_eq] at hedge
      obtain ⟨first, hfirst, hresolve⟩ := Option.bind_eq_some_iff.mp hedge
      obtain ⟨hne, hall⟩ := Catalog.resolve_eq_some_iff.mp hresolve
      have hsingle := h neutral hevidence c rfl first target hfirst hne hall
      refine ⟨target.kind, target.name, (Option.some.inj hclassify).symm, fun other => ?_⟩
      simp only [MatchesKind, if_pos (recognizes_of_first hfirst)]
      constructor
      · rintro ⟨c', hc', reference, hreference, t, ht, rfl⟩
        obtain rfl := Option.some.inj hc'
        exact hsingle reference hreference t ht
      · rintro rfl
        obtain ⟨t, ht⟩ := List.exists_mem_of_ne_nil _ hne
        exact ⟨c, rfl, first, List.mem_of_head? hfirst, t, ht, by rw [hall t ht]⟩
    · split at hclassify
      · cases hclassify
      · next hplain => exact matchesKind_of_plain hplain hclassify

end Classification

namespace Session

open WorkspaceIndex Classification CsharpResolution

/-- Along every history whose removals keep the endpoints of the edges that stay, the typed answers
are dual; they are unambiguous exactly when no file has a class of one name that two references
place among types of both kinds. -/
theorem Reachable.typedAnswers_iff {canonicalIdentityKey : String → String} {σ : Session}
    (h : Reachable canonicalIdentityKey (fun _ _ => True)
      (fun σ gone => KeepsEndpoints σ.index gone) σ)
    (scope : Option WorkspaceScope) (catalog : Option Catalog) :
    Dual σ.index scope catalog ∧ Unambiguous σ.index scope catalog ↔
      SingleKind σ.index scope catalog := by
  rw [unambiguous_iff, and_iff_right (dual_of_mirrored h.mirrored)]

def baseType (className written : String) (classFile : Option String) : SemanticEdge where
  relation := .hasBaseType
  subject := { domain := "builtin", entityType := "Class", name := className, file := classFile }
  object := { domain := "builtin", entityType := "TypeRef", name := written, file := none }
  layer := "builtin"
  callEvidence := none

def declaredClass (className : String) : SemanticEdge where
  relation := .defines
  subject := { domain := "builtin", entityType := "Class", name := className, file := none }
  object := { domain := "builtin", entityType := "Class", name := className, file := none }
  layer := "builtin"
  callEvidence := none

def inherited : Session :=
  ((new.addEdges "a.cs" [declaredClass "Base", baseType "A" "Base" none]).addEdges "b.cs"
    [baseType "B" "Lib.Base" none]).addEdges "c.cs" [declaredClass "Base", baseType "C" "Base" none]

/-- The base is found from its namespace, and under its qualified name. -/
def libCatalog : Catalog where
  declarations := [{ kind := .class, path := ["Lib", "Base"], name := "Base", arity := 0 }]
  references := [
    { file := "a.cs", owner := "A", «namespace» := ["Lib"], nesting := [], written := "Base"
      shape := { qualifier := [], name := "Base", arity := 0 } },
    { file := "b.cs", owner := "B", «namespace» := [], nesting := [], written := "Lib.Base"
      shape := { qualifier := ["Lib"], name := "Base", arity := 0 } }]

/-- The third file goes, and the types of the other two are resolved. -/
theorem Reachable.typedAnswers_inherited :
    Has (forward (inherited.removeFile "c.cs").index none (some libCatalog)
        ⟨"builtin", "Class", "B"⟩ true) .extends
      ⟨"builtin", "Class", "B"⟩ ⟨"builtin", "Class", "Base"⟩ ∧
      Dual (inherited.removeFile "c.cs").index none (some libCatalog) ∧
        Unambiguous (inherited.removeFile "c.cs").index none (some libCatalog) := by
  have hkept : ∀ key ∈ inherited.index.edgeSet, key.assertingFile ≠ "c.cs" →
      ∀ k ∈ [key.subjectKey, key.objectKey], ∃ e ∈ bucket inherited.index.entities k,
        e.file ≠ some "c.cs" := by
    decide +kernel
  have hreachable : Reachable id (fun _ _ => True) (fun σ gone => KeepsEndpoints σ.index gone)
      (inherited.removeFile "c.cs") := by
    refine .removeFile (.addEdges (.addEdges (.addEdges .new trivial) trivial) trivial) ?_
    intro key hkey hstays k hk
    obtain ⟨e, he, hfile⟩ := hkept key hkey hstays k hk
    exact ⟨e, he, fun f hgone hfile' => absurd (hgone ▸ hfile') hfile⟩
  have hbase : ∀ reference ∈ libCatalog.references, ∀ t ∈ libCatalog.visibleTo reference,
      t.kind = .class := by
    decide +kernel
  refine ⟨?_, (hreachable.typedAnswers_iff none (some libCatalog)).mpr ?_⟩
  · unfold Has
    decide +kernel
  · intro neutral _ c hc first target hfirst hne htarget reference hreference t ht
    cases hc
    obtain ⟨seen, hseen⟩ := List.exists_mem_of_ne_nil _ hne
    have hfirst' := (Catalog.written_of_mem (List.mem_of_head? hfirst)).1
    rw [hbase reference (Catalog.written_of_mem hreference).1 t ht, ← htarget seen hseen,
      hbase first hfirst' seen hseen]

/-- Two namespaces of one file, each with a class A of a base Base: one Base is a class, the other
is an interface. -/
def homonyms : Session := new.addEdges "a.cs" [baseType "A" "Base" none]

def homonym (name : String) : BaseReference where
  file := "a.cs"
  owner := "A"
  «namespace» := [name]
  nesting := []
  written := "Base"
  shape := { qualifier := [], name := "Base", arity := 0 }

def homonymsCatalog : Catalog where
  declarations := [
    { kind := .class, path := ["N1", "A"], name := "A", arity := 0 },
    { kind := .class, path := ["N1", "Base"], name := "Base", arity := 0 },
    { kind := .class, path := ["N2", "A"], name := "A", arity := 0 },
    { kind := .interface, path := ["N2", "Base"], name := "Base", arity := 0 }]
  references := [homonym "N1", homonym "N2"]

/-- `f` has a class with the provenance of `g`, and `g` is removed. -/
def baseRemoved : Session :=
  ((new.addEdges "g" [baseType "A" "Root" none]).addEdges "f"
    [declaredClass "Base", baseType "A" "Base" (some "g")]).removeFile "g"

/-- A class that one file declares twice is typed by its first reference; a class whose occurrences
are gone keeps the facts of its bases. -/
theorem not_typedAnswers_homonyms_baseRemoved :
    (Reachable id (fun _ _ => True) (fun _ _ => True) homonyms ∧
      ¬ (Dual homonyms.index none (some homonymsCatalog) ∧
        Unambiguous homonyms.index none (some homonymsCatalog))) ∧
    Reachable id (fun _ _ => True) (fun _ _ => True) baseRemoved ∧
      ¬ (Dual baseRemoved.index none none ∧ Unambiguous baseRemoved.index none none) := by
  refine ⟨⟨.addEdges .new trivial, fun h => ?_⟩,
    .removeFile (.addEdges (.addEdges .new trivial) trivial) trivial, fun h => ?_⟩
  · have hsingle := unambiguous_iff.mp h.2 (attachFiles "a.cs" (baseType "A" "Base" none))
      ⟨.inl (by decide +kernel), by decide⟩ homonymsCatalog rfl (homonym "N1")
      { kind := .class, name := "Base" } (by decide +kernel) (by decide +kernel) (by decide +kernel)
      (homonym "N2") (by decide +kernel) { kind := .interface, name := "Base" } (by decide +kernel)
    cases hsingle
  · have hreverse : Has (reverse baseRemoved.index none none ⟨"builtin", "Class", "Base"⟩ true)
        .extends ⟨"builtin", "Class", "A"⟩ ⟨"builtin", "Class", "Base"⟩ := by
      have hneutral : attachFiles "f" (baseType "A" "Base" (some "g")) ∈
          baseRemoved.index.reverseEdgesByIdentity none ⟨"builtin", "TypeRef", "Base"⟩ := by
        decide +kernel
      have hclassify : classify baseRemoved.index none none
          (attachFiles "f" (baseType "A" "Base" (some "g"))) =
            some (typedFact (attachFiles "f" (baseType "A" "Base" (some "g"))) .class "Base") := by
        decide +kernel
      exact (@has_reverse _ _ _ _ _ .class _).mpr (.inr ⟨"Base", mem_writtenNames.mpr (.inl rfl), _,
        hneutral, by decide, _, hclassify, rfl, rfl, rfl⟩)
    obtain ⟨fact, hfact, -⟩ := (h.1 "A" .class "Base" .extends).mpr hreverse
    have hnone : forward baseRemoved.index none none ⟨"builtin", "Class", "A"⟩ true = [] := by
      decide +kernel
    rw [hnone] at hfact
    cases hfact

end Session
end CleanCtx
