import CleanCtx.Cbm.CallerSoundness
import CleanCtx.Library.Lists

/-!
A whole verification: every call site of the candidates that parse is counted
under one verdict once a target is resolved. A verdict is sound where the legal
argument counts of the declarations bear it out, and the call sites at which it
is not are described by what stands in their argument lists and in the first
parameters of the declarations.
-/
namespace CleanCtx
namespace Cbm

/-- The arguments of one call of the verifier. -/
structure Verification (alphabet : Alphabet) where
  parseTree : String → Option (Tree alphabet)
  targetSource : String
  targetKey : String
  selector : CsharpTargetSelector
  candidates : List CandidateSource
  memo : ParseMemo alphabet

namespace Verification

variable {alphabet : Alphabet} (v : Verification alphabet)

def summary : CallerVerificationSummary :=
  (verifyCsharpCallers v.parseTree v.targetSource v.targetKey v.selector v.candidates v.memo).1

def targetTree : Option (Tree alphabet) := (v.memo.tree v.parseTree v.targetKey v.targetSource).1

def targetLists : List Node :=
  match v.targetTree with
  | none => []
  | some tree => (methodNodes tree v.selector.methodName v.selector.typeName).filterMap
      (·.childByFieldName "parameters")

def selectedLists : List Node :=
  v.targetLists.filter fun parameters => v.selector.selects (arityOf alphabet parameters)

def callSites : List Node :=
  (candidateTrees v.parseTree (v.memo.tree v.parseTree v.targetKey v.targetSource).2
    v.candidates).flatMap (sitesOf v.selector.methodName)

def resolution : Resolution := resolveTarget (v.targetLists.map (arityOf alphabet)) v.selector

def verdict (site : Node) : Option SiteVerdict :=
  match v.resolution with
  | .unverifiable => none
  | .several => some .ambiguous
  | .single target sameShapeAmbiguity =>
      some (judge target sameShapeAmbiguity site.namedChildCount)

/-- All call sites are counted, a verified one is legal for the selected declaration alone, and a
rejected one for no declaration the selector selects. -/
structure AccountsAndSound : Prop where
  counted : ∀ verdict, v.summary.count verdict =
    v.callSites.countP fun site => v.verdict site = some verdict
  accounted : v.summary.verified + v.summary.ambiguous + v.summary.rejectedArity =
    v.callSites.length
  verified : ∀ site ∈ v.callSites, v.verdict site = some .verified →
    ∃ declaration, v.selectedLists = [declaration] ∧
      v.targetLists.filter (LegalCount · (argumentCount site)) = [declaration]
  rejected : ∀ site ∈ v.callSites, v.verdict site = some .rejected →
    ∀ declaration ∈ v.selectedLists, ¬ LegalCount declaration (argumentCount site)

section Counting

variable {v}

theorem declarationsOf_eq (tree : Tree alphabet) (methodName : String) (typeName : Option String) :
    declarationsOf tree methodName typeName =
      ((methodNodes tree methodName typeName).filterMap
        (·.childByFieldName "parameters")).map (arityOf alphabet) := by
  rw [declarationsOf, List.map_filterMap]
  rfl

theorem summary_count (v : Verification alphabet) (verdict : SiteVerdict) :
    v.summary.count verdict = v.callSites.countP fun site => v.verdict site = some verdict := by
  unfold summary verifyCsharpCallers callSites Verification.verdict resolution targetLists targetTree
  generalize v.memo.tree v.parseTree v.targetKey v.targetSource = parsed
  obtain ⟨targetTree, memo⟩ := parsed
  cases targetTree with
  | none =>
      have hnone : resolveTarget [] v.selector = .unverifiable := rfl
      simp only [List.map_nil, hnone]
      cases verdict <;> simp [CallerVerificationSummary.count,
        CallerVerificationSummary.ofUnverifiable]
  | some tree =>
      simp only [declarationsOf_eq]
      cases resolveTarget _ v.selector with
      | unverifiable =>
          cases verdict <;> simp [CallerVerificationSummary.count,
            CallerVerificationSummary.ofUnverifiable]
      | several =>
          cases verdict with
          | rejected | verified => simp [CallerVerificationSummary.count]
          | ambiguous => simp [CallerVerificationSummary.count, ambiguousLoop_ambiguous]
      | single target sameShapeAmbiguity =>
          have hcount := verifyLoop_count v.parseTree v.selector.methodName target
            sameShapeAmbiguity verdict v.candidates
            { rawCandidates := 0, verified := 0, rejectedArity := 0, ambiguous := 0
              unverifiable := 0, verifiedFiles := [], compatibleFiles := []
              verifiedCandidates := [], ambiguousCandidates := [] } memo
          cases verdict <;>
            simpa [CallerVerificationSummary.count, VerifyLoop.count] using hcount

/-- Verdicts on all sites of a list count every site once. -/
theorem countP_verdicts (f : Node → SiteVerdict) (sites : List Node) :
    sites.countP (fun site => f site = .verified) + sites.countP (fun site => f site = .ambiguous) +
      sites.countP (fun site => f site = .rejected) = sites.length := by
  induction sites with
  | nil => rfl
  | cons site rest ih =>
      simp only [List.countP_cons, List.length_cons]
      cases f site <;> simp <;> omega

theorem verdict_of_resolved (h : v.resolution ≠ .unverifiable) :
    ∃ f : Node → SiteVerdict, ∀ site, v.verdict site = some (f site) := by
  unfold Verification.verdict
  cases hresolution : v.resolution with
  | unverifiable => exact absurd hresolution h
  | several => exact ⟨fun _ => .ambiguous, fun _ => rfl⟩
  | single target sameShapeAmbiguity =>
      exact ⟨fun site => judge target sameShapeAmbiguity site.namedChildCount, fun _ => rfl⟩

/-- Every call site is counted unless the target is not resolved. -/
theorem accounted_iff (v : Verification alphabet) :
    v.summary.verified + v.summary.ambiguous + v.summary.rejectedArity = v.callSites.length ↔
      (v.resolution = .unverifiable → v.callSites = []) := by
  have hverified : v.summary.verified = _ := v.summary_count .verified
  have hambiguous : v.summary.ambiguous = _ := v.summary_count .ambiguous
  have hrejected : v.summary.rejectedArity = _ := v.summary_count .rejected
  rw [hverified, hambiguous, hrejected]
  by_cases hresolution : v.resolution = .unverifiable
  · have hnone : ∀ site, v.verdict site = none := by
      intro site
      unfold Verification.verdict
      rw [hresolution]
    simp only [hnone, reduceCtorEq, decide_false, List.countP_false, hresolution, forall_const]
    rw [eq_comm]
    exact List.length_eq_zero_iff
  · obtain ⟨f, hf⟩ := verdict_of_resolved hresolution
    simp only [hf, Option.some.injEq]
    exact iff_of_true (countP_verdicts f v.callSites) fun h => absurd h hresolution

end Counting

section Trees

variable {v}

theorem spelledList_of_within {tree : Tree alphabet} {parameters : Node}
    (h : tree.rootNode.Within parameters) : SpelledList alphabet parameters where
  own := tree.spelled parameters h
  each parameter hmem := by
    have hnamed := (List.mem_filter.mp hmem).1
    exact tree.spelled parameter (h.child (List.mem_filter.mp hnamed).1)

theorem spelledList_of_mem_targetLists {parameters : Node} (h : parameters ∈ v.targetLists) :
    SpelledList alphabet parameters := by
  unfold targetLists at h
  split at h
  · cases h
  · rename_i tree _
    obtain ⟨declaration, hdeclaration, hchild⟩ := List.mem_filterMap.mp h
    obtain ⟨found, hfound, rfl⟩ := List.mem_map.mp hdeclaration
    have hcollected := (List.mem_filter.mp (List.mem_filter.mp hfound).1).1
    exact spelledList_of_within
      (Node.within_of_childByFieldName (Node.within_of_mem_collectKind _ hcollected) hchild)

theorem argumentCount_le {site : Node} (h : site ∈ v.callSites) :
    argumentCount site ≤ site.namedChildCount := by
  obtain ⟨tree?, -, hsite⟩ := List.mem_flatMap.mp h
  cases tree? with
  | none => cases hsite
  | some tree =>
      obtain ⟨found, hfound, hchild⟩ := List.mem_filterMap.mp hsite
      have hwithin := Node.within_of_childByFieldName
        (Node.within_of_mem_collectKind _ (List.mem_filter.mp hfound).1) hchild
      unfold argumentCount Node.namedChildCount Node.namedChildren
      rw [← List.countP_eq_length_filter, ← List.countP_eq_length_filter]
      apply List.countP_mono_left
      intro child hmem hkind
      exact (tree.spelled child (hwithin.child hmem)).argument (of_decide_eq_true hkind)

/-- The one target of a resolution is the first selected declaration. -/
theorem resolution_single {target : ArityShape} {sameShapeAmbiguity : Bool}
    (h : v.resolution = .single target sameShapeAmbiguity) :
    ∃ declaration rest, v.selectedLists = declaration :: rest ∧
      target = arityOf alphabet declaration ∧
      sameShapeAmbiguity = (!rest.isEmpty || 1 < v.targetLists.countP fun other =>
        aritiesOverlap (arityOf alphabet declaration) (arityOf alphabet other)) := by
  unfold resolution resolveTarget at h
  rw [List.filter_map] at h
  unfold selectedLists
  cases hselected : v.targetLists.filter fun parameters =>
      v.selector.selects (arityOf alphabet parameters) with
  | nil =>
      exfalso
      have hnil : v.targetLists.filter (v.selector.selects ∘ arityOf alphabet) = [] := hselected
      rw [hnil] at h
      cases h
  | cons declaration rest =>
      have hcons : v.targetLists.filter (v.selector.selects ∘ arityOf alphabet) =
        declaration :: rest := hselected
      rw [hcons] at h
      simp only [List.map_cons] at h
      split at h
      · cases h
      · refine ⟨declaration, rest, rfl, ?_⟩
        rw [List.countP_map] at h
        cases h
        refine ⟨rfl, ?_⟩
        congr 1
        cases rest <;> simp

end Trees

section Sites

variable {v} {declaration site : Node}

/-- The declaration allows the call, but more stands in its argument list than the texts of the
parameters leave room for: a receiver passed as an argument, or a comment. -/
def Overlooks (alphabet : Alphabet) (declaration site : Node) : Prop :=
  mentionsParams alphabet declaration = false ∧
    explicitParameters alphabet declaration < site.namedChildCount ∧
      LegalCount declaration (argumentCount site)

/-- What makes a match at a call site right: arguments only, a receiver where one seems to be, and
no other extension method that would have its receiver among the arguments. -/
structure Matches (v : Verification alphabet) (declaration site : Node) : Prop where
  plain : argumentCount site = site.namedChildCount
  receiver : mentionsReceiver alphabet declaration = true → isExtension declaration = true
  alone : ∀ other ∈ v.targetLists, mentionsReceiver alphabet other = true →
    mentionsParams alphabet other = false →
      (parameterNodes other).length ≠ argumentCount site

theorem accepts_iff (observed : Nat) : (arityOf alphabet declaration).accepts observed = true ↔
    explicitParameters alphabet declaration - mentionsDefault declaration ≤ observed ∧
      (mentionsParams alphabet declaration = false →
        observed ≤ explicitParameters alphabet declaration) := by
  rw [arityOf_eq, ArityShape.accepts]
  cases mentionsParams alphabet declaration <;> simp

/-- The texts turn down a legal call only where they leave no room for what stands in its list. -/
theorem overlooks_iff (hspelled : SpelledList alphabet declaration)
    (hplain : argumentCount site ≤ site.namedChildCount) :
    (arityOf alphabet declaration).accepts site.namedChildCount = false ∧
      LegalCount declaration (argumentCount site) ↔ Overlooks alphabet declaration site := by
  rw [← Bool.not_eq_true, accepts_iff]
  constructor
  · rintro ⟨hrefused, hlegal⟩
    have hminimum := hlegal.minimum_le hspelled
    have hroom : ¬ (mentionsParams alphabet declaration = false →
        site.namedChildCount ≤ explicitParameters alphabet declaration) := fun hroom =>
      hrefused ⟨hminimum.trans hplain, hroom⟩
    obtain ⟨hparams, hmore⟩ := Classical.not_imp.mp hroom
    exact ⟨hparams, Nat.lt_of_not_le hmore, hlegal⟩
  · rintro ⟨hparams, hmore, hlegal⟩
    exact ⟨fun hboth => absurd (hboth.2 hparams) (Nat.not_le.mpr hmore), hlegal⟩

/-- A match is on a single number, the one the texts leave. -/
theorem judge_verified_iff {sameShapeAmbiguity : Bool} {observed : Nat} :
    judge (arityOf alphabet declaration) sameShapeAmbiguity observed = .verified ↔
      mentionsDefault declaration = 0 ∧ mentionsParams alphabet declaration = false ∧
        sameShapeAmbiguity = false ∧ observed = explicitParameters alphabet declaration := by
  have hflexible : (arityOf alphabet declaration).flexible = false ↔
      mentionsDefault declaration = 0 ∧ mentionsParams alphabet declaration = false := by
    rw [arityOf_eq]
    simp
  have hverified : judge (arityOf alphabet declaration) sameShapeAmbiguity observed = .verified ↔
      (arityOf alphabet declaration).accepts observed = true ∧
        (arityOf alphabet declaration).flexible = false ∧ sameShapeAmbiguity = false := by
    unfold judge
    cases (arityOf alphabet declaration).accepts observed <;>
      cases (arityOf alphabet declaration).flexible <;> cases sameShapeAmbiguity <;> decide
  rw [hverified, hflexible, accepts_iff]
  constructor
  · rintro ⟨⟨hminimum, hmaximum⟩, ⟨hdefault, hparams⟩, hsame⟩
    have := hmaximum hparams
    exact ⟨hdefault, hparams, hsame, by omega⟩
  · rintro ⟨hdefault, hparams, hsame, hobserved⟩
    exact ⟨⟨by omega, fun _ => hobserved.le⟩, ⟨hdefault, hparams⟩, hsame⟩

/-- Two shapes overlap where the one is a single number the other takes in. -/
theorem aritiesOverlap_of_exact {other : Node} (hdefault : mentionsDefault declaration = 0)
    (hparams : mentionsParams alphabet declaration = false) :
    aritiesOverlap (arityOf alphabet declaration) (arityOf alphabet other) =
      (arityOf alphabet other).accepts (explicitParameters alphabet declaration) := by
  rw [Bool.eq_iff_iff, accepts_iff, arityOf_eq, arityOf_eq, aritiesOverlap, hdefault, hparams]
  cases mentionsParams alphabet other <;> simp

/-- Another declaration that the number does not fit allows the call only as an extension method
whose receiver is an argument. -/
theorem legalCount_iff_of_refused {other : Node} {count : Nat}
    (hspelled : SpelledList alphabet other)
    (hrefused : (arityOf alphabet other).accepts count = false) :
    LegalCount other count ↔ mentionsReceiver alphabet other = true ∧
      mentionsParams alphabet other = false ∧ (parameterNodes other).length = count := by
  rw [← Bool.not_eq_true, accepts_iff] at hrefused
  constructor
  · intro hlegal
    have hminimum := hlegal.minimum_le hspelled
    have hroom : ¬ (mentionsParams alphabet other = false →
        count ≤ explicitParameters alphabet other) := fun hroom => hrefused ⟨hminimum, hroom⟩
    obtain ⟨hparams, hmore⟩ := Classical.not_imp.mp hroom
    have hlength := hlegal.le_length hspelled hparams
    unfold explicitParameters at hmore
    cases hreceiver : mentionsReceiver alphabet other with
    | false =>
        rw [hreceiver, Bool.toNat_false] at hmore
        omega
    | true =>
        rw [hreceiver, Bool.toNat_true] at hmore
        exact ⟨rfl, hparams, by omega⟩
  · rintro ⟨-, -, rfl⟩
    exact legalCount_length other

theorem length_pos_of_mentionsReceiver (h : mentionsReceiver alphabet declaration = true) :
    0 < (parameterNodes declaration).length := by
  unfold mentionsReceiver at h
  cases hnodes : parameterNodes declaration with
  | nil =>
      rw [hnodes] at h
      cases h
  | cons first rest => exact Nat.succ_pos _

/-- Where one declaration is selected, takes a single number and overlaps no other, a site with
that number is a match exactly if the declaration alone allows the call. -/
theorem matches_iff (hsite : site ∈ v.callSites) (hselected : v.selectedLists = [declaration])
    (hdefault : mentionsDefault declaration = 0)
    (hparams : mentionsParams alphabet declaration = false)
    (hunique : v.targetLists.countP (fun other =>
      aritiesOverlap (arityOf alphabet declaration) (arityOf alphabet other)) ≤ 1)
    (hobserved : site.namedChildCount = explicitParameters alphabet declaration) :
    Matches v declaration site ↔
      v.targetLists.filter (LegalCount · (argumentCount site)) = [declaration] := by
  have hmem : declaration ∈ v.targetLists :=
    (List.mem_filter.mp (hselected ▸ List.mem_singleton.mpr rfl :
      declaration ∈ v.selectedLists)).1
  have hspelled := spelledList_of_mem_targetLists hmem
  have hexact := legalCount_iff_of_exact (argumentCount site) hspelled hdefault hparams
  constructor
  · intro hmatches
    have hcount := hmatches.plain.trans hobserved
    have hlegal : LegalCount declaration (argumentCount site) := by
      rw [hexact, hcount]
      unfold explicitParameters
      cases hreceiver : mentionsReceiver alphabet declaration with
      | false => exact .inl (Nat.sub_zero _)
      | true =>
          have hpos := length_pos_of_mentionsReceiver hreceiver
          exact .inr ⟨hmatches.receiver hreceiver, by rw [Bool.toNat_true]; omega⟩
    have hoverlaps : ∀ other ∈ v.targetLists, LegalCount other (argumentCount site) →
        aritiesOverlap (arityOf alphabet declaration) (arityOf alphabet other) = true := by
      intro other hother hlegal
      rw [aritiesOverlap_of_exact hdefault hparams, ← hcount]
      by_contra hrefused
      obtain ⟨hreceiver, hno, hlength⟩ :=
        (legalCount_iff_of_refused (spelledList_of_mem_targetLists hother)
          (Bool.eq_false_iff.mpr hrefused)).mp hlegal
      exact hmatches.alone other hother hreceiver hno hlength
    apply Lists.eq_singleton_of_length_le_one
    · exact List.mem_filter.mpr ⟨hmem, decide_eq_true hlegal⟩
    · rw [← List.countP_eq_length_filter]
      refine le_trans ?_ hunique
      apply List.countP_mono_left
      intro other hother hlegal
      exact hoverlaps other hother (of_decide_eq_true hlegal)
  · intro hfilter
    have honly : ∀ other ∈ v.targetLists, LegalCount other (argumentCount site) →
        other = declaration := by
      intro other hother hlegal
      have hmem : other ∈ v.targetLists.filter (LegalCount · (argumentCount site)) :=
        List.mem_filter.mpr ⟨hother, decide_eq_true hlegal⟩
      rw [hfilter] at hmem
      exact List.mem_singleton.mp hmem
    have hlegal : LegalCount declaration (argumentCount site) := by
      have hmem : declaration ∈ v.targetLists.filter (LegalCount · (argumentCount site)) := by
        rw [hfilter]
        exact List.mem_singleton.mpr rfl
      exact of_decide_eq_true (List.mem_filter.mp hmem).2
    have hle := argumentCount_le hsite
    have hreceiver : mentionsReceiver alphabet declaration = true →
        isExtension declaration = true ∧
          argumentCount site + 1 = (parameterNodes declaration).length := by
      intro hreceiver
      have hpos := length_pos_of_mentionsReceiver hreceiver
      unfold explicitParameters at hobserved
      rw [hreceiver, Bool.toNat_true] at hobserved
      obtain hall | hbut := hexact.mp hlegal
      · omega
      · exact hbut
    have hcount : argumentCount site = explicitParameters alphabet declaration := by
      unfold explicitParameters
      cases hmentions : mentionsReceiver alphabet declaration with
      | true =>
          have := (hreceiver hmentions).2
          rw [Bool.toNat_true]
          omega
      | false =>
          rw [Bool.toNat_false]
          obtain hall | ⟨hextension, -⟩ := hexact.mp hlegal
          · exact hall
          · rw [mentionsReceiver_of_isExtension hspelled hextension] at hmentions
            cases hmentions
    refine ⟨hcount.trans hobserved.symm, fun h => (hreceiver h).1, ?_⟩
    intro other hother hmentions _ hlength
    have hself := honly other hother (hlength ▸ legalCount_length other)
    rw [hself] at hmentions hlength
    have := (hreceiver hmentions).2
    omega

end Sites

/-- What a verdict needs at one call site: room in the texts for a legal call of the target, no
other selected declaration that allows what the target refuses, and a match that is right. -/
structure SiteWellJudged (v : Verification alphabet) (sameShapeAmbiguity : Bool)
    (declaration : Node) (rest : List Node) (site : Node) : Prop where
  room : ¬ Overlooks alphabet declaration site
  others : ∀ other ∈ rest, (arityOf alphabet declaration).accepts site.namedChildCount = false →
    ¬ LegalCount other (argumentCount site)
  exact : mentionsDefault declaration = 0 → mentionsParams alphabet declaration = false →
    sameShapeAmbiguity = false →
      site.namedChildCount = explicitParameters alphabet declaration → Matches v declaration site

structure WellJudged : Prop where
  resolved : v.resolution = .unverifiable → v.callSites = []
  sites : ∀ target sameShapeAmbiguity, v.resolution = .single target sameShapeAmbiguity →
    ∀ declaration rest, v.selectedLists = declaration :: rest →
      ∀ site ∈ v.callSites, SiteWellJudged v sameShapeAmbiguity declaration rest site

theorem judge_rejected_iff {declaration : Node} {sameShapeAmbiguity : Bool} {observed : Nat} :
    judge (arityOf alphabet declaration) sameShapeAmbiguity observed = .rejected ↔
      (arityOf alphabet declaration).accepts observed = false := by
  unfold judge
  cases (arityOf alphabet declaration).accepts observed <;>
    cases (arityOf alphabet declaration).flexible <;> cases sameShapeAmbiguity <;> decide

variable {v} in
theorem verdict_of_single {sameShapeAmbiguity : Bool} {declaration : Node}
    (h : v.resolution = .single (arityOf alphabet declaration) sameShapeAmbiguity) (site : Node) :
    v.verdict site =
      some (judge (arityOf alphabet declaration) sameShapeAmbiguity site.namedChildCount) := by
  unfold Verification.verdict
  rw [h]

variable {v} in
/-- The verdicts on one call site are sound exactly if it is well judged. -/
theorem siteWellJudged_iff {site declaration : Node} {rest : List Node} {sameShapeAmbiguity : Bool}
    (hsite : site ∈ v.callSites) (hselected : v.selectedLists = declaration :: rest)
    (hsame : sameShapeAmbiguity = (!rest.isEmpty || 1 < v.targetLists.countP fun other =>
      aritiesOverlap (arityOf alphabet declaration) (arityOf alphabet other))) :
    SiteWellJudged v sameShapeAmbiguity declaration rest site ↔
      (judge (arityOf alphabet declaration) sameShapeAmbiguity site.namedChildCount = .verified →
        ∃ only, v.selectedLists = [only] ∧
          v.targetLists.filter (LegalCount · (argumentCount site)) = [only]) ∧
      (judge (arityOf alphabet declaration) sameShapeAmbiguity site.namedChildCount = .rejected →
        ∀ other ∈ v.selectedLists, ¬ LegalCount other (argumentCount site)) := by
  have hmem : declaration ∈ v.targetLists :=
    (List.mem_filter.mp (hselected ▸ List.mem_cons_self : declaration ∈ v.selectedLists)).1
  have hspelled := spelledList_of_mem_targetLists hmem
  have hle := argumentCount_le hsite
  have halone : sameShapeAmbiguity = false → rest = [] ∧ v.targetLists.countP (fun other =>
      aritiesOverlap (arityOf alphabet declaration) (arityOf alphabet other)) ≤ 1 := by
    intro hfalse
    rw [hfalse, eq_comm, Bool.or_eq_false_iff, Bool.not_eq_false', List.isEmpty_iff,
      decide_eq_false_iff_not, Nat.not_lt] at hsame
    exact hsame
  rw [judge_verified_iff, judge_rejected_iff, hselected]
  constructor
  · intro hjudged
    constructor
    · rintro ⟨hdefault, hparams, hfalse, hobserved⟩
      obtain ⟨rfl, hunique⟩ := halone hfalse
      exact ⟨declaration, rfl, (matches_iff hsite hselected hdefault hparams hunique hobserved).mp
        (hjudged.exact hdefault hparams hfalse hobserved)⟩
    · intro hrefused other hother hlegal
      obtain rfl | hrest := List.mem_cons.mp hother
      · exact hjudged.room ((overlooks_iff hspelled hle).mp ⟨hrefused, hlegal⟩)
      · exact hjudged.others other hrest hrefused hlegal
  · rintro ⟨hverified, hrejected⟩
    refine ⟨?_, ?_, ?_⟩
    · intro hoverlooks
      obtain ⟨hrefused, hlegal⟩ := (overlooks_iff hspelled hle).mpr hoverlooks
      exact hrejected hrefused declaration List.mem_cons_self hlegal
    · intro other hother hrefused
      exact hrejected hrefused other (List.mem_cons_of_mem _ hother)
    · intro hdefault hparams hfalse hobserved
      obtain ⟨rfl, hunique⟩ := halone hfalse
      obtain ⟨only, honly, hfilter⟩ := hverified ⟨hdefault, hparams, hfalse, hobserved⟩
      rw [← (List.cons.inj honly).1] at hfilter
      exact (matches_iff hsite hselected hdefault hparams hunique hobserved).mpr hfilter

/-- Verification accounts for every call site and is sound exactly if the target is resolved, or
nothing calls it, and every call site is well judged. -/
theorem accountsAndSound_iff (v : Verification alphabet) : v.AccountsAndSound ↔ v.WellJudged := by
  constructor
  · intro h
    refine ⟨v.accounted_iff.mp h.accounted, ?_⟩
    intro target sameShapeAmbiguity hresolution declaration rest hselected site hsite
    obtain ⟨declaration', rest', hselected', rfl, hsame⟩ := resolution_single hresolution
    rw [hselected] at hselected'
    cases hselected'
    have hverdict := verdict_of_single hresolution site
    refine (siteWellJudged_iff hsite hselected hsame).mpr ⟨?_, ?_⟩
    · intro hjudge
      exact h.verified site hsite (hverdict.trans (congrArg some hjudge))
    · intro hjudge
      exact h.rejected site hsite (hverdict.trans (congrArg some hjudge))
  · intro h
    have hsingle : ∀ site ∈ v.callSites, ∀ verdict, v.verdict site = some verdict →
        verdict = .ambiguous ∨ ∃ declaration rest sameShapeAmbiguity,
          v.selectedLists = declaration :: rest ∧
          sameShapeAmbiguity = (!rest.isEmpty || 1 < v.targetLists.countP fun other =>
            aritiesOverlap (arityOf alphabet declaration) (arityOf alphabet other)) ∧
          judge (arityOf alphabet declaration) sameShapeAmbiguity site.namedChildCount = verdict ∧
          SiteWellJudged v sameShapeAmbiguity declaration rest site := by
      intro site hsite verdict hverdict
      cases hresolution : v.resolution with
      | unverifiable =>
          rw [h.resolved hresolution] at hsite
          cases hsite
      | several =>
          unfold Verification.verdict at hverdict
          rw [hresolution] at hverdict
          exact .inl (Option.some.inj hverdict).symm
      | single target sameShapeAmbiguity =>
          obtain ⟨declaration, rest, hselected, rfl, hsame⟩ := resolution_single hresolution
          rw [verdict_of_single hresolution] at hverdict
          exact .inr ⟨declaration, rest, sameShapeAmbiguity, hselected, hsame,
            Option.some.inj hverdict, h.sites _ _ hresolution declaration rest hselected site hsite⟩
    refine ⟨v.summary_count, v.accounted_iff.mpr h.resolved, ?_, ?_⟩
    · intro site hsite hverdict
      obtain hambiguous | ⟨declaration, rest, same, hselected, hsame, hjudge, hjudged⟩ :=
        hsingle site hsite .verified hverdict
      · cases hambiguous
      · exact ((siteWellJudged_iff hsite hselected hsame).mp hjudged).1 hjudge
    · intro site hsite hverdict
      obtain hambiguous | ⟨declaration, rest, same, hselected, hsame, hjudge, hjudged⟩ :=
        hsingle site hsite .rejected hverdict
      · cases hambiguous
      · exact ((siteWellJudged_iff hsite hselected hsame).mp hjudged).2 hjudge

end Verification

section StaticCall

def asciiLetters : Alphabet := .ofAscii

def spelledCheck (node : Node) : Bool :=
  (!isReceiver node || hasWord asciiLetters node.text "this") &&
    (!hasDefault node || node.text.toList.contains '=') &&
      (!hasParamsArray node || hasWord asciiLetters node.text "params") &&
        (node.kind ≠ "argument" || node.named)

theorem spelled_of_check {node : Node} (h : spelledCheck node = true) :
    Spelled asciiLetters node := by
  simp only [spelledCheck, Bool.and_eq_true, Bool.or_eq_true, Bool.not_eq_true',
    decide_eq_true_eq] at h
  obtain ⟨⟨⟨hreceiver, hdefault⟩, hparams⟩, hargument⟩ := h
  refine ⟨fun h => ?_, fun h => ?_, fun h => ?_, fun h => ?_⟩
  · exact hreceiver.resolve_left (by rw [h]; exact Bool.noConfusion)
  · exact List.contains_iff_mem.mp (hdefault.resolve_left (by rw [h]; exact Bool.noConfusion))
  · exact hparams.resolve_left (by rw [h]; exact Bool.noConfusion)
  · exact hargument.resolve_left (not_not.mpr h)

def token (text : String) : Node := .mk text false none text []

def leaf (kind : String) (field : Option String) (text : String) : Node :=
  .mk kind true field text []

/-- `static class E { static void Foo(this T t, int x) {} }` -/
def extensionRoot : Node :=
  .mk "compilation_unit" true none
    "static class E \x7b static void Foo(this T t, int x) \x7b\x7d \x7d"
    [.mk "class_declaration" true none
      "static class E \x7b static void Foo(this T t, int x) \x7b\x7d \x7d"
      [leaf "modifier" none "static", token "class", leaf "identifier" (some "name") "E",
        .mk "declaration_list" true (some "body")
          "\x7b static void Foo(this T t, int x) \x7b\x7d \x7d"
          [token "\x7b",
            .mk "method_declaration" true none "static void Foo(this T t, int x) \x7b\x7d"
              [leaf "modifier" none "static", leaf "predefined_type" (some "returns") "void",
                leaf "identifier" (some "name") "Foo",
                .mk "parameter_list" true (some "parameters") "(this T t, int x)"
                  [token "(",
                    .mk "parameter" true none "this T t"
                      [leaf "modifier" none "this", leaf "identifier" (some "type") "T",
                        leaf "identifier" (some "name") "t"],
                    token ",",
                    .mk "parameter" true none "int x"
                      [leaf "predefined_type" (some "type") "int",
                        leaf "identifier" (some "name") "x"],
                    token ")"],
                leaf "block" (some "body") "\x7b\x7d"],
            token "\x7d"]]]

/-- `E.Foo(t, 1);` -/
def staticCallRoot : Node :=
  .mk "compilation_unit" true none "E.Foo(t, 1);"
    [.mk "global_statement" true none "E.Foo(t, 1);"
      [.mk "expression_statement" true none "E.Foo(t, 1);"
        [.mk "invocation_expression" true none "E.Foo(t, 1)"
          [.mk "member_access_expression" true (some "function") "E.Foo"
              [leaf "identifier" (some "expression") "E", token ".",
                leaf "identifier" (some "name") "Foo"],
            .mk "argument_list" true (some "arguments") "(t, 1)"
              [token "(", .mk "argument" true none "t" [leaf "identifier" none "t"], token ",",
                .mk "argument" true none "1" [leaf "integer_literal" none "1"], token ")"]],
          token ";"]]]

def extensionTree : Tree asciiLetters where
  rootNode := extensionRoot
  spelled _ hwithin := spelled_of_check (Node.everywhere_within (by decide +kernel) hwithin)

def staticCallTree : Tree asciiLetters where
  rootNode := staticCallRoot
  spelled _ hwithin := spelled_of_check (Node.everywhere_within (by decide +kernel) hwithin)

def staticCall : Verification asciiLetters where
  parseTree source :=
    if source = extensionRoot.text then some extensionTree
    else if source = staticCallRoot.text then some staticCallTree
    else none
  targetSource := extensionRoot.text
  targetKey := "E.cs"
  selector := { qualifiedName := "E.Foo", declaredArity := none }
  candidates := [{ file := "Use.cs", resolvedFile := "Use.cs", text := staticCallRoot.text }]
  memo := .new

/-- The call passes the receiver as an argument and is turned down. -/
theorem not_accountsAndSound_staticCall : ¬ staticCall.AccountsAndSound := by
  have hturned : (staticCall.callSites.any fun site =>
      staticCall.verdict site = some .rejected && staticCall.selectedLists.any fun declaration =>
        LegalCount declaration (argumentCount site)) = true := by decide +kernel
  intro h
  obtain ⟨site, hsite, hboth⟩ := List.any_eq_true.mp hturned
  rw [Bool.and_eq_true, decide_eq_true_eq, List.any_eq_true] at hboth
  obtain ⟨hverdict, declaration, hdeclaration, hlegal⟩ := hboth
  exact h.rejected site hsite hverdict declaration hdeclaration (of_decide_eq_true hlegal)

end StaticCall

end Cbm
end CleanCtx
