import CleanCtx.Mcp.Hydration

/-!
What a completed hydration has covered. A project whose search succeeds counts as searched
whatever its readiness, so its root is not scanned; and what the index already has is not
compiled again for an edit query, as it now is or not. A completed report, and each scope that
is marked complete, tells the truth unless one of the two hides something.
-/
namespace CleanCtx
namespace Mcp
namespace HydrationWorld

section Sweep

variable (w : HydrationWorld) (isComplete : DiscoveryScope → Bool)

def cbmScope (p : HydrationProject) : DiscoveryScope := ⟨.cbm, w.rootKey p.root⟩

def filesystemScope (root : String) : DiscoveryScope := ⟨.filesystem, w.rootKey root⟩

def searchedNow (p : HydrationProject) : Bool :=
  !isComplete (w.cbmScope p) && (p.available && p.search.isSome)

def searched (p : HydrationProject) : Bool :=
  isComplete (w.cbmScope p) || w.searchedNow isComplete p

def readyNow (p : HydrationProject) : Bool :=
  w.searchedNow isComplete p && decide (p.readiness = .ready)

def projectCandidates (p : HydrationProject) : List String :=
  if w.searchedNow isComplete p then w.appendRootedPaths p.root (p.search.getD []) else []

/-- What a loop over some projects adds to what is gathered. -/
structure Gathers (projects : List HydrationProject) (s s' : ProjectSweep) : Prop where
  candidates : s'.candidates = s.candidates ++ projects.flatMap (w.projectCandidates isComplete)
  fallbackRoots : s'.fallbackRoots =
    s.fallbackRoots ++ (projects.filter (!w.searched isComplete ·)).map (·.root)
  completions : s'.completions =
    s.completions ++ (projects.filter (w.readyNow isComplete)).map w.cbmScope
  successfulRoots : ∀ key, key ∈ s'.successfulRoots ↔ key ∈ s.successfulRoots ∨
    ∃ p ∈ projects, w.searched isComplete p = true ∧ w.rootKey p.root = key

variable {w isComplete} {s s' s'' : ProjectSweep} {p : HydrationProject}
  {projects rest : List HydrationProject}

theorem Gathers.nil : w.Gathers isComplete [] s s where
  candidates := by simp
  fallbackRoots := by simp
  completions := by simp
  successfulRoots := by simp

theorem Gathers.append (h : w.Gathers isComplete projects s s')
    (hrest : w.Gathers isComplete rest s' s'') :
    w.Gathers isComplete (projects ++ rest) s s'' where
  candidates := by simp [hrest.candidates, h.candidates]
  fallbackRoots := by simp [hrest.fallbackRoots, h.fallbackRoots]
  completions := by simp [hrest.completions, h.completions]
  successfulRoots key := by
    rw [hrest.successfulRoots, h.successfulRoots]
    simp only [List.mem_append, or_and_right, exists_or, or_assoc]

/-- A project that is searched, now or before. -/
theorem Gathers.of_searched (hsearched : w.searched isComplete p = true)
    (hcandidates : s'.candidates = s.candidates ++ w.projectCandidates isComplete p)
    (hfallback : s'.fallbackRoots = s.fallbackRoots)
    (hcompletions : s'.completions =
      s.completions ++ if w.readyNow isComplete p then [w.cbmScope p] else [])
    (hsuccessful : s'.successfulRoots = w.rootKey p.root :: s.successfulRoots) :
    w.Gathers isComplete [p] s s' where
  candidates := by simp [hcandidates]
  fallbackRoots := by simp [hfallback, hsearched]
  completions := by
    rw [hcompletions]
    cases hready : w.readyNow isComplete p <;> simp [hready]
  successfulRoots key := by
    rw [hsuccessful, List.mem_cons, or_comm, eq_comm]
    simp [hsearched]

/-- A project that is left to the filesystem. -/
theorem Gathers.of_not_searched (hsearched : w.searched isComplete p = false)
    (hcandidates : s'.candidates = s.candidates)
    (hfallback : s'.fallbackRoots = s.fallbackRoots ++ [p.root])
    (hcompletions : s'.completions = s.completions)
    (hsuccessful : s'.successfulRoots = s.successfulRoots) :
    w.Gathers isComplete [p] s s' := by
  have hnow : w.searchedNow isComplete p = false := (Bool.or_eq_false_iff.mp hsearched).2
  have hready : w.readyNow isComplete p = false := by simp [readyNow, hnow]
  constructor
  · simp [hcandidates, projectCandidates, hnow]
  · simp [hfallback, hsearched]
  · simp [hcompletions, hready]
  · simp [hsuccessful, hsearched]

theorem gathers_sweepProject (s : ProjectSweep) (p : HydrationProject) :
    w.Gathers isComplete [p] s (w.sweepProject isComplete s p) := by
  unfold sweepProject
  by_cases hcomplete : isComplete (w.cbmScope p) = true
  · have hnow : w.searchedNow isComplete p = false := by simp [searchedNow, hcomplete]
    simp only [show isComplete ⟨.cbm, w.rootKey p.root⟩ = true from hcomplete, if_true]
    refine .of_searched (by simp [searched, hcomplete]) ?_ rfl ?_ rfl
    · simp [projectCandidates, hnow]
    · simp [readyNow, hnow]
  · simp only [show ¬ isComplete ⟨.cbm, w.rootKey p.root⟩ = true from hcomplete]
    cases havailable : p.available with
    | false =>
        refine .of_not_searched ?_ rfl rfl rfl rfl
        simp [searched, searchedNow, hcomplete, havailable]
    | true =>
        cases hsearch : p.search with
        | none =>
            refine .of_not_searched ?_ rfl rfl rfl rfl
            simp [searched, searchedNow, hcomplete, hsearch]
        | some paths =>
            have hnow : w.searchedNow isComplete p = true := by
              simp [searchedNow, hcomplete, havailable, hsearch]
            refine .of_searched (by simp [searched, hnow]) ?_ rfl ?_ rfl
            · simp [projectCandidates, hnow, hsearch]
            · by_cases hready : p.readiness = .ready
              · simp [readyNow, hnow, hready, cbmScope]
              · simp [readyNow, hnow, hready]

variable (w isComplete) in
theorem gathers_foldl (projects : List HydrationProject) (s : ProjectSweep) :
    w.Gathers isComplete projects s (projects.foldl (w.sweepProject isComplete) s) := by
  induction projects generalizing s with
  | nil => exact .nil
  | cons p rest ih => exact (gathers_sweepProject s p).append (ih _)

end Sweep

section Roots

variable (w : HydrationWorld) (isComplete : DiscoveryScope → Bool)

def unsearched (projects : List HydrationProject) (root : String) : Bool :=
  !projects.any fun p => w.searched isComplete p && decide (w.rootKey p.root = w.rootKey root)

/-- The roots for which neither a project nor the discovery cache stands. -/
def leftToScan : List String :=
  (match w.bridge with
    | none => w.configuredRoots
    | some projects =>
        w.deduplicateRoots (w.unregistered projects ++
          (projects.filter (!w.searched isComplete ·)).map HydrationProject.root ++
          w.configuredRoots.filter (w.unsearched isComplete projects))).filter
    fun root => !isComplete (w.filesystemScope root)

def projects : List HydrationProject := w.bridge.getD []

def found (queryName : String) : List String :=
  w.projects.flatMap (w.projectCandidates isComplete) ++
    (w.scan (w.leftToScan isComplete) queryName).candidates

/-- Every entry below the root is read, and so is the source of every file. -/
def FullyScanned (root : String) : Prop :=
  ∃ entries, w.walk root = some entries ∧
    ∀ entry ∈ entries, ∃ path, entry = some path ∧ (w.readSource path).isSome = true

def AllScanned : Prop := ∀ root ∈ w.leftToScan isComplete, w.FullyScanned root

variable {w isComplete}

/-- Each key keeps an element. -/
theorem exists_firstOfKeys {α κ : Type} [DecidableEq κ] (key : α → κ) {a : α} {l : List α}
    (ha : a ∈ l) :
    ∀ seen : List κ, key a ∉ seen → ∃ b ∈ firstOfKeys key seen l, key b = key a := by
  induction l with
  | nil => exact absurd ha List.not_mem_nil
  | cons c rest ih =>
      intro seen hseen
      unfold firstOfKeys
      by_cases hkey : key a = key c
      · rw [if_neg (hkey ▸ hseen)]
        exact ⟨c, List.mem_cons_self, hkey.symm⟩
      · have hrest : a ∈ rest :=
          (List.mem_cons.mp ha).resolve_left fun heq => hkey (congrArg key heq)
        split
        · exact ih hrest seen hseen
        · obtain ⟨b, hb, heq⟩ := ih hrest (key c :: seen) (by simp [hkey, hseen])
          exact ⟨b, List.mem_cons_of_mem c hb, heq⟩

variable (w) in
theorem exists_deduplicateRoots {root : String} {roots : List String} (h : root ∈ roots) :
    ∃ kept ∈ w.deduplicateRoots roots, w.rootKey kept = w.rootKey root := by
  obtain ⟨kept, hkept, heq⟩ := exists_firstOfKeys w.rootKey h [] List.not_mem_nil
  exact ⟨kept, List.mem_mergeSort.mpr hkept, heq⟩

variable (w isComplete) in
theorem gathers_sweep (projects : List HydrationProject) :
    (w.sweep isComplete projects).candidates = projects.flatMap (w.projectCandidates isComplete) ∧
    (w.sweep isComplete projects).fallbackRoots = w.unregistered projects ++
      (projects.filter (!w.searched isComplete ·)).map (·.root) ∧
    (w.sweep isComplete projects).completions =
      (projects.filter (w.readyNow isComplete)).map w.cbmScope ∧
    ∀ key, key ∈ (w.sweep isComplete projects).successfulRoots ↔
      ∃ p ∈ projects, w.searched isComplete p = true ∧ w.rootKey p.root = key := by
  have h := gathers_foldl w isComplete projects
    { candidates := []
      coverage := (w.unregistered projects).map fun root =>
        ⟨w.resolveProjectId root, .skipped, none, some .additionalRootNotRegistered⟩
      successfulRoots := []
      fallbackRoots := w.unregistered projects
      cbmAttempted := false
      sawUnavailable := false
      sawSearchFailure := false
      completions := [] }
  refine ⟨h.candidates, h.fallbackRoots, h.completions, fun key => ?_⟩
  exact (h.successfulRoots key).trans (or_iff_right List.not_mem_nil)

variable (isComplete) in
/-- The code scans exactly these roots. -/
theorem pendingDiscoveryRoots_fallbackRoots {projects : List HydrationProject}
    (h : w.bridge = some projects) :
    (w.pendingDiscoveryRoots isComplete (w.fallbackRoots isComplete projects)).1 =
      w.leftToScan isComplete := by
  obtain ⟨-, hfallback, -, hsuccessful⟩ := gathers_sweep w isComplete projects
  have hunsearched : ∀ root, decide (w.rootKey root ∉
      (w.sweep isComplete projects).successfulRoots) = w.unsearched isComplete projects root := by
    intro root
    apply Bool.eq_iff_iff.mpr
    simp [unsearched, hsuccessful]
  simp only [pendingDiscoveryRoots, fallbackRoots, leftToScan, h, hfallback, hunsearched]
  rfl

theorem mem_sourcePaths {roots : List String} {path : String} :
    path ∈ w.sourcePaths roots ↔
      ∃ root ∈ roots, ∃ entries, w.walk root = some entries ∧ some path ∈ entries := by
  simp only [sourcePaths, List.mem_dedup, List.mem_mergeSort, List.mem_filterMap, id_eq,
    exists_eq_right, List.mem_flatten]
  constructor
  · rintro ⟨entries, ⟨root, hroot, hwalk⟩, hpath⟩
    exact ⟨root, hroot, entries, hwalk, hpath⟩
  · rintro ⟨root, hroot, entries, hwalk, hpath⟩
    exact ⟨entries, ⟨root, hroot, hwalk⟩, hpath⟩

theorem completed_scan {roots : List String} (hne : roots ≠ []) (queryName : String) :
    (w.scan roots queryName).completed = true ↔ ∀ root ∈ roots, w.FullyScanned root := by
  change (roots.any _ && (roots.all _ && (w.sourcePaths roots).all _)) = true ↔ _
  rw [Bool.and_eq_true, Bool.and_eq_true, List.any_eq_true, List.all_eq_true, List.all_eq_true]
  constructor
  · rintro ⟨-, hwalked, hread⟩ root hroot
    obtain ⟨entries, hwalk, hentries⟩ := (Option.any_eq_true ..).mp (hwalked root hroot)
    refine ⟨entries, hwalk, fun entry hentry => ?_⟩
    obtain ⟨path, hpath⟩ := Option.isSome_iff_exists.mp (List.all_eq_true.mp hentries entry hentry)
    exact ⟨path, hpath,
      hread path (mem_sourcePaths.mpr ⟨root, hroot, entries, hwalk, hpath ▸ hentry⟩)⟩
  · intro hall
    refine ⟨?_, fun root hroot => ?_, fun path hpath => ?_⟩
    · obtain ⟨root, hroot⟩ := List.exists_mem_of_ne_nil roots hne
      obtain ⟨entries, hwalk, -⟩ := hall root hroot
      exact ⟨root, hroot, by rw [hwalk]; rfl⟩
    · obtain ⟨entries, hwalk, hentries⟩ := hall root hroot
      apply (Option.any_eq_true ..).mpr
      refine ⟨entries, hwalk, List.all_eq_true.mpr fun entry hentry => ?_⟩
      obtain ⟨path, rfl, -⟩ := hentries entry hentry
      rfl
    · obtain ⟨root, hroot, entries, hwalk, hentry⟩ := mem_sourcePaths.mp hpath
      obtain ⟨entries', hwalk', hentries⟩ := hall root hroot
      obtain rfl := Option.some.inj (hwalk.symm.trans hwalk')
      obtain ⟨path', heq, hread⟩ := hentries _ hentry
      obtain rfl := Option.some.inj heq
      exact hread

theorem candidates_scan_nil (queryName : String) : (w.scan [] queryName).candidates = [] := by
  simp [scan, sourcePaths]

variable (w) in
theorem configuredRoots_ne_nil : w.configuredRoots ≠ [] := by
  obtain ⟨kept, hkept, -⟩ := exists_deduplicateRoots w
    (List.mem_cons_self : w.workspaceRoot ∈ w.workspaceRoot :: w.additionalRoots)
  exact List.ne_nil_of_mem hkept

end Roots

section Outcome

variable {w : HydrationWorld} {isComplete : DiscoveryScope → Bool}

theorem discoveryStatus_eq_completed {attempted completed hasPartialCoverage : Bool} :
    discoveryStatus attempted completed hasPartialCoverage = .completed ↔ completed = true := by
  cases attempted <;> cases completed <;> cases hasPartialCoverage <;> simp [discoveryStatus]

variable (w isComplete) in
/-- The scan of the roots that are left, when there are any. -/
theorem allScanned_iff (queryName : String) :
    w.AllScanned isComplete ↔ w.leftToScan isComplete = [] ∨
      (w.scan (w.leftToScan isComplete) queryName).completed = true := by
  by_cases hnil : w.leftToScan isComplete = []
  · exact iff_of_true (fun root hroot => absurd (hnil ▸ hroot) List.not_mem_nil) (.inl hnil)
  · rw [completed_scan hnil, or_iff_right hnil]
    rfl

/-- What a discovery has found, whether it calls itself complete, and the scopes it completes. -/
structure Discovers (w : HydrationWorld) (isComplete : DiscoveryScope → Bool) (queryName : String)
    (outcome : DiscoveryOutcome) : Prop where
  candidates : outcome.candidates = w.found isComplete queryName
  status : outcome.status = .completed ↔ w.AllScanned isComplete
  completions : ∀ scope, scope ∈ outcome.completions ↔
    (∃ p ∈ w.projects, w.readyNow isComplete p = true ∧ w.cbmScope p = scope) ∨
    w.AllScanned isComplete ∧ ∃ root ∈ w.leftToScan isComplete, w.filesystemScope root = scope

theorem discovers_filesystemOnly (hbridge : w.bridge = none) (queryName : String) :
    w.Discovers isComplete queryName
      (w.filesystemOnlyDiscovery isComplete w.configuredRoots queryName) := by
  have hprojects : w.projects = [] := by rw [projects, hbridge]; rfl
  have hpending : (w.configuredRoots.filter fun root => !w.filesystemComplete isComplete root) =
      w.leftToScan isComplete := by rw [leftToScan, hbridge]; rfl
  simp only [filesystemOnlyDiscovery, pendingDiscoveryRoots, hpending]
  cases hnil : w.leftToScan isComplete with
  | nil =>
      have hcached : w.configuredRoots.countP (w.filesystemComplete isComplete) ≠ 0 := by
        intro hzero
        rw [hnil] at hpending
        have hnone := List.countP_eq_zero.mp hzero
        have hall := List.filter_eq_nil_iff.mp hpending
        obtain ⟨root, hroot⟩ := List.exists_mem_of_ne_nil _ w.configuredRoots_ne_nil
        exact hall root hroot (by simpa using hnone root hroot)
      have hall : w.AllScanned isComplete := by
        intro root hroot
        exact absurd (hnil ▸ hroot) List.not_mem_nil
      rw [if_pos List.isEmpty_nil, if_neg hcached]
      refine ⟨?_, iff_of_true rfl hall, fun scope => ?_⟩
      · simp [found, hprojects, hnil, candidates_scan_nil]
      · simp [hprojects, hnil]
  | cons root rest =>
      rw [if_neg (by simp), ← hnil]
      have hiff := (allScanned_iff w isComplete queryName).trans
        (or_iff_right (by simp [hnil]))
      refine ⟨?_, discoveryStatus_eq_completed.trans hiff.symm, fun scope => ?_⟩
      · simp [found, hprojects]
      · rw [hiff]
        cases (w.scan (w.leftToScan isComplete) queryName).completed with
        | false => simp [hprojects]
        | true => simp [hprojects, discoveryScopesForRoots, filesystemScope]

variable (w isComplete) in
theorem discovers_discoverCandidatePaths (queryName : String) :
    w.Discovers isComplete queryName (w.discoverCandidatePaths isComplete queryName) := by
  unfold discoverCandidatePaths
  cases hbridge : w.bridge with
  | none => exact discovers_filesystemOnly hbridge queryName
  | some projects =>
      have hprojects : w.projects = projects := by rw [HydrationWorld.projects, hbridge]; rfl
      obtain ⟨hcandidates, -, hcompletions, -⟩ := gathers_sweep w isComplete projects
      have hready : ∀ scope, scope ∈ (w.sweep isComplete projects).completions ↔
          ∃ p ∈ w.projects, w.readyNow isComplete p = true ∧ w.cbmScope p = scope := by
        intro scope
        simp [hcompletions, hprojects, and_assoc]
      have hpending := pendingDiscoveryRoots_fallbackRoots isComplete hbridge
      simp only
      rw [hpending]
      cases hnil : w.leftToScan isComplete with
      | nil =>
          have hall : w.AllScanned isComplete := by
            intro root hroot
            exact absurd (hnil ▸ hroot) List.not_mem_nil
          have hfound : w.found isComplete queryName =
              (w.sweep isComplete projects).candidates := by
            rw [found, hnil, candidates_scan_nil, List.append_nil, hcandidates, hprojects]
          rw [if_pos List.isEmpty_nil]
          split
          · refine ⟨hfound.symm, iff_of_true rfl hall, fun scope => ?_⟩
            simp [hready, hnil]
          · refine ⟨hfound.symm, iff_of_true rfl hall, fun scope => ?_⟩
            simp [hready, hnil]
      | cons root rest =>
          rw [if_neg (by simp), ← hnil]
          have hiff := (allScanned_iff w isComplete queryName).trans
            (or_iff_right (by simp [hnil]))
          refine ⟨?_, discoveryStatus_eq_completed.trans hiff.symm, fun scope => ?_⟩
          · rw [found, hprojects, ← hcandidates]
          · rw [hiff]
            cases (w.scan (w.leftToScan isComplete) queryName).completed with
            | false => simp [hready]
            | true => simp [hready, discoveryScopesForRoots, filesystemScope]

end Outcome

section Publication

variable (w : HydrationWorld) (requirement : HydrationRequirement)

def skips (path : String) : Bool :=
  match requirement with
  | .legacyEdit => w.isIndexed path
  | .semantic _ => false

def Kept (path : String) : Prop :=
  (w.candidate path).compileCandidateFor requirement = .ok .published ∨
    (w.candidate path).compileCandidateFor requirement = .ok .current

/-- An eligible candidate is current in the index, or it is published. -/
def Settled (candidate : String) : Prop :=
  w.isEligible (w.semanticOwnerPath candidate) = true →
    if w.skips requirement (w.semanticOwnerPath candidate) then
      w.indexedAsIs (w.semanticOwnerPath candidate) = true
    else w.Kept requirement (w.semanticOwnerPath candidate)

/-- An eligible candidate is not selected, or it is kept. -/
def Handled (candidate : String) : Prop :=
  w.isEligible (w.semanticOwnerPath candidate) = true →
    w.skips requirement (w.semanticOwnerPath candidate) = true ∨
      w.Kept requirement (w.semanticOwnerPath candidate)

/-- An eligible candidate is not selected, but the index does not have it as it is. -/
def OutOfDate (candidate : String) : Prop :=
  w.isEligible (w.semanticOwnerPath candidate) = true ∧
    w.skips requirement (w.semanticOwnerPath candidate) = true ∧
      w.indexedAsIs (w.semanticOwnerPath candidate) = false

variable {w requirement}

theorem settled_iff {candidate : String} : w.Settled requirement candidate ↔
    w.Handled requirement candidate ∧ ¬ w.OutOfDate requirement candidate := by
  unfold Settled Handled OutOfDate
  cases w.isEligible (w.semanticOwnerPath candidate) <;>
    cases w.skips requirement (w.semanticOwnerPath candidate) <;>
      simp

theorem mem_selectCandidates {candidates : List String} {path : String} :
    path ∈ w.selectCandidates candidates requirement ↔
      ∃ candidate ∈ candidates, w.semanticOwnerPath candidate = path ∧
        w.isEligible path = true ∧ w.skips requirement path = false := by
  cases requirement with
  | legacyEdit =>
      simp only [selectCandidates, skips, List.mem_mergeSort, List.mem_filter, List.mem_dedup,
        List.mem_map, Bool.not_eq_true']
      constructor
      · rintro ⟨⟨⟨candidate, hmem, rfl⟩, heligible⟩, hskips⟩
        exact ⟨candidate, hmem, rfl, heligible, hskips⟩
      · rintro ⟨candidate, hmem, rfl, heligible, hskips⟩
        exact ⟨⟨⟨candidate, hmem, rfl⟩, heligible⟩, hskips⟩
  | semantic fidelity =>
      simp only [selectCandidates, skips, List.mem_mergeSort, List.mem_filter, List.mem_dedup,
        List.mem_map]
      constructor
      · rintro ⟨⟨candidate, hmem, rfl⟩, heligible⟩
        exact ⟨candidate, hmem, rfl, heligible, trivial⟩
      · rintro ⟨candidate, hmem, rfl, heligible, -⟩
        exact ⟨⟨candidate, hmem, rfl⟩, heligible⟩

/-- The loop over the selected candidates ends without a failure if each of them is kept. -/
theorem publishAll_iff {paths : List String} :
    (∃ compiled, w.publishAll requirement paths = .ok (compiled, false)) ↔
      ∀ path ∈ paths, w.Kept requirement path := by
  induction paths with
  | nil => simp [publishAll]
  | cons path rest ih =>
      rw [List.forall_mem_cons, ← ih, Kept]
      rw [publishAll]
      cases (w.candidate path).compileCandidateFor requirement with
      | error e => simp
      | ok outcome =>
          cases hrest : w.publishAll requirement rest with
          | error e => simp
          | ok counts =>
              obtain ⟨compiled, failed⟩ := counts
              cases outcome <;> cases failed <;> simp

theorem publishAll_selectCandidates_iff {candidates : List String} :
    (∃ compiled, w.publishAll requirement (w.selectCandidates candidates requirement) =
        .ok (compiled, false)) ↔
      ∀ candidate ∈ candidates, w.Handled requirement candidate := by
  rw [publishAll_iff]
  constructor
  · intro h candidate hmem heligible
    cases hskips : w.skips requirement (w.semanticOwnerPath candidate) with
    | true => exact .inl rfl
    | false =>
        exact .inr (h _ (mem_selectCandidates.mpr ⟨candidate, hmem, rfl, heligible, hskips⟩))
  · intro h path hpath
    obtain ⟨candidate, hmem, rfl, heligible, hskips⟩ := mem_selectCandidates.mp hpath
    exact (h candidate hmem heligible).resolve_left (by simp [hskips])

end Publication

end HydrationWorld

section Marks

variable {cache : HydrationDiscoveryCache} {mode : DiscoveryMode} {name : String}
  {fidelity : Option SemanticFidelity}

theorem isCompleteFor_markCompleteFor (scope : DiscoveryScope) (key : DiscoveryKey) :
    (cache.markCompleteFor scope mode name fidelity).isCompleteFor key.scope key.mode key.name
        key.semanticFidelity = true ↔
      cache.isCompleteFor key.scope key.mode key.name key.semanticFidelity = true ∨
        key = ⟨scope, mode, name, fidelity⟩ := by
  rw [DiscoverySession.isCompleteFor_iff, DiscoverySession.isCompleteFor_iff]
  have hgeneration := DiscoverySession.generation_markCompleteFor cache
    ⟨scope, mode, name, fidelity⟩ key.scope
  rw [hgeneration]
  change Function.update cache.completed ⟨scope, mode, name, fidelity⟩
    (some (cache.generation scope)) key = _ ↔ _
  by_cases heq : key = ⟨scope, mode, name, fidelity⟩
  · subst heq
    simp
  · rw [Function.update_of_ne heq, or_iff_left heq]

theorem isCompleteFor_foldl (scopes : List DiscoveryScope) (key : DiscoveryKey) :
    (scopes.foldl (fun cache scope => cache.markCompleteFor scope mode name fidelity)
        cache).isCompleteFor key.scope key.mode key.name key.semanticFidelity = true ↔
      cache.isCompleteFor key.scope key.mode key.name key.semanticFidelity = true ∨
        ∃ scope ∈ scopes, key = ⟨scope, mode, name, fidelity⟩ := by
  induction scopes generalizing cache with
  | nil => simp
  | cons scope rest ih =>
      rw [List.foldl_cons, ih, isCompleteFor_markCompleteFor, or_assoc]
      simp

end Marks

namespace HydrationWorld

section Honest

variable (w : HydrationWorld) (isComplete : DiscoveryScope → Bool)

def Answered (p : HydrationProject) : Prop :=
  isComplete (w.cbmScope p) = true ∨ w.readyNow isComplete p = true

/-- A root was searched in a ready project, was complete, or was fully scanned. -/
def RootCovered (root : String) : Prop :=
  (∃ p ∈ w.projects, w.rootKey p.root = w.rootKey root ∧ w.Answered isComplete p) ∨
  isComplete (w.filesystemScope root) = true ∨
  ∃ scanned ∈ w.leftToScan isComplete, w.rootKey scanned = w.rootKey root ∧ w.FullyScanned scanned

/-- The root of a scope was searched in a ready project, or it was fully scanned. -/
def ScopeCovered (scope : DiscoveryScope) : Prop :=
  match scope.provider with
  | .cbm => ∃ p ∈ w.projects, w.rootKey p.root = scope.root ∧ w.readyNow isComplete p = true
  | .filesystem =>
      ∃ scanned ∈ w.leftToScan isComplete, w.rootKey scanned = scope.root ∧ w.FullyScanned scanned

def roots : List String :=
  w.workspaceRoot :: w.additionalRoots ++ w.projects.map HydrationProject.root

/-- A completed report has covered every root and settled every candidate, and so has each
hydration that marks a scope complete, which it then has covered. -/
def Honest (cache : HydrationDiscoveryCache) (mode : DiscoveryMode) (queryName : String)
    (requirement : HydrationRequirement) : Prop :=
  let complete := HydrationWorld.isComplete cache mode queryName requirement
  let settled := ∀ candidate ∈ w.found complete queryName, w.Settled requirement candidate
  ∀ report after,
    w.hydrateWorkspaceIndexFor cache mode queryName requirement = .ok (report, after) →
      (report.discoveryStatus = .completed →
        (∀ root ∈ w.roots, w.RootCovered complete root) ∧ settled) ∧
      ∀ key : DiscoveryKey,
        after.isCompleteFor key.scope key.mode key.name key.semanticFidelity = true →
        cache.isCompleteFor key.scope key.mode key.name key.semanticFidelity = true ∨
        key.mode = mode ∧ key.name = queryName ∧ key.semanticFidelity = requirement.fidelity ∧
          w.ScopeCovered complete key.scope ∧ settled

/-- A project is searched that is not ready, and its root is not covered. -/
def Hidden : Prop :=
  ∃ p ∈ w.projects, w.searchedNow isComplete p = true ∧ p.readiness ≠ .ready ∧
    ¬ w.RootCovered isComplete p.root

/-- Nothing fails, but a root is hidden, or a candidate is out of date. -/
def Misreports (queryName : String) (requirement : HydrationRequirement) : Prop :=
  (∀ candidate ∈ w.found isComplete queryName, w.Handled requirement candidate) ∧
    (w.AllScanned isComplete ∧ w.Hidden isComplete ∨
      (w.AllScanned isComplete ∨ ∃ p ∈ w.projects, w.readyNow isComplete p = true) ∧
        ∃ candidate ∈ w.found isComplete queryName, w.OutOfDate requirement candidate)

variable {w isComplete}

theorem readyNow_of_searchedNow {p : HydrationProject} (h : w.searchedNow isComplete p = true)
    (hready : p.readiness = .ready) : w.readyNow isComplete p = true := by
  simp [readyNow, h, hready]

theorem RootCovered.congr {root root' : String} (h : w.RootCovered isComplete root)
    (hkey : w.rootKey root = w.rootKey root') : w.RootCovered isComplete root' := by
  unfold RootCovered filesystemScope at *
  rwa [← hkey]

theorem rootCovered_of_searched (hhidden : ¬ w.Hidden isComplete) {p : HydrationProject}
    (hp : p ∈ w.projects) (h : w.searched isComplete p = true) :
    w.RootCovered isComplete p.root := by
  rcases Bool.or_eq_true_iff.mp h with hcomplete | hnow
  · exact .inl ⟨p, hp, rfl, .inl hcomplete⟩
  · by_cases hready : p.readiness = .ready
    · exact .inl ⟨p, hp, rfl, .inr (readyNow_of_searchedNow hnow hready)⟩
    · by_contra hcovered
      exact hhidden ⟨p, hp, hnow, hready, hcovered⟩

/-- A root that is left when the projects are done is complete, or it is scanned. -/
theorem rootCovered_of_left (hall : w.AllScanned isComplete) {roots : List String}
    (hroots : (w.deduplicateRoots roots).filter (fun root => !isComplete (w.filesystemScope root)) =
      w.leftToScan isComplete) {root : String} (hroot : root ∈ roots) :
    w.RootCovered isComplete root := by
  obtain ⟨kept, hkept, hkey⟩ := exists_deduplicateRoots w hroot
  cases hcomplete : isComplete (w.filesystemScope kept) with
  | true => exact RootCovered.congr (.inr (.inl hcomplete)) hkey
  | false =>
      have hleft : kept ∈ w.leftToScan isComplete := by
        rw [← hroots]
        exact List.mem_filter.mpr ⟨hkept, by rw [hcomplete]; rfl⟩
      exact .inr (.inr ⟨kept, hleft, hkey, hall kept hleft⟩)

theorem rootCovered_of_allScanned (hall : w.AllScanned isComplete)
    (hhidden : ¬ w.Hidden isComplete) {root : String} (hroot : root ∈ w.roots) :
    w.RootCovered isComplete root := by
  rcases List.mem_append.mp hroot with hconfigured | hproject
  · cases hbridge : w.bridge with
    | none => exact rootCovered_of_left hall (by rw [leftToScan, hbridge]; rfl) hconfigured
    | some projects =>
        have hprojects : w.projects = projects := by rw [HydrationWorld.projects, hbridge]; rfl
        obtain ⟨kept, hkept, hkey⟩ := exists_deduplicateRoots w hconfigured
        refine RootCovered.congr ?_ hkey
        cases hunsearched : w.unsearched isComplete projects kept with
        | true =>
            refine rootCovered_of_left hall (by rw [leftToScan, hbridge]) ?_
            exact List.mem_append_right _ (List.mem_filter.mpr ⟨hkept, hunsearched⟩)
        | false =>
            obtain ⟨p, hp, hsearched, hsame⟩ : ∃ p ∈ projects, w.searched isComplete p = true ∧
                w.rootKey p.root = w.rootKey kept := by
              simpa [unsearched] using hunsearched
            rw [← hprojects] at hp
            exact (rootCovered_of_searched hhidden hp hsearched).congr hsame
  · obtain ⟨p, hp, rfl⟩ := List.mem_map.mp hproject
    cases hsearched : w.searched isComplete p with
    | true => exact rootCovered_of_searched hhidden hp hsearched
    | false =>
        cases hbridge : w.bridge with
        | none => simp [projects, hbridge] at hp
        | some projects =>
            have hprojects : w.projects = projects := by rw [HydrationWorld.projects, hbridge]; rfl
            refine rootCovered_of_left hall (by rw [leftToScan, hbridge]) ?_
            refine List.mem_append_left _ (List.mem_append_right _ (List.mem_map_of_mem ?_))
            exact List.mem_filter.mpr ⟨hprojects ▸ hp, by rw [hsearched]; rfl⟩

section Runs

variable {cache after : HydrationDiscoveryCache} {mode : DiscoveryMode} {queryName : String}
  {requirement : HydrationRequirement} {report : HydrationReport}

/-- When every candidate is handled, the outcome of the discovery is reported and marked. -/
theorem hydrate_of_handled (h : ∀ candidate ∈
      w.found (HydrationWorld.isComplete cache mode queryName requirement) queryName,
    w.Handled requirement candidate) :
    ∃ report, ∃ scopes : List DiscoveryScope,
      w.hydrateWorkspaceIndexFor cache mode queryName requirement =
        .ok (report, scopes.foldl (fun cache scope =>
          cache.markCompleteFor scope mode queryName requirement.fidelity) cache) ∧
      (report.discoveryStatus = .completed ↔
        w.AllScanned (HydrationWorld.isComplete cache mode queryName requirement)) ∧
      ∀ scope, scope ∈ scopes ↔
        (∃ p ∈ w.projects, w.readyNow (HydrationWorld.isComplete cache mode queryName requirement)
          p = true ∧ w.cbmScope p = scope) ∨
        w.AllScanned (HydrationWorld.isComplete cache mode queryName requirement) ∧
          ∃ root ∈ w.leftToScan (HydrationWorld.isComplete cache mode queryName requirement),
            w.filesystemScope root = scope := by
  obtain ⟨hcandidates, hstatus, hcompletions⟩ := discovers_discoverCandidatePaths w
    (HydrationWorld.isComplete cache mode queryName requirement) queryName
  obtain ⟨compiled, hpublish⟩ := publishAll_selectCandidates_iff.mpr h
  unfold hydrateWorkspaceIndexFor
  simp only [hcandidates, hpublish]
  exact ⟨_, _, rfl, hstatus, hcompletions⟩

/-- When some candidate is not handled, nothing is marked or called complete. -/
theorem hydrate_of_not_handled (h : ¬ ∀ candidate ∈
      w.found (HydrationWorld.isComplete cache mode queryName requirement) queryName,
    w.Handled requirement candidate)
    (hok : w.hydrateWorkspaceIndexFor cache mode queryName requirement = .ok (report, after)) :
    report.discoveryStatus ≠ .completed ∧ after = cache := by
  obtain ⟨hcandidates, -, -⟩ := discovers_discoverCandidatePaths w
    (HydrationWorld.isComplete cache mode queryName requirement) queryName
  rw [← publishAll_selectCandidates_iff, not_exists] at h
  unfold hydrateWorkspaceIndexFor at hok
  simp only [hcandidates] at hok
  split at hok
  · cases hok
  · next compiled failed hpublish =>
    cases failed with
    | false => exact absurd hpublish (h compiled)
    | true =>
        cases hok
        exact ⟨nofun, rfl⟩

theorem scopeCovered_of_mem {scope : DiscoveryScope}
    (h : (∃ p ∈ w.projects, w.readyNow isComplete p = true ∧ w.cbmScope p = scope) ∨
      w.AllScanned isComplete ∧ ∃ root ∈ w.leftToScan isComplete, w.filesystemScope root = scope) :
    w.ScopeCovered isComplete scope := by
  rcases h with ⟨p, hp, hready, rfl⟩ | ⟨hall, root, hroot, rfl⟩
  · exact ⟨p, hp, rfl, hready⟩
  · exact ⟨root, hroot, rfl, hall root hroot⟩

theorem not_honest_of_misreports
    (h : w.Misreports (HydrationWorld.isComplete cache mode queryName requirement) queryName
      requirement) : ¬ w.Honest cache mode queryName requirement := by
  intro hhonest
  obtain ⟨hhandled, hwrong⟩ := h
  obtain ⟨report, scopes, hok, hstatus, hscopes⟩ := hydrate_of_handled hhandled
  obtain ⟨hcompleted, hmarked⟩ := hhonest report _ hok
  rcases hwrong with ⟨hall, p, hp, -, -, hcovered⟩ | ⟨hmarks, candidate, hfound, hstale⟩
  · refine hcovered ((hcompleted (hstatus.mpr hall)).1 p.root ?_)
    exact List.mem_append_right _ (List.mem_map_of_mem hp)
  · refine (settled_iff.mp (?_ : w.Settled requirement candidate)).2 hstale
    rcases hmarks with hall | ⟨p, hp, hready⟩
    · exact (hcompleted (hstatus.mpr hall)).2 candidate hfound
    · have hscope : w.cbmScope p ∈ scopes := (hscopes _).mpr (.inl ⟨p, hp, hready, rfl⟩)
      rcases hmarked ⟨w.cbmScope p, mode, queryName, requirement.fidelity⟩
        ((isCompleteFor_foldl scopes _).mpr (.inr ⟨_, hscope, rfl⟩)) with hbefore | hnew
      · have hnow := (Bool.and_eq_true_iff.mp (Bool.and_eq_true_iff.mp hready).1).1
        exact absurd hbefore (by simpa [HydrationWorld.isComplete] using hnow)
      · exact hnew.2.2.2.2 candidate hfound

theorem honest_of_not_misreports
    (h : ¬ w.Misreports (HydrationWorld.isComplete cache mode queryName requirement) queryName
      requirement) : w.Honest cache mode queryName requirement := by
  intro report after hok
  by_cases hhandled : ∀ candidate ∈
      w.found (HydrationWorld.isComplete cache mode queryName requirement) queryName,
    w.Handled requirement candidate
  · obtain ⟨report', scopes, hok', hstatus, hscopes⟩ := hydrate_of_handled hhandled
    cases hok'.symm.trans hok
    have hsettled : (w.AllScanned (HydrationWorld.isComplete cache mode queryName requirement) ∨
        ∃ p ∈ w.projects,
          w.readyNow (HydrationWorld.isComplete cache mode queryName requirement) p = true) →
        ∀ candidate ∈ w.found (HydrationWorld.isComplete cache mode queryName requirement)
          queryName, w.Settled requirement candidate := by
      intro hmarks candidate hfound
      refine settled_iff.mpr ⟨hhandled candidate hfound, fun hstale => ?_⟩
      exact h ⟨hhandled, .inr ⟨hmarks, candidate, hfound, hstale⟩⟩
    refine ⟨fun hcompleted => ?_, fun key hkey => ?_⟩
    · have hall := hstatus.mp hcompleted
      refine ⟨fun root hroot => rootCovered_of_allScanned hall (fun hhidden => ?_) hroot,
        hsettled (.inl hall)⟩
      exact h ⟨hhandled, .inl ⟨hall, hhidden⟩⟩
    · rcases (isCompleteFor_foldl scopes key).mp hkey with hbefore | ⟨scope, hscope, rfl⟩
      · exact .inl hbefore
      · have hmarks := (hscopes scope).mp hscope
        refine .inr ⟨rfl, rfl, rfl, scopeCovered_of_mem hmarks, hsettled ?_⟩
        exact hmarks.symm.imp And.left fun ⟨p, hp, hready, _⟩ => ⟨p, hp, hready⟩
  · obtain ⟨hstatus, rfl⟩ := hydrate_of_not_handled hhandled hok
    exact ⟨fun hcompleted => absurd hcompleted hstatus, fun key hkey => .inl hkey⟩

/-- Reports of completion and marks are honest exactly if hydration does not misreport. -/
theorem honest_iff : w.Honest cache mode queryName requirement ↔
    ¬ w.Misreports (HydrationWorld.isComplete cache mode queryName requirement) queryName
      requirement :=
  ⟨fun hhonest h => not_honest_of_misreports h hhonest, honest_of_not_misreports⟩

end Runs

end Honest

/-- One project that is still indexing, whose search finds nothing. -/
def stillIndexing : HydrationWorld where
  workspaceRoot := "/repo"
  additionalRoots := []
  bridge := some [{
    project := "repo"
    root := "/repo"
    available := true
    readiness := .stillIndexing
    search := some [] }]
  resolveProjectId root := root
  canonicalIdentityKey path := path
  walk _ := some [some "/repo/foo.ts"]
  readSource _ := some "class FooService {}"
  semanticOwnerPath path := path
  isEligible _ := true
  isIndexed _ := false
  indexedAsIs _ := false
  candidate _ :=
    { checked := true
      source := .ok ()
      isCurrent := false
      preflight := .ok ()
      compiled := true
      commit := .ok true }

/-- The answer is called complete, though the repository holds a file that nobody looked at. -/
theorem not_honest_stillIndexing :
    ¬ stillIndexing.Honest .new .declaration "FooService" (.semantic .high) := by
  have hleft : stillIndexing.leftToScan
      (isComplete .new .declaration "FooService" (.semantic .high)) = [] := by
    simp [leftToScan, stillIndexing, unregistered, searched, searchedNow, unsearched,
      configuredRoots, deduplicateRoots, firstOfKeys]
  have hfound : stillIndexing.found
      (isComplete .new .declaration "FooService" (.semantic .high)) "FooService" = [] := by
    rw [found, hleft, candidates_scan_nil]
    rfl
  refine not_honest_of_misreports ⟨fun candidate hmem => ?_, .inl ⟨fun root hroot => ?_, ?_⟩⟩
  · exact absurd (hfound ▸ hmem) List.not_mem_nil
  · exact absurd (hleft ▸ hroot) List.not_mem_nil
  · refine ⟨_, List.mem_cons_self, rfl, nofun, ?_⟩
    rintro (⟨p, hp, -, hanswered⟩ | hcomplete | ⟨scanned, hscanned, -⟩)
    · obtain rfl := List.mem_singleton.mp hp
      rcases hanswered with hcomplete | hready
      · cases hcomplete
      · cases hready
    · cases hcomplete
    · exact absurd (hleft ▸ hscanned) List.not_mem_nil

end HydrationWorld

end Mcp
end CleanCtx
