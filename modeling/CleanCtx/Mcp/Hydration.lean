import Mathlib.Data.List.Dedup
import CleanCtx.Mcp.DiscoveryCache

/-!
Hydration of the workspace index (`mcp/tool_handlers/hydration.rs`, `hydration/*.rs`):
where candidates for a name are looked for, how the outcomes of the projects and of the
filesystem scan are folded into a status, and how candidates are published. What the
graph process, the file system and the compiler do is a `HydrationWorld`.
-/
namespace CleanCtx
namespace Mcp

inductive Readiness
  | ready | stillIndexing | failed
  deriving DecidableEq

/-- A configured project: whether the bridge is available when its turn comes, what the readiness
gate says, and the files its search names, or none when it fails. -/
structure HydrationProject where
  project : String
  root : String
  available : Bool
  readiness : Readiness
  search : Option (List String)

inductive HydrationRequirement
  | legacyEdit
  | semantic (fidelity : SemanticFidelity)

inductive CandidatePublication
  | published | current | failed
  deriving DecidableEq

/-- What happens to one candidate: the path check, its source, whether its projection is current,
the preflight, the compilation, and whether the commit finds the compiled bytes unchanged. -/
structure CandidateWorld where
  checked : Bool
  source : Except String Unit
  isCurrent : Bool
  preflight : Except String Unit
  compiled : Bool
  commit : Except String Bool

/-- Walking a root yields nothing when it is no directory, else the supported files and, for each
entry that cannot be read, nothing. Whether the index has a file as it now is, no code asks. -/
structure HydrationWorld where
  workspaceRoot : String
  additionalRoots : List String
  bridge : Option (List HydrationProject)
  resolveProjectId : String → String
  canonicalIdentityKey : String → String
  walk : String → Option (List (Option String))
  readSource : String → Option String
  semanticOwnerPath : String → String
  isEligible : String → Bool
  isIndexed : String → Bool
  indexedAsIs : String → Bool
  candidate : String → CandidateWorld

inductive CoverageStatus
  | searched | skipped | searchFailed

inductive CoverageReason
  | additionalRootNotRegistered | cbmUnavailable | searchFailed

structure ProjectCoverage where
  project : String
  status : CoverageStatus
  readiness : Option Readiness
  reason : Option CoverageReason

inductive HydrationProvider
  | none | cbm | filesystem | cbmAndFilesystem

/-- `"completed"`, `"partial"` and `"failed"`. -/
inductive HydrationStatus
  | completed | incomplete | failed
  deriving DecidableEq

inductive FallbackReason
  | cbmPartialFailure | cbmUnavailable | cbmDiscoveryFailed | cbmScopeUnavailable
  | filesystemUnavailable

structure DiscoveryOutcome where
  candidates : List String
  projectCoverage : List ProjectCoverage
  provider : HydrationProvider
  status : HydrationStatus
  attempted : Bool
  fallbackReason : Option FallbackReason
  completions : List DiscoveryScope

structure HydrationReport where
  hydrationAttempted : Bool
  discoveryProvider : HydrationProvider
  discoveryStatus : HydrationStatus
  fallbackReason : Option FallbackReason
  candidatesDiscovered : Nat
  candidatesCompiled : Nat
  projectCoverage : List ProjectCoverage

def firstOfKeys {α κ : Type} [DecidableEq κ] (key : α → κ) : List κ → List α → List α
  | _, [] => []
  | seen, a :: rest =>
      if key a ∈ seen then firstOfKeys key seen rest
      else a :: firstOfKeys key (key a :: seen) rest

/-- `PathBuf::join`. -/
def joinPath (root path : String) : String :=
  if path.toList.head? = some '/' then path
  else if root.toList.getLast? = some '/' then root ++ path else root ++ "/" ++ path

def containsText (source name : String) : Bool :=
  source.toList.tails.any name.toList.isPrefixOf

def HydrationRequirement.fidelity : HydrationRequirement → Option SemanticFidelity
  | .legacyEdit => none
  | .semantic fidelity => some fidelity

def discoveryStatus (attempted completed hasPartialCoverage : Bool) : HydrationStatus :=
  if completed then .completed
  else if attempted || hasPartialCoverage then .incomplete else .failed

structure FilesystemScan where
  candidates : List String
  attempted : Bool
  completed : Bool

structure ProjectSweep where
  candidates : List String
  coverage : List ProjectCoverage
  successfulRoots : List String
  fallbackRoots : List String
  cbmAttempted : Bool
  sawUnavailable : Bool
  sawSearchFailure : Bool
  completions : List DiscoveryScope

namespace HydrationWorld

variable (w : HydrationWorld)

def rootKey (root : String) : String := w.canonicalIdentityKey root

def deduplicateRoots (roots : List String) : List String :=
  (firstOfKeys w.rootKey [] roots).mergeSort fun a b => w.rootKey a ≤ w.rootKey b

def configuredRoots : List String := w.deduplicateRoots (w.workspaceRoot :: w.additionalRoots)

/-! The filesystem scan. -/

def sourcePaths (roots : List String) : List String :=
  (((roots.filterMap w.walk).flatten.filterMap id).mergeSort (· ≤ ·)).dedup

def scan (roots : List String) (queryName : String) : FilesystemScan :=
  let attempted := roots.any fun root => (w.walk root).isSome
  let walked := roots.all fun root => (w.walk root).any fun entries => entries.all Option.isSome
  let paths := w.sourcePaths roots
  let read := paths.all fun path => (w.readSource path).isSome
  let candidates := paths.filter fun path =>
    (w.readSource path).any fun source => containsText source queryName
  { candidates, attempted, completed := attempted && (walked && read) }

/-! The projects. -/

def appendRootedPaths (root : String) (paths : List String) : List String :=
  (paths.filter (· ≠ "")).map fun file => w.canonicalIdentityKey (joinPath root file)

variable (isComplete : DiscoveryScope → Bool)

def sweepProject (s : ProjectSweep) (p : HydrationProject) : ProjectSweep :=
  let scope : DiscoveryScope := ⟨.cbm, w.rootKey p.root⟩
  if isComplete scope then
    { s with
      cbmAttempted := true
      successfulRoots := w.rootKey p.root :: s.successfulRoots
      coverage := s.coverage ++ [⟨p.project, .searched, some .ready, none⟩] }
  else if p.available then
    match p.search with
    | some paths =>
        { s with
          cbmAttempted := true
          candidates := s.candidates ++ w.appendRootedPaths p.root paths
          successfulRoots := w.rootKey p.root :: s.successfulRoots
          coverage := s.coverage ++ [⟨p.project, .searched, some p.readiness, none⟩]
          completions :=
            if p.readiness = .ready then s.completions ++ [scope] else s.completions }
    | none =>
        { s with
          cbmAttempted := true
          sawSearchFailure := true
          fallbackRoots := s.fallbackRoots ++ [p.root]
          coverage := s.coverage ++
            [⟨p.project, .searchFailed, some p.readiness, some .searchFailed⟩] }
  else
    { s with
      sawUnavailable := true
      fallbackRoots := s.fallbackRoots ++ [p.root]
      coverage := s.coverage ++ [⟨p.project, .skipped, none, some .cbmUnavailable⟩] }

def unregistered (projects : List HydrationProject) : List String :=
  w.additionalRoots.filter fun root => !projects.any (·.project = w.resolveProjectId root)

def sweep (projects : List HydrationProject) : ProjectSweep :=
  let unregistered := w.unregistered projects
  projects.foldl (w.sweepProject isComplete)
    { candidates := []
      coverage := unregistered.map fun root =>
        ⟨w.resolveProjectId root, .skipped, none, some .additionalRootNotRegistered⟩
      successfulRoots := []
      fallbackRoots := unregistered
      cbmAttempted := false
      sawUnavailable := false
      sawSearchFailure := false
      completions := [] }

def filesystemComplete (root : String) : Bool := isComplete ⟨.filesystem, w.rootKey root⟩

/-- `pending_discovery_roots`: the roots still to scan, and how many are complete. -/
def pendingDiscoveryRoots (roots : List String) : List String × Nat :=
  (roots.filter (!w.filesystemComplete isComplete ·),
    roots.countP (w.filesystemComplete isComplete))

def discoveryScopesForRoots (roots : List String) : List DiscoveryScope :=
  roots.map fun root => ⟨.filesystem, w.rootKey root⟩

def fallbackRoots (projects : List HydrationProject) : List String :=
  let s := w.sweep isComplete projects
  w.deduplicateRoots (s.fallbackRoots ++
    w.configuredRoots.filter fun root => w.rootKey root ∉ s.successfulRoots)

def filesystemOnlyDiscovery (roots : List String) (queryName : String) : DiscoveryOutcome :=
  let (pending, cached) := w.pendingDiscoveryRoots isComplete roots
  if pending.isEmpty then
    if cached = 0 then
      { candidates := []
        projectCoverage := []
        provider := .none
        status := .failed
        attempted := false
        fallbackReason := some .filesystemUnavailable
        completions := [] }
    else
      { candidates := []
        projectCoverage := []
        provider := .filesystem
        status := .completed
        attempted := true
        fallbackReason := some .cbmUnavailable
        completions := [] }
  else
    let scan := w.scan pending queryName
    let covered := scan.attempted || decide (0 < cached)
    { candidates := scan.candidates
      projectCoverage := []
      provider := if covered then .filesystem else .none
      status := discoveryStatus covered scan.completed false
      attempted := covered
      fallbackReason := some (if covered then .cbmUnavailable else .filesystemUnavailable)
      completions := if scan.completed then w.discoveryScopesForRoots pending else [] }

def fallbackReasonOf (sawUnavailable sawSearchFailure : Bool) : FallbackReason :=
  match sawUnavailable, sawSearchFailure with
  | true, true => .cbmPartialFailure
  | true, false => .cbmUnavailable
  | false, true => .cbmDiscoveryFailed
  | false, false => .cbmScopeUnavailable

def providerOf (anyCbmSuccess filesystemCovers : Bool) : HydrationProvider :=
  match anyCbmSuccess, filesystemCovers with
  | true, true => .cbmAndFilesystem
  | true, false => .cbm
  | false, true => .filesystem
  | false, false => .none

def discoverCandidatePaths (queryName : String) : DiscoveryOutcome :=
  match w.bridge with
  | none => w.filesystemOnlyDiscovery isComplete w.configuredRoots queryName
  | some projects =>
      let s := w.sweep isComplete projects
      let (pending, cached) :=
        w.pendingDiscoveryRoots isComplete (w.fallbackRoots isComplete projects)
      let reason := fallbackReasonOf s.sawUnavailable s.sawSearchFailure
      let anyCbmSuccess := !s.successfulRoots.isEmpty
      if pending.isEmpty then
        if cached = 0 then
          { candidates := s.candidates
            projectCoverage := s.coverage
            provider := .cbm
            status := .completed
            attempted := s.cbmAttempted
            fallbackReason := none
            completions := s.completions }
        else
          { candidates := s.candidates
            projectCoverage := s.coverage
            provider := if anyCbmSuccess then .cbmAndFilesystem else .filesystem
            status := .completed
            attempted := true
            fallbackReason := some reason
            completions := s.completions }
      else
        let scan := w.scan pending queryName
        let attempted := s.cbmAttempted || scan.attempted || decide (0 < cached)
        { candidates := s.candidates ++ scan.candidates
          projectCoverage := s.coverage
          provider := providerOf anyCbmSuccess (scan.attempted || decide (0 < cached))
          status := discoveryStatus attempted scan.completed anyCbmSuccess
          attempted
          fallbackReason := some reason
          completions :=
            if scan.completed then s.completions ++ w.discoveryScopesForRoots pending
            else s.completions }

/-! Publication. -/

def selectCandidates (candidates : List String) (requirement : HydrationRequirement) :
    List String :=
  let resolved := ((candidates.map w.semanticOwnerPath).filter w.isEligible).dedup
  (match requirement with
    | .legacyEdit => resolved.filter (!w.isIndexed ·)
    | .semantic _ => resolved).mergeSort (· ≤ ·)

end HydrationWorld

/-- From the preflight on. -/
def CandidateWorld.publish (c : CandidateWorld) : Except String CandidatePublication :=
  match c.preflight with
  | .error e => .error e
  | .ok _ =>
      if c.compiled then c.commit.map fun unchanged => if unchanged then .published else .failed
      else .ok .failed

def CandidateWorld.compileCandidateFor (c : CandidateWorld) :
    HydrationRequirement → Except String CandidatePublication
  | .legacyEdit => if c.checked then c.publish else .ok .failed
  | .semantic _ =>
      if c.checked then
        match c.source with
        | .error e => .error e
        | .ok _ => if c.isCurrent then .ok .current else c.publish
      else .ok .failed

namespace HydrationWorld

variable (w : HydrationWorld)

/-- The loop over the selected candidates: how many were compiled, and whether one failed. -/
def publishAll (requirement : HydrationRequirement) : List String → Except String (Nat × Bool)
  | [] => .ok (0, false)
  | path :: rest =>
      match (w.candidate path).compileCandidateFor requirement with
      | .error e => .error e
      | .ok outcome =>
          match publishAll requirement rest with
          | .error e => .error e
          | .ok (compiled, failed) =>
              match outcome with
              | .published => .ok (compiled + 1, failed)
              | .current => .ok (compiled, failed)
              | .failed => .ok (compiled, true)

def isComplete (cache : HydrationDiscoveryCache) (mode : DiscoveryMode) (queryName : String)
    (requirement : HydrationRequirement) (scope : DiscoveryScope) : Bool :=
  cache.isCompleteFor scope mode queryName requirement.fidelity

def hydrateWorkspaceIndexFor (cache : HydrationDiscoveryCache) (mode : DiscoveryMode)
    (queryName : String) (requirement : HydrationRequirement) :
    Except String (HydrationReport × HydrationDiscoveryCache) :=
  let outcome := w.discoverCandidatePaths (isComplete cache mode queryName requirement) queryName
  match w.publishAll requirement (w.selectCandidates outcome.candidates requirement) with
  | .error e => .error e
  | .ok (compiled, failed) =>
      let cache :=
        if failed then cache
        else outcome.completions.foldl
          (fun cache scope => cache.markCompleteFor scope mode queryName requirement.fidelity) cache
      .ok ({ hydrationAttempted := outcome.attempted
             discoveryProvider := outcome.provider
             discoveryStatus := if failed then .incomplete else outcome.status
             fallbackReason := outcome.fallbackReason
             candidatesDiscovered := outcome.candidates.length
             candidatesCompiled := compiled
             projectCoverage := outcome.projectCoverage.mergeSort fun a b => a.project ≤ b.project },
        cache)

end HydrationWorld

end Mcp
end CleanCtx
