import CleanCtx.GitDiff.Engine

/-!
How the counts of a multi-file diff account for the files. Every file is counted
exactly once. The counts of modified and renamed files are those of the files that
were compared, and the skipped ones those that could not be, exactly if no renamed
file fails after its two contents have been read. With the snapshots of the builder,
which always gives one, none does.
-/
namespace CleanCtx
namespace GitDiff

open Diff

variable {world : World} {request : Request} {summary : GitDiffSummary} {changes : List FileChange}

def compareFiles (world : World) (request : Request) (oldPath newPath : String) :
    Except String String := do
  let (fromContent, toContent) ← readContents world request oldPath newPath
  match diffTwoContents world fromContent toContent newPath with
  | (body, none) => return body
  | (_, some e) => throw e

def comparison (world : World) (request : Request) : FileChange → Option (Except String String)
  | .modified path => some (compareFiles world request path path)
  | .renamed oldPath newPath => some (compareFiles world request oldPath newPath)
  | _ => none

def FileChange.isModified : FileChange → Bool
  | .modified _ => true
  | _ => false

def compared (world : World) (request : Request) (change : FileChange) : Bool :=
  (comparison world request change).any Except.isOk

def failed (world : World) (request : Request) (change : FileChange) : Bool :=
  (comparison world request change).any fun result => !result.isOk

/-- The content of an added file cannot be read, or is over the limit. -/
def unavailable (world : World) (request : Request) : FileChange → Bool
  | .added path => !(currentContent world request path >>= checkSize request).isOk
  | _ => false

def GitDiffSummary.total (summary : GitDiffSummary) : Nat :=
  summary.added + summary.deleted + summary.modified + summary.renamed + summary.typeChanged +
    summary.skipped

/-- The counts account for the changed files. -/
structure Accounted (world : World) (request : Request) (changes : List FileChange)
    (summary : GitDiffSummary) : Prop where
  fileCount : summary.fileCount = changes.length
  total : summary.total = summary.fileCount
  modified : summary.modified = (processed request changes).countP fun change =>
    change.isModified && compared world request change
  renamed : summary.renamed = (processed request changes).countP fun change =>
    change.isRenamed && compared world request change
  skipped : summary.skipped = changes.length - (processed request changes).length +
    (processed request changes).countP fun change =>
      failed world request change || unavailable world request change

def readRenamed (world : World) (request : Request) : FileChange → Bool
  | .renamed oldPath newPath => (readContents world request oldPath newPath).isOk
  | _ => false

def skips (world : World) (request : Request) : FileChange → Bool
  | .added path => unavailable world request (.added path)
  | .modified path => !compared world request (.modified path)
  | .renamed oldPath newPath => !readRenamed world request (.renamed oldPath newPath)
  | _ => false

theorem isOk_compareFiles {oldPath newPath fromContent toContent : String}
    (h : readContents world request oldPath newPath = .ok (fromContent, toContent)) :
    (compareFiles world request oldPath newPath).isOk =
      (diffTwoContents world fromContent toContent newPath).2.isNone := by
  unfold compareFiles
  rw [h]
  dsimp only [bind, Except.bind]
  rcases diffTwoContents world fromContent toContent newPath with ⟨body, _ | e⟩ <;> rfl

variable (world request) in
theorem diffModifiedFile_snd (path : String) : (diffModifiedFile world request path).2.isNone =
    (compareFiles world request path path).isOk := by
  unfold diffModifiedFile
  cases hread : readContents world request path path with
  | error e =>
      rw [compareFiles, hread]
      rfl
  | ok contents => rw [isOk_compareFiles hread]

variable (world request) in
theorem isOk_diffRenamedFile (oldPath newPath : String) :
    (diffRenamedFile world request oldPath newPath).isOk =
      (readContents world request oldPath newPath).isOk := by
  unfold diffRenamedFile
  cases readContents world request oldPath newPath <;> rfl

/-- A file that is compared has been read. -/
theorem isOk_readContents {oldPath newPath : String}
    (h : (compareFiles world request oldPath newPath).isOk = true) :
    (readContents world request oldPath newPath).isOk = true := by
  unfold compareFiles at h
  cases hread : readContents world request oldPath newPath with
  | ok contents => rfl
  | error e =>
      rw [hread] at h
      cases h

variable (world request summary) in
/-- One file is counted once, and by what was read and compared of it. -/
theorem visit_counts (entry : FileChange × Nat) :
    (visit world request summary entry).total = summary.total + 1 ∧
    (visit world request summary entry).fileCount = summary.fileCount ∧
    (visit world request summary entry).modified = summary.modified +
      (entry.1.isModified && compared world request entry.1).toNat ∧
    (visit world request summary entry).renamed = summary.renamed +
      (readRenamed world request entry.1).toNat ∧
    (visit world request summary entry).skipped = summary.skipped +
      (skips world request entry.1).toNat := by
  obtain ⟨change, position⟩ := entry
  cases change with
  | added path =>
      unfold visit skips unavailable
      dsimp only
      cases currentContent world request path with
      | error e => exact ⟨rfl, rfl, rfl, rfl, rfl⟩
      | ok content =>
          dsimp only
          change _ ∧ _ ∧ _ ∧ _ ∧ _ = _ + (!(checkSize request content).isOk).toNat
          cases checkSize request content with
          | error e => exact ⟨rfl, rfl, rfl, rfl, rfl⟩
          | ok _ => exact ⟨by simp only [GitDiffSummary.total]; omega, rfl, rfl, rfl, rfl⟩
  | deleted path => exact ⟨by simp only [GitDiffSummary.total, visit]; omega, rfl, rfl, rfl, rfl⟩
  | modified path =>
      have hsnd := diffModifiedFile_snd world request path
      unfold visit skips compared comparison
      dsimp only [Option.any_some]
      rw [← hsnd]
      rcases diffModifiedFile world request path with ⟨body, _ | message⟩
      · exact ⟨by simp only [GitDiffSummary.total]; omega, rfl, rfl, rfl, rfl⟩
      · exact ⟨rfl, rfl, rfl, rfl, rfl⟩
  | renamed oldPath newPath =>
      have hread := isOk_diffRenamedFile world request oldPath newPath
      unfold visit skips readRenamed
      dsimp only
      rw [← hread]
      cases diffRenamedFile world request oldPath newPath with
      | ok body => exact ⟨by simp only [GitDiffSummary.total]; omega, rfl, rfl, rfl, rfl⟩
      | error message => exact ⟨rfl, rfl, rfl, rfl, rfl⟩
  | typeChanged path =>
      exact ⟨by simp only [GitDiffSummary.total, visit]; omega, rfl, rfl, rfl, rfl⟩

variable (world request summary) in
/-- The loop counts every file once. -/
theorem foldl_visit_counts (entries : List (FileChange × Nat)) :
    (entries.foldl (visit world request) summary).total = summary.total + entries.length ∧
    (entries.foldl (visit world request) summary).fileCount = summary.fileCount ∧
    (entries.foldl (visit world request) summary).modified = summary.modified +
      (entries.map Prod.fst).countP (fun change =>
        change.isModified && compared world request change) ∧
    (entries.foldl (visit world request) summary).renamed = summary.renamed +
      (entries.map Prod.fst).countP (readRenamed world request) ∧
    (entries.foldl (visit world request) summary).skipped = summary.skipped +
      (entries.map Prod.fst).countP (skips world request) := by
  induction entries generalizing summary with
  | nil => exact ⟨rfl, rfl, rfl, rfl, rfl⟩
  | cons entry entries ih =>
      obtain ⟨htotal, hfiles, hmodified, hrenamed, hskipped⟩ :=
        visit_counts world request summary entry
      obtain ⟨htotal', hfiles', hmodified', hrenamed', hskipped'⟩ :=
        ih (visit world request summary entry)
      simp only [List.foldl_cons, List.map_cons, List.countP_cons, List.length_cons]
      rw [htotal', hfiles', hmodified', hrenamed', hskipped', htotal, hfiles, hmodified, hrenamed,
        hskipped]
      simp only [Bool.toNat, Bool.cond_eq_ite]
      exact ⟨by omega, trivial, by omega, by omega, by omega⟩

variable (world request) in
/-- What the engine counts, for any files. -/
theorem gitdiffWorkspace_counts (changes : List FileChange) :
    (gitdiffWorkspace world request changes).total = changes.length ∧
    (gitdiffWorkspace world request changes).fileCount = changes.length ∧
    (gitdiffWorkspace world request changes).modified =
      (processed request changes).countP (fun change =>
        change.isModified && compared world request change) ∧
    (gitdiffWorkspace world request changes).renamed =
      (processed request changes).countP (readRenamed world request) ∧
    (gitdiffWorkspace world request changes).skipped =
      changes.length - (processed request changes).length +
        (processed request changes).countP (skips world request) := by
  have hle : (processed request changes).length ≤ changes.length := by
    unfold processed
    split
    · exact List.length_take_le' ..
    · exact le_rfl
  obtain ⟨htotal, hfiles, hmodified, hrenamed, hskipped⟩ :=
    foldl_visit_counts world request _ ((processed request changes).zipIdx 1)
  rw [List.zipIdx_map_fst] at hmodified hrenamed hskipped
  rw [List.length_zipIdx] at htotal
  unfold gitdiffWorkspace
  refine ⟨?_, hfiles, ?_, ?_, hskipped⟩
  · rw [htotal]
    simp only [GitDiffSummary.total]
    omega
  · rw [hmodified, Nat.zero_add]
  · rw [hrenamed, Nat.zero_add]

/-- No renamed file fails after its contents have been read. -/
def RenamesCompare (world : World) (request : Request) (changes : List FileChange) : Prop :=
  ∀ oldPath newPath, .renamed oldPath newPath ∈ processed request changes →
    ∀ fromContent toContent,
      readContents world request oldPath newPath = .ok (fromContent, toContent) →
        (diffTwoContents world fromContent toContent newPath).2 = none

theorem renamesCompare_iff : RenamesCompare world request changes ↔
    ∀ change ∈ processed request changes, readRenamed world request change = true →
      (change.isRenamed && compared world request change) = true := by
  constructor
  · intro h change hchange hread
    cases change with
    | renamed oldPath newPath =>
        change (readContents world request oldPath newPath).isOk = true at hread
        cases hcontents : readContents world request oldPath newPath with
        | error e =>
            rw [hcontents] at hread
            cases hread
        | ok contents =>
            have hnone := h oldPath newPath hchange contents.1 contents.2 hcontents
            change (compareFiles world request oldPath newPath).isOk = true
            rw [isOk_compareFiles hcontents, hnone]
            rfl
    | _ => cases hread
  · intro h oldPath newPath hchange fromContent toContent hcontents
    have hread : readRenamed world request (.renamed oldPath newPath) = true := by
      rw [readRenamed, hcontents]
      rfl
    have hcompared : (compareFiles world request oldPath newPath).isOk = true :=
      h _ hchange hread
    rw [isOk_compareFiles hcontents] at hcompared
    exact Option.isNone_iff_eq_none.mp hcompared

variable (world request) in
theorem readRenamed_of_compared (change : FileChange)
    (h : (change.isRenamed && compared world request change) = true) :
    readRenamed world request change = true := by
  cases change with
  | renamed oldPath newPath => exact isOk_readContents h
  | _ => cases h

/-- The counts account for the files exactly if no renamed file fails after its contents have been
read. -/
theorem accounted_iff (world : World) (request : Request) (changes : List FileChange) :
    Accounted world request changes (gitdiffWorkspace world request changes) ↔
      RenamesCompare world request changes := by
  obtain ⟨htotal, hfiles, hmodified, hrenamed, hskipped⟩ :=
    gitdiffWorkspace_counts world request changes
  rw [renamesCompare_iff]
  have hcount := Lists.countP_eq_countP_iff (l := processed request changes)
    fun change _ => readRenamed_of_compared world request change
  constructor
  · intro h
    exact hcount.mp (h.renamed.symm.trans hrenamed)
  · intro h
    refine ⟨hfiles, htotal.trans hfiles.symm, hmodified, hrenamed.trans (hcount.mpr h).symm, ?_⟩
    rw [hskipped]
    refine congrArg (_ + ·) (List.countP_congr fun change hchange => ?_)
    cases change with
    | added path => exact Iff.rfl
    | deleted path | typeChanged path => exact Iff.rfl
    | modified path => exact (Bool.or_false _ ▸ Iff.rfl)
    | renamed oldPath newPath =>
        have hsame : readRenamed world request (.renamed oldPath newPath) =
            compared world request (.renamed oldPath newPath) :=
          Bool.eq_iff_iff.mpr ⟨h _ hchange, isOk_readContents⟩
        change (!readRenamed world request (.renamed oldPath newPath)) = true ↔
          (!compared world request (.renamed oldPath newPath) || false) = true
        rw [hsame, Bool.or_false]

end GitDiff
end CleanCtx
