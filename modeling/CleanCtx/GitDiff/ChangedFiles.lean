import CleanCtx.GitDiff.Engine
import CleanCtx.Library.CQuote
import CleanCtx.Library.Decimal
import CleanCtx.Library.Utf8
import Mathlib.Data.List.DropRight
import Mathlib.Data.List.Sort
import Mathlib.Data.String.Basic

/-!
The files that changed between two refs (`gitdiff/workspace.rs`), as they are read from what
git prints. A name is printed in quotes if it has to be, and it is read as it is printed. A
line is read without the white space at its end.
-/
namespace CleanCtx
namespace GitDiff

inductive CleanCtxError
  | config (text : String)
  | internal (text : String)
  deriving DecidableEq

namespace FileChange

def currentPath : FileChange → String
  | added path | modified path | deleted path | typeChanged path => path
  | renamed _ newPath => newPath

def baselinePath : FileChange → String
  | added path | modified path | deleted path | typeChanged path => path
  | renamed oldPath _ => oldPath

end FileChange

section Parsing

def isAsciiAlphanumeric (b : UInt8) : Bool := (Char.ofNat b.toNat).isAlphanum

/-- `gitdiff/refs.rs`. -/
def validateRef (reference : String) : Except CleanCtxError Unit :=
  match utf8 reference with
  | [] => .error (.config "git ref must not be empty")
  | first :: rest =>
      if !isAsciiAlphanumeric first then
        .error (.config ("invalid git ref '" ++ reference ++
          "': must start with an alphanumeric character"))
      else
        match rest.find? fun b =>
            !(isAsciiAlphanumeric b || ['.', '_', '/', '-', '~'].contains (Char.ofNat b.toNat)) with
        | some b => .error (.config ("invalid git ref '" ++ reference ++
            "': contains disallowed character '" ++ String.singleton (Char.ofNat b.toNat) ++ "'"))
        | none => .ok ()

def validateGitPath (path : List Char) : Except CleanCtxError Unit :=
  if path.isEmpty then .error (.config "git path must not be empty")
  else if path.head? = some '/' ∨ path.head? = some '-' then
    .error (.config ("invalid git path '" ++ String.ofList path ++
      "': must be relative and not start with '-'"))
  else
    match path with
    | drive :: ':' :: _ =>
        if drive.isAlpha then
          .error (.config ("invalid git path '" ++ String.ofList path ++
            "': absolute paths are not allowed"))
        else .ok ()
    | _ => .ok ()

/-- `str::trim_end`. -/
def trimLine (line : List Char) : List Char := line.rdropWhile isWhiteSpace

def statusChange (status path1 : List Char) (path2 : Option (List Char)) : List FileChange :=
  match status with
  | ['A'] => [.added (String.ofList path1)]
  | ['M'] => [.modified (String.ofList path1)]
  | ['D'] => [.deleted (String.ofList path1)]
  | ['T'] => [.typeChanged (String.ofList path1)]
  | 'R' :: _ => [.renamed (String.ofList path1) (String.ofList (path2.getD []))]
  | _ => []

/-- One line of `git diff --name-status`. -/
def parseStatusLine (line : List Char) : Except CleanCtxError (List FileChange) := do
  let line := trimLine line
  if line.isEmpty then return []
  let parts := line.splitOn '\t'
  let status := parts.headD []
  let path1 := parts.tail.headD []
  let path2 := parts.tail.tail.head?
  validateGitPath path1
  if let some path2 := path2 then
    validateGitPath path2
  return statusChange status path1 path2

/-- One line of `git ls-files`. -/
def parseUntrackedLine (existingPaths : List String) (line : List Char) :
    Except CleanCtxError (List FileChange) := do
  let path := trimLine line
  if path.isEmpty ∨ String.ofList path ∈ existingPaths then return []
  validateGitPath path
  return [.added (String.ofList path)]

/-- `run_git` is a parameter. -/
def collectChangedFiles (runGit : List String → Except CleanCtxError String) (fromRef : String)
    (toRef : Option String) : Except CleanCtxError (List FileChange) := do
  validateRef fromRef
  if let some toRef := toRef then
    validateRef toRef
  let output ← runGit (["diff", "--name-status", "--find-renames", "--end-of-options", fromRef] ++
    toRef.toList)
  let changes ← (lines output.toList).mapM parseStatusLine
  let changes := changes.flatten
  let untracked ←
    match toRef with
    | some _ => pure []
    | none => do
        let output ← runGit ["ls-files", "--others", "--exclude-standard", "--end-of-options"]
        let existingPaths := changes.map (·.currentPath)
        let added ← (lines output.toList).mapM (parseUntrackedLine existingPaths)
        pure added.flatten
  return (changes ++ untracked).insertionSort fun a b => a.currentPath ≤ b.currentPath

end Parsing

section Printing

/-- A path in a repository. -/
structure GitPath where
  text : String
  nonempty : text ≠ ""
  deriving DecidableEq

/-- A change that git reports. -/
inductive Change
  | added (path : GitPath)
  | modified (path : GitPath)
  | deleted (path : GitPath)
  | typeChanged (path : GitPath)
  | renamed (similarity : Nat) (oldPath newPath : GitPath)
  | copied (similarity : Nat) (oldPath newPath : GitPath) (distinct : oldPath ≠ newPath)

namespace Change

/-- The letter, with the similarity of a rename or a copy as three digits. -/
def status : Change → List Char
  | added _ => ['A']
  | modified _ => ['M']
  | deleted _ => ['D']
  | typeChanged _ => ['T']
  | renamed similarity _ _ => 'R' :: digits similarity
  | copied similarity _ _ _ => 'C' :: digits similarity
where
  digits (similarity : Nat) : List Char :=
    List.replicate (3 - similarity.repr.toList.length) '0' ++ similarity.repr.toList

def paths : Change → List GitPath
  | added path | modified path | deleted path | typeChanged path => [path]
  | renamed _ oldPath newPath | copied _ oldPath newPath _ => [oldPath, newPath]

def currentPath : Change → GitPath
  | added path | modified path | deleted path | typeChanged path => path
  | renamed _ _ newPath | copied _ _ newPath _ => newPath

end Change

def GitPath.print (path : GitPath) : List Char := CQuote.print path.text.toList

def Change.line (change : Change) : List Char :=
  ['\t'].intercalate (change.status :: change.paths.map GitPath.print)

/-- What git finds: the changes, and the files that it does not track. -/
structure Repository where
  changes : List Change
  untracked : List GitPath

def printLines (lines : List (List Char)) : String := String.ofList (lines.flatMap (· ++ ['\n']))

def Repository.runGit (repository : Repository) :
    List String → Except CleanCtxError String
  | "diff" :: _ => .ok (printLines (repository.changes.map Change.line))
  | "ls-files" :: _ => .ok (printLines (repository.untracked.map GitPath.print))
  | _ => .error (.internal "git command failed")

end Printing

section Lines

variable {path oldPath newPath : GitPath} {change : Change} {c : Char}

theorem trimLine_append (front last : List Char) :
    trimLine (front ++ last) =
      if trimLine last = [] then trimLine front else front ++ trimLine last := by
  simp only [trimLine, List.rdropWhile, List.reverse_append, List.dropWhile_append,
    List.isEmpty_iff, List.reverse_eq_nil_iff]
  split
  · rfl
  · rw [List.reverse_append, List.reverse_reverse]

theorem trimLine_of_not_blank {text : List Char} (h : ∀ c ∈ text, isWhiteSpace c = false) :
    trimLine text = text := by
  rw [trimLine, List.rdropWhile_eq_self_iff]
  intro hne
  rw [h _ (List.getLast_mem hne)]
  exact Bool.false_ne_true

theorem not_blank_of_digit (h : c.isDigit = true) : isWhiteSpace c = false := by
  have hrange : 48 ≤ c.toNat ∧ c.toNat ≤ 57 := by
    simpa [Char.isDigit, UInt32.le_iff_toNat_le] using h
  have hother : c.toNat ∉ [0x20, 0x85, 0xA0, 0x1680, 0x2028, 0x2029, 0x202F, 0x205F, 0x3000] := by
    simp only [List.mem_cons, List.not_mem_nil, or_false]
    omega
  simp only [isWhiteSpace, Bool.or_eq_false_iff, Bool.and_eq_false_iff, decide_eq_false_iff_not]
  refine ⟨⟨by omega, by omega⟩, ?_⟩
  simpa using hother

theorem Change.not_blank_status (change : Change) : ∀ c ∈ change.status, isWhiteSpace c = false := by
  have hdigits : ∀ similarity, ∀ c ∈ Change.status.digits similarity, isWhiteSpace c = false := by
    intro similarity c hc
    rcases List.mem_append.mp hc with hc | hc
    · cases List.eq_of_mem_replicate hc
      rfl
    · exact not_blank_of_digit (Decimal.isDigit_of_mem_repr hc)
  cases change <;> rw [Change.status]
  case renamed similarity _ _ => exact List.forall_mem_cons.mpr ⟨rfl, hdigits similarity⟩
  case copied similarity _ _ _ => exact List.forall_mem_cons.mpr ⟨rfl, hdigits similarity⟩
  all_goals exact List.forall_mem_cons.mpr ⟨rfl, nofun⟩

theorem Change.status_ne_nil (change : Change) : change.status ≠ [] := by
  cases change <;> exact List.cons_ne_nil _ _

/-- A line ends, and a field of a line, where white space that is not a blank stands. -/
theorem not_mem_of_printable {text : List Char} (h : ∀ c ∈ text, CQuote.Printable c)
    (hc : c.toNat < 0x20) : c ∉ text := fun hmem => absurd (h c hmem).1 (Nat.not_le.mpr hc)

theorem GitPath.printable (path : GitPath) : ∀ c ∈ path.print, CQuote.Printable c :=
  CQuote.printable_print path.text.toList

def GitPath.shown (path : GitPath) : List Char := trimLine path.print

theorem GitPath.printable_shown (path : GitPath) : ∀ c ∈ path.shown, CQuote.Printable c :=
  fun c hc => path.printable c ((List.rdropWhile_prefix _ _).subset hc)

theorem Change.tab_not_mem_status (change : Change) : '\t' ∉ change.status := fun h =>
  absurd (change.not_blank_status _ h) (by decide)

theorem tab_not_mem {text : List Char} (h : ∀ c ∈ text, CQuote.Printable c) : '\t' ∉ text :=
  not_mem_of_printable h (by decide)

/-- The fields of a line with one path, without the white space at its end. -/
theorem fields_one (change : Change) (path : GitPath) :
    (trimLine (change.status ++ '\t' :: path.print)).splitOn '\t' =
      change.status :: if path.shown = [] then [] else [path.shown] := by
  have hstatus := trimLine_of_not_blank change.not_blank_status
  have htab : trimLine ['\t'] = [] := rfl
  rw [show change.status ++ '\t' :: path.print = (change.status ++ ['\t']) ++ path.print by simp,
    trimLine_append, trimLine_append, htab, if_pos rfl, hstatus, ← GitPath.shown]
  split
  · exact List.splitOn_eq_singleton change.tab_not_mem_status
  · rw [List.append_assoc, List.singleton_append,
      List.splitOn_append_cons_self_of_not_mem change.tab_not_mem_status,
      List.splitOn_eq_singleton (tab_not_mem path.printable_shown)]

/-- The fields of a line with two paths. -/
theorem fields_two (change : Change) (oldPath newPath : GitPath) :
    (trimLine (change.status ++ '\t' :: (oldPath.print ++ '\t' :: newPath.print))).splitOn '\t' =
      change.status :: if newPath.shown = [] then if oldPath.shown = [] then [] else [oldPath.shown]
        else [oldPath.print, newPath.shown] := by
  have htab : trimLine ['\t'] = [] := rfl
  rw [show change.status ++ '\t' :: (oldPath.print ++ '\t' :: newPath.print) =
      ((change.status ++ '\t' :: oldPath.print) ++ ['\t']) ++ newPath.print by simp,
    trimLine_append, trimLine_append, htab, if_pos rfl, ← GitPath.shown]
  split
  · exact fields_one change oldPath
  · rw [List.append_assoc, List.singleton_append, List.append_assoc, List.cons_append,
      List.splitOn_append_cons_self_of_not_mem change.tab_not_mem_status,
      List.splitOn_append_cons_self_of_not_mem (tab_not_mem oldPath.printable),
      List.splitOn_eq_singleton (tab_not_mem newPath.printable_shown)]

def Change.readBack : Change → Except CleanCtxError (List FileChange)
  | added path => one path .added
  | modified path => one path .modified
  | deleted path => one path .deleted
  | typeChanged path => one path .typeChanged
  | renamed _ oldPath newPath => two oldPath newPath fun old new => [.renamed old new]
  | copied _ oldPath newPath _ => two oldPath newPath fun _ _ => []
where
  one (path : GitPath) (kind : String → FileChange) : Except CleanCtxError (List FileChange) := do
    validateGitPath path.shown
    return [kind (String.ofList path.shown)]
  two (oldPath newPath : GitPath) (read : String → String → List FileChange) :
      Except CleanCtxError (List FileChange) := do
    if newPath.shown = [] then
      validateGitPath oldPath.shown
      return read (String.ofList oldPath.shown) ""
    else
      validateGitPath oldPath.print
      validateGitPath newPath.shown
      return read (String.ofList oldPath.print) (String.ofList newPath.shown)

theorem Change.trimLine_line_ne_nil {front : List Char} (change : Change) :
    (trimLine (change.status ++ front)).isEmpty = false := by
  rw [trimLine_append]
  split
  · rw [trimLine_of_not_blank change.not_blank_status]
    exact List.isEmpty_eq_false_iff.mpr change.status_ne_nil
  · exact List.isEmpty_eq_false_iff.mpr (List.append_ne_nil_of_left_ne_nil change.status_ne_nil _)

/-- A line that is not blank is read by its fields. -/
theorem parseStatusLine_eq {line status : List Char} {paths : List (List Char)}
    (hline : (trimLine line).isEmpty = false)
    (hfields : (trimLine line).splitOn '\t' = status :: paths) :
    parseStatusLine line = (do
      validateGitPath (paths.headD [])
      if let some path2 := paths.tail.head? then
        validateGitPath path2
      return statusChange status (paths.headD []) paths.tail.head?) := by
  rw [parseStatusLine]
  simp only [hline, hfields, Bool.false_eq_true, if_false, List.headD_cons, List.tail_cons]

theorem Change.line_one {change : Change} {path : GitPath} (h : change.paths = [path]) :
    change.line = change.status ++ '\t' :: path.print := by
  rw [Change.line, h, List.map_singleton, List.intercalate_cons_cons, List.intercalate_singleton,
    List.append_assoc, List.singleton_append]

theorem Change.line_two {change : Change} {oldPath newPath : GitPath}
    (h : change.paths = [oldPath, newPath]) :
    change.line = change.status ++ '\t' :: (oldPath.print ++ '\t' :: newPath.print) := by
  rw [Change.line, h]
  simp only [List.map_cons, List.map_nil, List.intercalate_cons_cons, List.intercalate_singleton,
    List.append_assoc, List.singleton_append]

/-- A line with one path. -/
theorem Change.parse_one {change : Change} {path : GitPath} {kind : String → FileChange}
    (hpaths : change.paths = [path])
    (hkind : ∀ path1 path2, statusChange change.status path1 path2 = [kind (String.ofList path1)]) :
    parseStatusLine change.line = readBack.one path kind := by
  have hfields := fields_one change path
  rw [← Change.line_one hpaths] at hfields
  rw [parseStatusLine_eq (Change.line_one hpaths ▸ change.trimLine_line_ne_nil) hfields, readBack.one]
  simp only [hkind]
  split
  · next hnil =>
    rw [hnil]
    rfl
  · rfl

/-- A line with two paths. -/
theorem Change.parse_two {change : Change} {oldPath newPath : GitPath}
    {read : String → String → List FileChange} (hpaths : change.paths = [oldPath, newPath])
    (hread : ∀ path1 path2, statusChange change.status path1 path2 =
      read (String.ofList path1) (String.ofList (path2.getD []))) :
    parseStatusLine change.line = readBack.two oldPath newPath read := by
  have hfields := fields_two change oldPath newPath
  rw [← Change.line_two hpaths] at hfields
  rw [parseStatusLine_eq (Change.line_two hpaths ▸ change.trimLine_line_ne_nil) hfields, readBack.two]
  simp only [hread]
  split
  · split
    · next hnil =>
      rw [hnil]
      rfl
    · rfl
  · rfl

theorem Change.parseStatusLine_line (change : Change) :
    parseStatusLine change.line = change.readBack := by
  cases change with
  | added path => exact parse_one rfl fun _ _ => rfl
  | modified path => exact parse_one rfl fun _ _ => rfl
  | deleted path => exact parse_one rfl fun _ _ => rfl
  | typeChanged path => exact parse_one rfl fun _ _ => rfl
  | renamed similarity oldPath newPath =>
      exact @parse_two (.renamed similarity oldPath newPath) oldPath newPath
        (fun old new => [.renamed old new]) rfl fun _ _ => rfl
  | copied similarity oldPath newPath distinct =>
      exact @parse_two (.copied similarity oldPath newPath distinct) oldPath newPath
        (fun _ _ => []) rfl fun _ _ => rfl

theorem lines_printLines {ls : List (List Char)} (hl : ∀ l ∈ ls, '\n' ∉ l)
    (hr : ∀ l ∈ ls, '\r' ∉ l) : lines (printLines ls).toList = ls := by
  rw [printLines, String.toList_ofList]
  exact lines_ended hl hr

theorem Change.not_mem_line (change : Change) (hwhite : isWhiteSpace c = true)
    (hcontrol : c.toNat < 0x20) (htab : c ≠ '\t') : c ∉ change.line := by
  have hstatus : c ∉ change.status := fun h => by
    rw [change.not_blank_status c h] at hwhite
    cases hwhite
  have hpath : ∀ path : GitPath, c ∉ path.print := fun path =>
    not_mem_of_printable path.printable hcontrol
  have hpaths : (∃ path, change.paths = [path]) ∨
      ∃ oldPath newPath, change.paths = [oldPath, newPath] := by
    cases change <;> simp [Change.paths]
  rcases hpaths with ⟨path, hone⟩ | ⟨oldPath, newPath, htwo⟩
  · rw [Change.line_one hone]
    simp [hstatus, hpath, htab]
  · rw [Change.line_two htwo]
    simp [hstatus, hpath, htab]

end Lines

section Collecting

variable {repository : Repository} {fromRef : String} {toRef : Option String}

theorem parseUntrackedLine_print (existingPaths : List String) (path : GitPath) :
    parseUntrackedLine existingPaths path.print = (do
      if path.shown.isEmpty ∨ String.ofList path.shown ∈ existingPaths then return []
      validateGitPath path.shown
      return [.added (String.ofList path.shown)]) := rfl

def Repository.readUntracked (repository : Repository) (toRef : Option String)
    (existingPaths : List String) : Except CleanCtxError (List (List FileChange)) :=
  match toRef with
  | some _ => .ok []
  | none => repository.untracked.mapM fun path => parseUntrackedLine existingPaths path.print

/-- What is collected from the lines that git prints. -/
theorem collectChangedFiles_eq (hfrom : validateRef fromRef = .ok ())
    (hto : ∀ name ∈ toRef, validateRef name = .ok ()) :
    collectChangedFiles repository.runGit fromRef toRef = (do
      let changes ← repository.changes.mapM Change.readBack
      let untracked ← repository.readUntracked toRef (changes.flatten.map (·.currentPath))
      return (changes.flatten ++ untracked.flatten).insertionSort
        fun a b => a.currentPath ≤ b.currentPath) := by
  have hchanges : lines (printLines (repository.changes.map Change.line)).toList =
      repository.changes.map Change.line := by
    refine lines_printLines (fun l hl => ?_) fun l hl => ?_
    · obtain ⟨change, -, rfl⟩ := List.mem_map.mp hl
      exact change.not_mem_line rfl (by decide) (by decide)
    · obtain ⟨change, -, rfl⟩ := List.mem_map.mp hl
      exact change.not_mem_line rfl (by decide) (by decide)
  have huntracked : lines (printLines (repository.untracked.map GitPath.print)).toList =
      repository.untracked.map GitPath.print := by
    refine lines_printLines (fun l hl => ?_) fun l hl => ?_
    · obtain ⟨path, -, rfl⟩ := List.mem_map.mp hl
      exact not_mem_of_printable path.printable (by decide)
    · obtain ⟨path, -, rfl⟩ := List.mem_map.mp hl
      exact not_mem_of_printable path.printable (by decide)
  have hread : (repository.changes.map Change.line).mapM parseStatusLine =
      repository.changes.mapM Change.readBack := by
    rw [List.mapM_map]
    refine congrArg (fun f => List.mapM f repository.changes) (funext fun change => ?_)
    exact change.parseStatusLine_line
  have hdiff : repository.runGit (["diff", "--name-status", "--find-renames", "--end-of-options",
      fromRef] ++ toRef.toList) = .ok (printLines (repository.changes.map Change.line)) := rfl
  have hls : repository.runGit ["ls-files", "--others", "--exclude-standard",
      "--end-of-options"] = .ok (printLines (repository.untracked.map GitPath.print)) := rfl
  have hok : ∀ {α β : Type} (a : α) (f : α → Except CleanCtxError β),
      (Except.ok a >>= f) = f a := fun _ _ => rfl
  rw [collectChangedFiles, hfrom, hok, hdiff, hls]
  cases toRef with
  | some name =>
      dsimp only
      rw [hto name rfl, hok, hok, hchanges, hread]
      rfl
  | none =>
      dsimp only
      rw [hok, hchanges, hread]
      refine congrArg (repository.changes.mapM Change.readBack >>= ·) (funext fun changes => ?_)
      rw [hok, huntracked, List.mapM_map]
      rfl

theorem bind_eq_ok {α β ε : Type} {x : Except ε α} {f : α → Except ε β} {b : β} :
    (x >>= f) = .ok b ↔ ∃ a, x = .ok a ∧ f a = .ok b := by
  cases x with
  | error error =>
      refine iff_of_false nofun ?_
      rintro ⟨_, h, -⟩
      cases h
  | ok a =>
      refine ⟨fun h => ⟨a, rfl, h⟩, ?_⟩
      rintro ⟨_, h, hf⟩
      cases h
      exact hf

/-- The answer, as the rows that the lines were read as. -/
theorem collectChangedFiles_ok (hfrom : validateRef fromRef = .ok ())
    (hto : ∀ name ∈ toRef, validateRef name = .ok ()) {files : List FileChange} :
    collectChangedFiles repository.runGit fromRef toRef = .ok files ↔
      ∃ rows added, repository.changes.mapM Change.readBack = .ok rows ∧
        repository.readUntracked toRef (rows.flatten.map (·.currentPath)) = .ok added ∧
        (rows.flatten ++ added.flatten).insertionSort (fun a b => a.currentPath ≤ b.currentPath) =
          files := by
  rw [collectChangedFiles_eq hfrom hto, bind_eq_ok]
  refine exists_congr fun rows => ?_
  rw [exists_and_left]
  refine and_congr_right fun _ => ?_
  rw [bind_eq_ok]
  exact exists_congr fun added => and_congr_right fun _ => ⟨Except.ok.inj, congrArg Except.ok⟩

end Collecting

end GitDiff
end CleanCtx
