import Mathlib.Algebra.Ring.Nat
import CleanCtx.GitDiff.ChangedFiles
import Mathlib.Algebra.Order.BigOperators.Group.List
import Mathlib.Data.Finset.Max

/-!
When the files that are collected are those that git reported. A line that is read as
printed gives back its path exactly if the path needs no quotes and has no white space
where the line ends. One path that comes back changed cannot be made up for by another: a
quoted path would have to be the path of another file, which is quoted again, and of paths
that are only ever shortened none can be.
-/
namespace CleanCtx
namespace GitDiff

section Reported

def Reports : Change → FileChange → Prop
  | .added path, file => file = .added path.text
  | .modified path, file => file = .modified path.text
  | .deleted path, file => file = .deleted path.text
  | .typeChanged path, file => file = .typeChanged path.text
  | .renamed _ oldPath newPath, file => file = .renamed oldPath.text newPath.text
  | .copied _ oldPath newPath _, file =>
      file.baselinePath = oldPath.text ∧ file.currentPath = newPath.text

namespace Repository

variable (repository : Repository) (toRef : Option String)

/-- The untracked files that are not reported already, for a comparison with the work tree. -/
def unreported : List GitPath :=
  match toRef with
  | some _ => []
  | none => repository.untracked.filter (· ∉ repository.changes.map Change.currentPath)

def reported : List Change := repository.changes ++ (repository.unreported toRef).map .added

/-- Every file is collected once, with its paths, in the order of the current paths. -/
def CollectedAs (outcome : Except CleanCtxError (List FileChange)) : Prop :=
  ∃ files, outcome = .ok files ∧ files.Pairwise (·.currentPath ≤ ·.currentPath) ∧
    ∃ found, files.Perm found ∧ List.Forall₂ Reports (repository.reported toRef) found

end Repository

/-- The path is printed as it is, and accepted. -/
def GitPath.Plain (path : GitPath) : Prop :=
  path.text.toList.any CQuote.special = false ∧ validateGitPath path.text.toList = .ok ()

def GitPath.Ends (path : GitPath) : Prop := trimLine path.text.toList = path.text.toList

def Change.Readable : Change → Prop
  | .added path | .modified path | .deleted path | .typeChanged path => path.Plain ∧ path.Ends
  | .renamed _ oldPath newPath => oldPath.Plain ∧ newPath.Plain ∧ newPath.Ends
  | .copied _ _ _ _ => False

def Repository.Readable (repository : Repository) (toRef : Option String) : Prop :=
  (∀ change ∈ repository.changes, change.Readable) ∧
    (toRef = none → ∀ path ∈ repository.untracked, path.Plain ∧ path.Ends)

end Reported

section Reading

variable {path oldPath newPath : GitPath} {change : Change} {row : List FileChange}
  {existingPaths : List String}

def Change.isRenamed : Change → Bool
  | renamed _ _ _ => true
  | _ => false

def Change.isCopied : Change → Bool
  | copied _ _ _ _ => true
  | _ => false

def Change.file : Change → FileChange
  | added path => .added path.text
  | modified path => .modified path.text
  | deleted path => .deleted path.text
  | typeChanged path => .typeChanged path.text
  | renamed _ oldPath newPath | copied _ oldPath newPath _ => .renamed oldPath.text newPath.text

def Change.seen : Change → FileChange
  | added path => .added (String.ofList path.shown)
  | modified path => .modified (String.ofList path.shown)
  | deleted path => .deleted (String.ofList path.shown)
  | typeChanged path => .typeChanged (String.ofList path.shown)
  | renamed _ oldPath newPath | copied _ oldPath newPath _ =>
      .renamed (String.ofList (if newPath.shown = [] then oldPath.shown else oldPath.print))
        (String.ofList newPath.shown)

theorem readBack_one {kind : String → FileChange} :
    Change.readBack.one path kind = .ok row ↔
      validateGitPath path.shown = .ok () ∧ row = [kind (String.ofList path.shown)] := by
  rw [Change.readBack.one]
  cases validateGitPath path.shown with
  | error error => exact iff_of_false (by rintro ⟨⟩) (by rintro ⟨⟨⟩, -⟩)
  | ok _ => exact ⟨fun h => ⟨rfl, (Except.ok.inj h).symm⟩, fun h => congrArg Except.ok h.2.symm⟩

theorem readBack_two {read : String → String → List FileChange} :
    Change.readBack.two oldPath newPath read = .ok row ↔
      (newPath.shown = [] → validateGitPath oldPath.shown = .ok ()) ∧
      (newPath.shown ≠ [] → validateGitPath oldPath.print = .ok () ∧
        validateGitPath newPath.shown = .ok ()) ∧
      row = read (String.ofList (if newPath.shown = [] then oldPath.shown else oldPath.print))
        (String.ofList newPath.shown) := by
  rw [Change.readBack.two]
  by_cases hnew : newPath.shown = []
  · rw [if_pos hnew, if_pos hnew, hnew]
    cases validateGitPath oldPath.shown with
    | error error => exact iff_of_false (by rintro ⟨⟩) fun h => by cases h.1 rfl
    | ok _ =>
        refine ⟨fun h => ⟨fun _ => rfl, fun h => absurd rfl h, (Except.ok.inj h).symm⟩, fun h => ?_⟩
        exact congrArg Except.ok h.2.2.symm
  · rw [if_neg hnew, if_neg hnew]
    cases validateGitPath oldPath.print with
    | error error => exact iff_of_false (by rintro ⟨⟩) fun h => by cases (h.2.1 hnew).1
    | ok _ =>
        cases validateGitPath newPath.shown with
        | error error => exact iff_of_false (by rintro ⟨⟩) fun h => by cases (h.2.1 hnew).2
        | ok _ =>
            refine ⟨fun h => ⟨fun h => absurd h hnew, fun _ => ⟨rfl, rfl⟩,
              (Except.ok.inj h).symm⟩, fun h => ?_⟩
            exact congrArg Except.ok h.2.2.symm

/-- A line gives no file for a copy and one for every other change. -/
theorem Change.row_of_readBack (h : change.readBack = .ok row) :
    row = if change.isCopied then [] else [change.seen] := by
  cases change with
  | added path => exact (readBack_one.mp h).2
  | modified path => exact (readBack_one.mp h).2
  | deleted path => exact (readBack_one.mp h).2
  | typeChanged path => exact (readBack_one.mp h).2
  | renamed similarity oldPath newPath =>
      exact ((@readBack_two oldPath newPath row fun old new => [.renamed old new]).mp h).2.2
  | copied similarity oldPath newPath distinct =>
      exact ((@readBack_two oldPath newPath row fun _ _ => []).mp h).2.2

def GitPath.kept (existingPaths : List String) (path : GitPath) : Bool :=
  path.shown ≠ [] ∧ String.ofList path.shown ∉ existingPaths

theorem parseUntrackedLine_ok :
    parseUntrackedLine existingPaths path.print = .ok row ↔
      (path.kept existingPaths = true → validateGitPath path.shown = .ok ()) ∧
        row = if path.kept existingPaths then [.added (String.ofList path.shown)] else [] := by
  rw [parseUntrackedLine_print]
  by_cases hkept : path.kept existingPaths = true
  · have hskip : ¬(path.shown.isEmpty = true ∨ String.ofList path.shown ∈ existingPaths) := by
      obtain ⟨hne, hnew⟩ := of_decide_eq_true hkept
      exact not_or.mpr ⟨fun h => hne (List.isEmpty_iff.mp h), hnew⟩
    rw [if_neg hskip, if_pos hkept]
    cases validateGitPath path.shown with
    | error error => exact iff_of_false nofun (fun h => nomatch h.1 hkept)
    | ok _ =>
        exact ⟨fun h => ⟨fun _ => rfl, (Except.ok.inj h).symm⟩, fun h => congrArg Except.ok h.2.symm⟩
  · have hskip : path.shown.isEmpty = true ∨ String.ofList path.shown ∈ existingPaths := by
      by_contra hboth
      obtain ⟨hne, hnew⟩ := not_or.mp hboth
      exact hkept (decide_eq_true ⟨fun h => hne (List.isEmpty_iff.mpr h), hnew⟩)
    rw [if_pos hskip, if_neg hkept]
    exact ⟨fun h => ⟨fun h => absurd h hkept, (Except.ok.inj h).symm⟩,
      fun h => congrArg Except.ok h.2.symm⟩

theorem flatten_of_mapM {α β ε : Type} {f : α → Except ε (List β)} {g : α → List β} {l : List α}
    {rows : List (List β)} (h : l.mapM f = .ok rows) (hg : ∀ a row, f a = .ok row → row = g a) :
    rows.flatten = l.flatMap g := by
  have hrows := Lists.mapM_eq_ok_iff.mp h
  clear h
  induction hrows with
  | nil => rfl
  | cons hrow _ ih => rw [List.flatten_cons, List.flatMap_cons, hg _ _ hrow, ih]

theorem flatMap_ite {α β : Type} (p : α → Bool) (f : α → β) (l : List α) :
    (l.flatMap fun a => if p a then [f a] else []) = (l.filter p).map f := by
  induction l with
  | nil => rfl
  | cons a l ih =>
      rw [List.flatMap_cons, ih, List.filter_cons]
      split <;> rfl

/-- What the changes are read as. -/
theorem flatten_readBack {changes : List Change} {rows : List (List FileChange)}
    (h : changes.mapM Change.readBack = .ok rows) :
    rows.flatten = (changes.filter (!·.isCopied)).map Change.seen := by
  rw [flatten_of_mapM h fun _ _ => Change.row_of_readBack, ← flatMap_ite]
  refine congrArg (List.flatMap · changes) (funext fun change => ?_)
  cases change.isCopied <;> rfl

/-- What the untracked files are read as. -/
theorem flatten_readUntracked {repository : Repository} {added : List (List FileChange)}
    (h : repository.readUntracked none existingPaths = .ok added) :
    added.flatten = (repository.untracked.filter (GitPath.kept existingPaths)).map fun path =>
      .added (String.ofList path.shown) := by
  rw [flatten_of_mapM h fun _ _ hrow => (parseUntrackedLine_ok.mp hrow).2]
  exact flatMap_ite _ _ _

end Reading

section Copies

variable {change : Change} {file : FileChange} {reported : List Change} {found : List FileChange}

theorem GitPath.text_inj {path path' : GitPath} (h : path.text = path'.text) : path = path' := by
  cases path
  cases path'
  cases h
  rfl

theorem Reports.isRenamed (h : Reports change file) :
    file.isRenamed = (change.isRenamed || change.isCopied) := by
  cases change with
  | copied similarity oldPath newPath distinct =>
      obtain ⟨hold, hnew⟩ := h
      cases file with
      | renamed _ _ => rfl
      | _ => exact absurd (GitPath.text_inj (hold.symm.trans hnew)) distinct
  | _ =>
      cases h
      rfl

theorem Reports.eq_file (h : Reports change file) (hcopy : change.isCopied = false) :
    file = change.file := by
  cases change with
  | copied _ _ _ _ => cases hcopy
  | _ => exact h

theorem countP_renamed (h : List.Forall₂ Reports reported found) :
    found.countP FileChange.isRenamed =
      reported.countP fun change => change.isRenamed || change.isCopied := by
  induction h with
  | nil => rfl
  | cons hfile _ ih => rw [List.countP_cons, List.countP_cons, ih, hfile.isRenamed]

theorem found_eq (h : List.Forall₂ Reports reported found)
    (hcopies : ∀ change ∈ reported, change.isCopied = false) :
    found = reported.map Change.file := by
  induction h with
  | nil => rfl
  | cons hfile _ ih =>
      obtain ⟨hcopy, hcopies⟩ := List.forall_mem_cons.mp hcopies
      rw [List.map_cons, hfile.eq_file hcopy, ih hcopies]

theorem Change.seen_isRenamed (h : change.isCopied = false) :
    change.seen.isRenamed = change.isRenamed := by
  cases change with
  | copied _ _ _ _ => cases h
  | _ => rfl

theorem countP_seen (changes : List Change) :
    ((changes.filter (!·.isCopied)).map Change.seen).countP FileChange.isRenamed =
      changes.countP Change.isRenamed := by
  rw [List.countP_map, List.countP_filter]
  refine List.countP_congr fun change _ => ?_
  cases hcopy : change.isCopied with
  | true =>
      cases change with
      | copied _ _ _ _ => simp [Change.isRenamed]
      | _ => cases hcopy
  | false => simp [Change.seen_isRenamed hcopy]

theorem countP_added {α : Type} (paths : List α) (text : α → String) :
    (paths.map fun path => FileChange.added (text path)).countP FileChange.isRenamed = 0 := by
  rw [List.countP_map]
  exact List.countP_eq_zero.mpr fun _ _ => Bool.false_ne_true

/-- A copy is missing from what is collected, and nothing can stand for it. -/
theorem no_copies {changes : List Change} {unreported : List GitPath} {kept : List FileChange}
    (hkept : kept.countP FileChange.isRenamed = 0)
    (hfound : List.Forall₂ Reports (changes ++ unreported.map Change.added) found)
    (hperm : ((changes.filter (!·.isCopied)).map Change.seen ++ kept).Perm found) :
    ∀ change ∈ changes, change.isCopied = false := by
  have hcount := hperm.countP_eq FileChange.isRenamed
  have hadded : (unreported.map Change.added).countP
      (fun change => change.isRenamed || change.isCopied) = 0 := by
    rw [List.countP_map]
    exact List.countP_eq_zero.mpr fun _ _ => Bool.false_ne_true
  rw [countP_renamed hfound, List.countP_append, List.countP_append, countP_seen, hkept, hadded,
    Nat.add_zero, Nat.add_zero,
    Lists.countP_eq_countP_iff fun change _ hrenamed => by rw [hrenamed]; rfl] at hcount
  intro change hchange
  cases change with
  | copied similarity oldPath newPath distinct => exact absurd (hcount _ hchange rfl) Bool.false_ne_true
  | _ => rfl

end Copies

section Paths

variable {change : Change} {path : GitPath} {reported : List Change}

def FileChange.paths : FileChange → List String
  | added path | modified path | deleted path | typeChanged path => [path]
  | renamed oldPath newPath => [oldPath, newPath]

theorem Change.file_paths (change : Change) : change.file.paths = change.paths.map (·.text) := by
  cases change <;> rfl

theorem Change.seen_currentPath (change : Change) :
    change.seen.currentPath = String.ofList change.currentPath.shown := by
  cases change <;> rfl

theorem Change.file_currentPath (change : Change) :
    change.file.currentPath = change.currentPath.text := by
  cases change <;> rfl

theorem GitPath.print_of_plain (h : path.text.toList.any CQuote.special = false) :
    path.print = path.text.toList := CQuote.print_of_plain h

theorem GitPath.shown_of_special (h : path.text.toList.any CQuote.special = true) :
    path.shown = path.print := by
  rw [GitPath.shown, trimLine, List.rdropWhile_eq_self_iff]
  intro hne hblank
  have hlast := CQuote.getLast?_print h
  rw [← GitPath.print, List.getLast?_eq_some_getLast hne] at hlast
  rw [Option.some.inj hlast] at hblank
  exact absurd hblank (by decide)

/-- A path in quotes is read with its quotes. -/
theorem Change.print_mem_seen (hpath : path ∈ change.paths)
    (h : path.text.toList.any CQuote.special = true) :
    String.ofList path.print ∈ change.seen.paths := by
  have hshown := GitPath.shown_of_special h
  have hpair : ∀ oldPath newPath : GitPath, path ∈ [oldPath, newPath] →
      String.ofList path.print ∈ [String.ofList (if newPath.shown = [] then oldPath.shown
        else oldPath.print), String.ofList newPath.shown] := by
    intro oldPath newPath hmem
    rcases List.mem_pair.mp hmem with rfl | rfl
    · rw [hshown, ite_self]
      exact List.mem_cons_self
    · rw [hshown]
      exact List.mem_cons_of_mem _ List.mem_cons_self
  cases change with
  | renamed similarity oldPath newPath => exact hpair oldPath newPath hpath
  | copied similarity oldPath newPath distinct => exact hpair oldPath newPath hpath
  | _ =>
      cases List.mem_singleton.mp hpath
      exact List.mem_singleton.mpr (congrArg String.ofList hshown.symm)

/-- If the files come back as those of the changes, no path is in quotes: the longest such would
come back longer. -/
theorem plain_of_perm (h : (reported.map Change.seen).Perm (reported.map Change.file)) :
    ∀ change ∈ reported, ∀ path ∈ change.paths, path.text.toList.any CQuote.special = false := by
  let quoted := ((reported.flatMap Change.paths).filter (·.text.toList.any CQuote.special)).toFinset
  have hquoted : ∀ path, path ∈ quoted ↔
      (∃ change ∈ reported, path ∈ change.paths) ∧ path.text.toList.any CQuote.special = true := by
    intro path
    rw [List.mem_toFinset, List.mem_filter, List.mem_flatMap]
  have hlonger : ∀ path ∈ quoted, ∃ other ∈ quoted,
      path.text.toList.length < other.text.toList.length := by
    intro path hpath
    obtain ⟨⟨change, hchange, hmem⟩, hspecial⟩ := (hquoted path).mp hpath
    obtain ⟨source, hsource, hfile⟩ :=
      List.mem_map.mp (h.subset (List.mem_map.mpr ⟨change, hchange, rfl⟩))
    have hseen := Change.print_mem_seen hmem hspecial
    rw [← hfile, Change.file_paths] at hseen
    obtain ⟨other, hother, htext⟩ := List.mem_map.mp hseen
    have hprint : other.text.toList = path.print := by rw [htext, String.toList_ofList]
    refine ⟨other, (hquoted other).mpr ⟨⟨source, hsource, hother⟩, ?_⟩, ?_⟩
    · rw [hprint]
      exact CQuote.special_print hspecial
    · rw [hprint]
      exact CQuote.length_lt_print hspecial
  intro change hchange path hpath
  by_contra hspecial
  rw [Bool.not_eq_false] at hspecial
  have hmem := (hquoted path).mpr ⟨⟨change, hchange, hpath⟩, hspecial⟩
  obtain ⟨longest, hlongest, hmax⟩ :=
    quoted.exists_max_image (·.text.toList.length) ⟨path, hmem⟩
  obtain ⟨other, hother, hlt⟩ := hlonger longest hlongest
  exact absurd (hmax other hother) (Nat.not_le.mpr hlt)

theorem eq_of_sum_map_eq {α : Type} {f g : α → Nat} {l : List α} (hle : ∀ a ∈ l, f a ≤ g a)
    (h : (l.map f).sum = (l.map g).sum) : ∀ a ∈ l, f a = g a := by
  induction l with
  | nil => nofun
  | cons a l ih =>
      obtain ⟨hfirst, hrest⟩ := List.forall_mem_cons.mp hle
      have hsum : (l.map f).sum ≤ (l.map g).sum := List.sum_le_sum hrest
      rw [List.map_cons, List.map_cons, List.sum_cons, List.sum_cons] at h
      exact List.forall_mem_cons.mpr ⟨by omega, ih hrest (by omega)⟩

theorem Change.currentPath_mem (change : Change) : change.currentPath ∈ change.paths := by
  cases change <;> simp [Change.currentPath, Change.paths]

/-- If the files come back as those of the changes, no current path ends in white space: paths
without quotes do not get longer. -/
theorem ends_of_perm (h : (reported.map Change.seen).Perm (reported.map Change.file)) :
    ∀ change ∈ reported, change.currentPath.Ends := by
  have hplain : ∀ change ∈ reported, change.currentPath.print = change.currentPath.text.toList :=
    fun change hchange => GitPath.print_of_plain
      (plain_of_perm h change hchange change.currentPath change.currentPath_mem)
  have hstart : ∀ change ∈ reported,
      change.currentPath.shown <+: change.currentPath.text.toList := by
    intro change hchange
    rw [GitPath.shown, hplain change hchange]
    exact List.rdropWhile_prefix _ _
  have hsum := (h.map fun file => file.currentPath.toList.length).sum_eq
  rw [List.map_map, List.map_map] at hsum
  have hlength : ∀ change ∈ reported, change.currentPath.shown.length =
      change.currentPath.text.toList.length := by
    refine eq_of_sum_map_eq (fun change hchange => (hstart change hchange).length_le) ?_
    refine Eq.trans (congrArg List.sum (List.map_congr_left fun change _ => ?_))
      (hsum.trans (congrArg List.sum (List.map_congr_left fun change _ => ?_)))
    · rw [Function.comp_apply, Change.seen_currentPath, String.toList_ofList]
    · rw [Function.comp_apply, Change.file_currentPath]
  intro change hchange
  rw [GitPath.Ends, ← hplain change hchange, ← GitPath.shown, hplain change hchange]
  exact (hstart change hchange).eq_of_length (hlength change hchange)

end Paths

section Agreement

variable {repository : Repository} {fromRef : String} {toRef : Option String} {change : Change}
  {path : GitPath} {row : List FileChange} {rows added : List (List FileChange)}

theorem GitPath.shown_of_plain (hplain : path.text.toList.any CQuote.special = false)
    (hends : path.Ends) : path.shown = path.text.toList := by
  rw [GitPath.shown, GitPath.print_of_plain hplain]
  exact hends

theorem GitPath.toList_ne_nil (path : GitPath) : path.text.toList ≠ [] := fun h =>
  path.nonempty (String.toList_inj.mp h)

theorem Change.Readable.currentPath (h : change.Readable) :
    change.currentPath.Plain ∧ change.currentPath.Ends := by
  cases change with
  | renamed _ _ _ => exact h.2
  | copied _ _ _ _ => exact h.elim
  | _ => exact h

/-- A change that comes back is read as it is. -/
theorem Change.readable_of_readBack (h : change.readBack = .ok row)
    (hcopy : change.isCopied = false)
    (hplain : ∀ path ∈ change.paths, path.text.toList.any CQuote.special = false)
    (hends : change.currentPath.Ends) : change.Readable := by
  have hone : ∀ (path : GitPath) (kind : String → FileChange),
      Change.readBack.one path kind = .ok row → path.text.toList.any CQuote.special = false →
      path.Ends → path.Plain ∧ path.Ends := by
    intro path kind hread hplain hends
    have hvalid := (readBack_one.mp hread).1
    rw [GitPath.shown_of_plain hplain hends] at hvalid
    exact ⟨⟨hplain, hvalid⟩, hends⟩
  cases change with
  | copied _ _ _ _ => cases hcopy
  | renamed similarity oldPath newPath =>
      have hread := (@readBack_two oldPath newPath row fun old new => [.renamed old new]).mp h
      have hold := hplain oldPath List.mem_cons_self
      have hnew := hplain newPath (List.mem_cons_of_mem _ List.mem_cons_self)
      have hshown := GitPath.shown_of_plain hnew hends
      obtain ⟨hvalidOld, hvalidNew⟩ := hread.2.1 (hshown ▸ newPath.toList_ne_nil)
      rw [GitPath.print_of_plain hold] at hvalidOld
      rw [hshown] at hvalidNew
      exact ⟨⟨hold, hvalidOld⟩, ⟨hnew, hvalidNew⟩, hends⟩
  | _ => exact hone _ _ h (hplain _ List.mem_cons_self) hends

theorem Change.Readable.readBack (h : change.Readable) : change.readBack = .ok [change.file] := by
  have hone : ∀ (path : GitPath) (kind : String → FileChange), path.Plain ∧ path.Ends →
      Change.readBack.one path kind = .ok [kind path.text] := by
    rintro path kind ⟨hplain, hends⟩
    have hshown := GitPath.shown_of_plain hplain.1 hends
    refine readBack_one.mpr ⟨hshown ▸ hplain.2, ?_⟩
    rw [hshown, String.ofList_toList]
  cases change with
  | copied _ _ _ _ => exact h.elim
  | renamed similarity oldPath newPath =>
      obtain ⟨hold, hnew, hends⟩ := h
      have hshown := GitPath.shown_of_plain hnew.1 hends
      have hne : newPath.shown ≠ [] := hshown ▸ newPath.toList_ne_nil
      refine (@readBack_two oldPath newPath _ fun old new => [.renamed old new]).mpr
        ⟨fun hnil => absurd hnil hne, fun _ => ?_, ?_⟩
      · rw [GitPath.print_of_plain hold.1, hshown]
        exact ⟨hold.2, hnew.2⟩
      · rw [if_neg hne, GitPath.print_of_plain hold.1, hshown, String.ofList_toList,
          String.ofList_toList]
        rfl
  | _ => exact hone _ _ h

theorem Change.Readable.isCopied (h : change.Readable) : change.isCopied = false := by
  cases change with
  | copied _ _ _ _ => exact h.elim
  | _ => rfl

theorem Change.Readable.seen (h : change.Readable) : change.seen = change.file := by
  have hrow := Change.row_of_readBack h.readBack
  rw [h.isCopied, if_neg Bool.false_ne_true] at hrow
  exact (List.singleton_inj.mp hrow).symm

def seenPaths (changes : List Change) : List String :=
  (changes.map Change.seen).map FileChange.currentPath

theorem GitPath.not_mem_of_kept {changes : List Change}
    (h : path.kept (seenPaths changes) = true) : path ∉ changes.map Change.currentPath := by
  intro hmem
  obtain ⟨change, hchange, rfl⟩ := List.mem_map.mp hmem
  obtain ⟨-, hnew⟩ := of_decide_eq_true h
  refine hnew (List.mem_map.mpr ⟨change.seen, List.mem_map.mpr ⟨change, hchange, rfl⟩, ?_⟩)
  exact change.seen_currentPath

/-- Where the reported files come back, so do the untracked ones. -/
theorem kept_of_length {changes : List Change} {untracked : List GitPath}
    (h : (untracked.filter (GitPath.kept (seenPaths changes))).length =
      (untracked.filter (· ∉ changes.map Change.currentPath)).length) :
    untracked.filter (GitPath.kept (seenPaths changes)) =
      untracked.filter (· ∉ changes.map Change.currentPath) := by
  rw [← List.countP_eq_length_filter, ← List.countP_eq_length_filter,
    Lists.countP_eq_countP_iff fun _ _ hkept => decide_eq_true (GitPath.not_mem_of_kept hkept)] at h
  refine List.filter_congr fun path hpath => ?_
  rw [Bool.eq_iff_iff]
  exact ⟨fun hkept => decide_eq_true (GitPath.not_mem_of_kept hkept), h path hpath⟩

/-- Without copies, the changes come back row by row. -/
theorem flatten_of_no_copies (h : repository.changes.mapM Change.readBack = .ok rows)
    (hcopies : ∀ change ∈ repository.changes, change.isCopied = false) :
    rows.flatten = repository.changes.map Change.seen := by
  rw [flatten_readBack h, List.filter_eq_self.mpr fun change hchange => by
    rw [hcopies change hchange]
    rfl]

theorem countP_readUntracked {existingPaths : List String}
    (h : repository.readUntracked toRef existingPaths = .ok added) :
    added.flatten.countP FileChange.isRenamed = 0 := by
  cases toRef with
  | some name =>
      cases h
      rfl
  | none =>
      rw [flatten_readUntracked h]
      exact countP_added _ _

/-- Files that are collected as they were reported come back as those of the changes. -/
theorem seen_perm_file {found : List FileChange}
    (hrows : repository.changes.mapM Change.readBack = .ok rows)
    (hadded : repository.readUntracked toRef (rows.flatten.map (·.currentPath)) = .ok added)
    (hperm : (rows.flatten ++ added.flatten).Perm found)
    (hfound : List.Forall₂ Reports (repository.reported toRef) found) :
    (∀ change ∈ repository.changes, change.isCopied = false) ∧
      ((repository.reported toRef).map Change.seen).Perm
        ((repository.reported toRef).map Change.file) ∧
      added.flatten = ((repository.unreported toRef).map Change.added).map Change.seen := by
  have hcopies : ∀ change ∈ repository.changes, change.isCopied = false := by
    rw [flatten_readBack hrows] at hperm
    exact no_copies (countP_readUntracked hadded) hfound hperm
  have hseen := flatten_of_no_copies hrows hcopies
  have hnone : ∀ change ∈ repository.reported toRef, change.isCopied = false := by
    intro change hchange
    rcases List.mem_append.mp hchange with hchange | hchange
    · exact hcopies change hchange
    · obtain ⟨path, -, rfl⟩ := List.mem_map.mp hchange
      rfl
  rw [found_eq hfound hnone] at hperm
  have huntracked : added.flatten =
      ((repository.unreported toRef).map Change.added).map Change.seen := by
    have hlength := hperm.length_eq
    rw [List.length_append, List.length_map, Repository.reported, List.length_append, hseen,
      List.length_map, List.length_map] at hlength
    cases toRef with
    | some name =>
        cases hadded
        rfl
    | none =>
        have hkept := flatten_readUntracked hadded
        rw [hseen] at hkept
        change added.flatten = (repository.untracked.filter (GitPath.kept
          (seenPaths repository.changes))).map _ at hkept
        rw [hkept, List.length_map] at hlength
        rw [hkept, kept_of_length (Nat.add_left_cancel hlength), Repository.unreported,
          List.map_map]
        rfl
  refine ⟨hcopies, ?_, huntracked⟩
  rw [hseen, huntracked, ← List.map_append] at hperm
  exact hperm

theorem readable_of_collected (hfrom : validateRef fromRef = .ok ())
    (hto : ∀ name ∈ toRef, validateRef name = .ok ())
    (h : repository.CollectedAs toRef (collectChangedFiles repository.runGit fromRef toRef)) :
    repository.Readable toRef := by
  obtain ⟨files, hok, -, found, hperm, hfound⟩ := h
  obtain ⟨rows, added, hrows, hadded, rfl⟩ := (collectChangedFiles_ok hfrom hto).mp hok
  obtain ⟨hcopies, hfiles, huntracked⟩ :=
    seen_perm_file hrows hadded ((List.perm_insertionSort _ _).symm.trans hperm) hfound
  have hplain := plain_of_perm hfiles
  have hends := ends_of_perm hfiles
  have hchanges : ∀ change ∈ repository.changes, change.Readable := by
    intro change hchange
    have hmem : change ∈ repository.reported toRef := List.mem_append_left _ hchange
    obtain ⟨row, -, hrow⟩ :=
      Lists.exists_right_of_forall₂ (Lists.mapM_eq_ok_iff.mp hrows) change hchange
    exact Change.readable_of_readBack hrow (hcopies change hchange) (hplain change hmem)
      (hends change hmem)
  refine ⟨hchanges, ?_⟩
  rintro rfl path hpath
  by_cases hreported : path ∈ repository.changes.map Change.currentPath
  · obtain ⟨change, hchange, rfl⟩ := List.mem_map.mp hreported
    exact (hchanges change hchange).currentPath
  · have hunreported : path ∈ repository.unreported none :=
      List.mem_filter.mpr ⟨hpath, decide_eq_true hreported⟩
    have hmem : Change.added path ∈ repository.reported none :=
      List.mem_append_right _ (List.mem_map.mpr ⟨path, hunreported, rfl⟩)
    have hquotes := hplain _ hmem path List.mem_cons_self
    have hend : path.Ends := hends (.added path) hmem
    obtain ⟨row, -, hrow⟩ :=
      Lists.exists_right_of_forall₂ (Lists.mapM_eq_ok_iff.mp hadded) path hpath
    have hkept : path.kept (seenPaths repository.changes) = true := by
      have hlength := congrArg List.length (flatten_readUntracked hadded)
      rw [huntracked, flatten_of_no_copies hrows hcopies, List.length_map, List.length_map,
        List.length_map] at hlength
      rw [Repository.unreported] at hunreported
      exact (List.mem_filter.mp ((kept_of_length hlength.symm).symm ▸ hunreported)).2
    have hvalid := (parseUntrackedLine_ok.mp hrow).1
      (by rw [flatten_of_no_copies hrows hcopies]; exact hkept)
    rw [GitPath.shown_of_plain hquotes hend] at hvalid
    exact ⟨⟨hquotes, hvalid⟩, hend⟩

theorem reports_file (h : change.isCopied = false) : Reports change change.file := by
  cases change with
  | copied _ _ _ _ => cases h
  | _ => rfl

theorem forall₂_file {changes : List Change} (h : ∀ change ∈ changes, change.isCopied = false) :
    List.Forall₂ Reports changes (changes.map Change.file) :=
  List.forall₂_map_right_iff.mpr (List.forall₂_same.mpr fun change hchange =>
    reports_file (h change hchange))

theorem seen_eq_file {changes : List Change} (h : ∀ change ∈ changes, change.Readable) :
    changes.map Change.seen = changes.map Change.file :=
  List.map_congr_left fun change hchange => (h change hchange).seen

/-- A readable path is kept exactly if it is not reported. -/
theorem kept_iff {changes : List Change} (hchanges : ∀ change ∈ changes, change.Readable)
    (hplain : path.Plain) (hends : path.Ends) :
    path.kept (seenPaths changes) = true ↔ path ∉ changes.map Change.currentPath := by
  refine ⟨GitPath.not_mem_of_kept, fun hnew => ?_⟩
  have hshown := GitPath.shown_of_plain hplain.1 hends
  refine decide_eq_true ⟨hshown ▸ path.toList_ne_nil, fun hmem => hnew ?_⟩
  rw [seenPaths, seen_eq_file hchanges, List.map_map] at hmem
  obtain ⟨change, hchange, heq⟩ := List.mem_map.mp hmem
  rw [Function.comp_apply, Change.file_currentPath, hshown, String.ofList_toList] at heq
  exact List.mem_map.mpr ⟨change, hchange, GitPath.text_inj heq⟩

/-- What is read of a repository whose paths are readable. -/
theorem Repository.Readable.readUntracked (h : repository.Readable toRef) :
    ∃ added, repository.readUntracked toRef (seenPaths repository.changes) = .ok added ∧
      added.flatten = ((repository.unreported toRef).map Change.added).map Change.file := by
  obtain ⟨hchanges, huntracked⟩ := h
  cases toRef with
  | some name => exact ⟨[], rfl, rfl⟩
  | none =>
      have hpaths := huntracked rfl
      let row (path : GitPath) : List FileChange :=
        if path.kept (seenPaths repository.changes) then [.added (String.ofList path.shown)] else []
      have hrows : repository.readUntracked none (seenPaths repository.changes) =
          .ok (repository.untracked.map row) := by
        refine Lists.mapM_eq_ok_iff.mpr (List.forall₂_map_right_iff.mpr (List.forall₂_same.mpr ?_))
        intro path hpath
        obtain ⟨hplain, hends⟩ := hpaths path hpath
        exact parseUntrackedLine_ok.mpr
          ⟨fun _ => GitPath.shown_of_plain hplain.1 hends ▸ hplain.2, rfl⟩
      refine ⟨_, hrows, ?_⟩
      rw [flatten_readUntracked hrows, Repository.unreported, List.map_map]
      have hkept : repository.untracked.filter (GitPath.kept (seenPaths repository.changes)) =
          repository.untracked.filter (· ∉ repository.changes.map Change.currentPath) := by
        refine List.filter_congr fun path hpath => Bool.eq_iff_iff.mpr ?_
        obtain ⟨hplain, hends⟩ := hpaths path hpath
        exact (kept_iff hchanges hplain hends).trans (decide_eq_true_iff).symm
      rw [hkept]
      refine List.map_congr_left fun path hpath => ?_
      obtain ⟨hplain, hends⟩ := hpaths path (List.mem_of_mem_filter hpath)
      rw [GitPath.shown_of_plain hplain.1 hends, String.ofList_toList]
      rfl

instance : Std.Total fun a b : FileChange => a.currentPath ≤ b.currentPath :=
  ⟨fun a b => le_total a.currentPath b.currentPath⟩

instance : IsTrans FileChange fun a b => a.currentPath ≤ b.currentPath :=
  ⟨fun _ _ _ => le_trans⟩

theorem collected_of_readable (hfrom : validateRef fromRef = .ok ())
    (hto : ∀ name ∈ toRef, validateRef name = .ok ()) (h : repository.Readable toRef) :
    repository.CollectedAs toRef (collectChangedFiles repository.runGit fromRef toRef) := by
  have hrows : repository.changes.mapM Change.readBack =
      .ok (repository.changes.map fun change => [change.file]) :=
    Lists.mapM_eq_ok_iff.mpr (List.forall₂_map_right_iff.mpr (List.forall₂_same.mpr
      fun change hchange => (h.1 change hchange).readBack))
  have hflatten : (repository.changes.map fun change => [change.file]).flatten =
      repository.changes.map Change.file := by
    rw [← List.flatMap_def, ← List.map_eq_flatMap]
  have hcopies : ∀ change ∈ repository.reported toRef, change.isCopied = false := by
    intro change hchange
    rcases List.mem_append.mp hchange with hchange | hchange
    · exact (h.1 change hchange).isCopied
    · obtain ⟨path, -, rfl⟩ := List.mem_map.mp hchange
      rfl
  obtain ⟨added, hadded, huntracked⟩ := h.readUntracked
  refine ⟨_, (collectChangedFiles_ok hfrom hto).mpr ⟨_, added, hrows, ?_, rfl⟩,
    List.pairwise_insertionSort _ _, _, List.perm_insertionSort _ _, ?_⟩
  · rw [hflatten, ← seen_eq_file h.1]
    exact hadded
  · rw [hflatten, huntracked, ← List.map_append]
    exact forall₂_file hcopies

/-- The files are collected as git reported them exactly if each path is read as it is. -/
theorem collectChangedFiles_iff (repository : Repository) (hfrom : validateRef fromRef = .ok ())
    (hto : ∀ name ∈ toRef, validateRef name = .ok ()) :
    repository.CollectedAs toRef (collectChangedFiles repository.runGit fromRef toRef) ↔
      repository.Readable toRef :=
  ⟨readable_of_collected hfrom hto, collected_of_readable hfrom hto⟩

/-- A renamed and a modified file, and one that is not tracked. -/
def workTree : Repository :=
  { changes := [.renamed 95 ⟨"old.rs", by decide⟩ ⟨"src/new.rs", by decide⟩,
      .modified ⟨"a.rs", by decide⟩]
    untracked := [⟨"b c.rs", by decide⟩] }

theorem collected_workTree :
    workTree.CollectedAs none (collectChangedFiles workTree.runGit "main" none) := by
  have hplain : ∀ path : GitPath, path.text ∈ ["old.rs", "src/new.rs", "a.rs", "b c.rs"] →
      path.Plain ∧ path.Ends := by
    intro path hpath
    unfold GitPath.Plain GitPath.Ends
    revert hpath
    generalize path.text = text
    revert text
    decide +kernel
  refine (collectChangedFiles_iff workTree (by decide +kernel) (by simp)).mpr ⟨?_, fun _ => ?_⟩
  · refine List.forall_mem_cons.mpr ⟨⟨(hplain _ (by simp)).1, hplain _ (by simp)⟩,
      List.forall_mem_singleton.mpr (hplain _ (by simp))⟩
  · exact List.forall_mem_singleton.mpr (hplain _ (by simp))

/-- One added file, with a name that is not ASCII. -/
def accented : Repository :=
  { changes := [.added ⟨"é.rs", by decide⟩], untracked := [] }

/-- The file is collected under its quoted name. -/
theorem not_collected_accented :
    ¬accented.CollectedAs (some "dev")
      (collectChangedFiles accented.runGit "main" (some "dev")) := by
  intro h
  have hreadable := readable_of_collected (by decide +kernel) (fun name hname => by
    cases hname
    decide +kernel) h
  exact absurd (hreadable.1 _ List.mem_cons_self).1.1 (by decide)

end Agreement

end GitDiff
end CleanCtx
