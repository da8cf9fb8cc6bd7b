import Mathlib.Algebra.Ring.Nat
import Mathlib.Data.List.TakeWhile

/-!
Unicode white space, lines and words, as the string functions of the standard
library see them.
-/
namespace CleanCtx

/-- The characters `trim`, `split_whitespace` and `char::is_whitespace` treat as white space. -/
def isWhiteSpace (c : Char) : Bool :=
  (9 ≤ c.toNat && c.toNat ≤ 13) || (0x2000 ≤ c.toNat && c.toNat ≤ 0x200A) ||
    [0x20, 0x85, 0xA0, 0x1680, 0x2028, 0x2029, 0x202F, 0x205F, 0x3000].contains c.toNat

def byteLen (text : List Char) : Nat := (text.map Char.utf8Size).sum

def trim (s : List Char) : List Char :=
  ((s.dropWhile isWhiteSpace).reverse.dropWhile isWhiteSpace).reverse

def dropReturn (line : List Char) : List Char :=
  if line.getLast? = some '\r' then line.dropLast else line

/-- `str::lines`, with the characters of the line read so far in reverse. The end of the text ends
a line only when it is not empty, and leaves its carriage return. -/
def linesFrom (line : List Char) : List Char → List (List Char)
  | [] => if line.isEmpty then [] else [line.reverse]
  | c :: rest =>
      if c = '\n' then dropReturn line.reverse :: linesFrom [] rest else linesFrom (c :: line) rest

def lines (s : List Char) : List (List Char) := linesFrom [] s

/-- `BufRead::read_line`: what is read, with its line end, and what is left. -/
def readLine : List Char → List Char × List Char
  | [] => ([], [])
  | c :: rest =>
      if c = '\n' then ([c], rest) else (c :: (readLine rest).1, (readLine rest).2)

/-- `str::split_inclusive` at line ends, with the characters of the line read so far in reverse. -/
def splitInclusiveFrom (line : List Char) : List Char → List (List Char)
  | [] => if line.isEmpty then [] else [line.reverse]
  | c :: rest =>
      if c = '\n' then (c :: line).reverse :: splitInclusiveFrom [] rest
      else splitInclusiveFrom (c :: line) rest

def splitInclusive (s : List Char) : List (List Char) := splitInclusiveFrom [] s

def lineContent (line : List Char) : List Char :=
  if line.getLast? = some '\n' then dropReturn line.dropLast else line

/-- `str::split_whitespace`, with the characters of the word read so far in reverse. -/
def wordsFrom (word : List Char) : List Char → List (List Char)
  | [] => if word.isEmpty then [] else [word.reverse]
  | c :: rest =>
      if isWhiteSpace c then
        if word.isEmpty then wordsFrom [] rest else word.reverse :: wordsFrom [] rest
      else wordsFrom (c :: word) rest

def words (s : List Char) : List (List Char) := wordsFrom [] s

/-- `&text[..pos]` at the first position where `str::find` finds the other text. -/
def textBefore (sub : List Char) : List Char → Option (List Char)
  | [] => if sub.isEmpty then some [] else none
  | c :: rest =>
      if sub.isPrefixOf (c :: rest) then some [] else (textBefore sub rest).map (c :: ·)

theorem toNat_of_isAlpha {c : Char} (h : c.isAlpha = true) :
    65 ≤ c.toNat ∧ c.toNat ≤ 90 ∨ 97 ≤ c.toNat ∧ c.toNat ≤ 122 := by
  obtain hupper | hlower := Bool.or_eq_true_iff.mp h
  · obtain ⟨hfirst, hlast⟩ := of_decide_eq_true hupper
    exact .inl ⟨UInt32.le_iff_toNat_le.mp hfirst, UInt32.le_iff_toNat_le.mp hlast⟩
  · obtain ⟨hfirst, hlast⟩ := Bool.and_eq_true_iff.mp hlower
    exact .inr ⟨UInt32.le_iff_toNat_le.mp (of_decide_eq_true hfirst),
      UInt32.le_iff_toNat_le.mp (of_decide_eq_true hlast)⟩

theorem toNat_of_isAlphanum {c : Char} (h : c.isAlphanum = true) :
    48 ≤ c.toNat ∧ c.toNat ≤ 57 ∨ 65 ≤ c.toNat ∧ c.toNat ≤ 90 ∨
      97 ≤ c.toNat ∧ c.toNat ≤ 122 := by
  obtain hletter | hdigit := Bool.or_eq_true_iff.mp h
  · exact .inr (toNat_of_isAlpha hletter)
  · exact .inl (Char.isDigit_iff_toNat.mp hdigit)

theorem byteLen_append (s t : List Char) : byteLen (s ++ t) = byteLen s + byteLen t := by
  rw [byteLen, List.map_append, List.sum_append, byteLen, byteLen]

theorem byteLen_eq_zero {s : List Char} : byteLen s = 0 ↔ s = [] := by
  cases s with
  | nil => exact iff_of_true rfl rfl
  | cons c s =>
      refine iff_of_false (fun h => ?_) (List.cons_ne_nil c s)
      have hpos := Char.utf8Size_pos c
      rw [byteLen, List.map_cons, List.sum_cons] at h
      omega

def Blank (s : List Char) : Prop := ∀ c ∈ s, isWhiteSpace c = true

theorem blank_append {s t : List Char} : Blank (s ++ t) ↔ Blank s ∧ Blank t :=
  List.forall_mem_append

theorem dropWhile_of_blank {s : List Char} (h : Blank s) : s.dropWhile isWhiteSpace = [] :=
  List.dropWhile_eq_nil_iff.mpr h

theorem dropWhile_ne_nil {s : List Char} (h : ¬Blank s) : s.dropWhile isWhiteSpace ≠ [] :=
  fun hnil => h (List.dropWhile_eq_nil_iff.mp hnil)

theorem blank_reverse {s : List Char} : Blank s.reverse ↔ Blank s := by
  simp only [Blank, List.mem_reverse]

theorem trim_blank_append {s : List Char} (h : Blank s) (t : List Char) :
    trim (s ++ t) = trim t := by
  rw [trim, List.dropWhile_append_of_pos h, trim]

theorem trim_append_blank (s : List Char) {t : List Char} (h : Blank t) :
    trim (s ++ t) = trim s := by
  by_cases hs : Blank s
  · rw [trim_blank_append hs, trim, trim, dropWhile_of_blank h, dropWhile_of_blank hs]
  · rw [trim, List.dropWhile_append, if_neg (by simpa using dropWhile_ne_nil hs),
      List.reverse_append, List.dropWhile_append_of_pos (blank_reverse.mpr h), trim]

/-- A text that is not blank keeps its trimmed form in front when more text follows, and what
is added stays visible unless it is blank. -/
theorem trim_append {s : List Char} (hs : ¬Blank s) (t : List Char) :
    ∃ rest, trim (s ++ t) = trim s ++ rest ∧ (rest = [] → Blank t) := by
  by_cases ht : Blank t
  · exact ⟨[], by rw [trim_append_blank s ht, List.append_nil], fun _ => ht⟩
  · have htail : ¬Blank t.reverse := fun h => ht (blank_reverse.mp h)
    have hsplit : s.dropWhile isWhiteSpace = trim s ++
        ((s.dropWhile isWhiteSpace).reverse.takeWhile isWhiteSpace).reverse := by
      rw [trim, ← List.reverse_append, List.takeWhile_append_dropWhile, List.reverse_reverse]
    refine ⟨((s.dropWhile isWhiteSpace).reverse.takeWhile isWhiteSpace).reverse ++
      (t.reverse.dropWhile isWhiteSpace).reverse, ?_, fun h => ?_⟩
    · rw [← List.append_assoc, ← hsplit, trim, List.dropWhile_append,
        if_neg (by simpa using dropWhile_ne_nil hs), List.reverse_append, List.dropWhile_append,
        if_neg (by simpa using dropWhile_ne_nil htail), List.reverse_append, List.reverse_reverse]
    · have hnil := (List.append_eq_nil_iff.mp h).2
      exact absurd (List.reverse_eq_nil_iff.mp hnil) (dropWhile_ne_nil htail)

theorem length_linesFrom_le (line s : List Char) :
    (linesFrom line s).length ≤ s.count '\n' + 1 := by
  induction s generalizing line with
  | nil =>
      rw [linesFrom]
      split <;> simp
  | cons c s ih =>
      rw [linesFrom]
      by_cases hc : c = '\n'
      · rw [if_pos hc, List.length_cons, hc, List.count_cons_self]
        exact Nat.succ_le_succ (ih [])
      · rw [if_neg hc, List.count_cons_of_ne hc]
        exact ih (c :: line)

theorem newline_not_mem_linesFrom {line s : List Char} (hline : '\n' ∉ line) :
    ∀ l ∈ linesFrom line s, '\n' ∉ l := by
  induction s generalizing line with
  | nil =>
      rw [linesFrom]
      split
      · nofun
      · exact List.forall_mem_singleton.mpr (by rwa [List.mem_reverse])
  | cons c s ih =>
      rw [linesFrom]
      by_cases hc : c = '\n'
      · rw [if_pos hc]
        refine List.forall_mem_cons.mpr ⟨fun hmem => hline ?_, ih List.not_mem_nil⟩
        rw [dropReturn] at hmem
        split at hmem
        · exact List.mem_reverse.mp (List.dropLast_subset _ hmem)
        · exact List.mem_reverse.mp hmem
      · rw [if_neg hc]
        exact ih (List.not_mem_cons_of_ne_of_not_mem (Ne.symm hc) hline)

theorem lines_ne_nil {s : List Char} (h : s ≠ []) : lines s ≠ [] := by
  have hfrom : ∀ (line s : List Char), line ≠ [] ∨ s ≠ [] → linesFrom line s ≠ [] := by
    intro line s
    induction s generalizing line with
    | nil =>
        intro h
        rw [linesFrom, if_neg (by simpa using h)]
        exact List.cons_ne_nil _ _
    | cons c s ih =>
        intro _
        rw [linesFrom]
        split
        · exact List.cons_ne_nil _ _
        · exact ih _ (.inl (List.cons_ne_nil _ _))
  exact hfrom [] s (.inr h)

theorem length_lines_intercalate_le {ls : List (List Char)} (h : ∀ l ∈ ls, '\n' ∉ l) :
    (lines (['\n'].intercalate ls)).length ≤ ls.length := by
  have hcount : ∀ l (ls : List (List Char)), (∀ l' ∈ l :: ls, '\n' ∉ l') →
      (['\n'].intercalate (l :: ls)).count '\n' = ls.length := by
    intro l ls
    induction ls generalizing l with
    | nil =>
        intro h
        rw [List.intercalate_singleton]
        exact List.count_eq_zero.mpr (h l List.mem_cons_self)
    | cons l' ls ih =>
        intro h
        obtain ⟨hl, hrest⟩ := List.forall_mem_cons.mp h
        rw [List.intercalate_cons_cons, List.count_append, List.count_append, ih l' hrest,
          List.count_eq_zero.mpr hl, List.count_singleton_self, List.length_cons]
        omega
  cases ls with
  | nil => exact Nat.le_refl 0
  | cons l ls =>
      refine (length_linesFrom_le [] _).trans ?_
      rw [hcount l ls h, List.length_cons]

theorem linesFrom_append {l : List Char} (hl : '\n' ∉ l) (line rest : List Char) :
    linesFrom line (l ++ rest) = linesFrom (l.reverse ++ line) rest := by
  induction l generalizing line with
  | nil => rfl
  | cons c l ih =>
      obtain ⟨hc, hl⟩ := not_or.mp (mt List.mem_cons.mpr hl)
      rw [List.cons_append, linesFrom, if_neg (Ne.symm hc), ih hl, List.reverse_cons,
        List.append_assoc]
      rfl

theorem dropReturn_of_not_mem {l : List Char} (h : '\r' ∉ l) : dropReturn l = l :=
  if_neg fun hlast => h (List.mem_of_getLast? hlast)

theorem lines_cons {l : List Char} (hl : '\n' ∉ l) (hr : '\r' ∉ l) (rest : List Char) :
    lines (l ++ '\n' :: rest) = l :: lines rest := by
  rw [lines, linesFrom_append hl, linesFrom, if_pos rfl, List.append_nil, List.reverse_reverse,
    dropReturn_of_not_mem hr]
  rfl

theorem lines_ended {ls : List (List Char)} (hl : ∀ l ∈ ls, '\n' ∉ l) (hr : ∀ l ∈ ls, '\r' ∉ l) :
    lines (ls.flatMap (· ++ ['\n'])) = ls := by
  induction ls with
  | nil => rfl
  | cons l ls ih =>
      obtain ⟨hl, hls⟩ := List.forall_mem_cons.mp hl
      obtain ⟨hr, hrs⟩ := List.forall_mem_cons.mp hr
      rw [List.flatMap_cons, List.append_assoc, List.singleton_append, lines_cons hl hr, ih hls hrs]

theorem readLine_cases (s : List Char) : (readLine s).1 ++ (readLine s).2 = s ∧
    ((∃ l, '\n' ∉ l ∧ (readLine s).1 = l ++ ['\n']) ∨ '\n' ∉ s ∧ readLine s = (s, [])) := by
  induction s with
  | nil => exact ⟨rfl, .inr ⟨List.not_mem_nil, rfl⟩⟩
  | cons c s ih =>
      rw [readLine]
      split
      · next hc =>
        exact ⟨rfl, .inl ⟨[], List.not_mem_nil, by rw [hc]; rfl⟩⟩
      · next hc =>
        obtain ⟨happend, ⟨l, hl, hline⟩ | ⟨hs, hline⟩⟩ := ih
        · refine ⟨congrArg (c :: ·) happend, .inl ⟨c :: l, ?_, congrArg (c :: ·) hline⟩⟩
          exact List.not_mem_cons_of_ne_of_not_mem (Ne.symm hc) hl
        · refine ⟨congrArg (c :: ·) happend, .inr ⟨?_, by rw [hline]⟩⟩
          exact List.not_mem_cons_of_ne_of_not_mem (Ne.symm hc) hs

theorem readLine_eq_nil {s : List Char} : (readLine s).1 = [] ↔ s = [] := by
  cases s with
  | nil => exact iff_of_true rfl rfl
  | cons c s =>
      refine iff_of_false ?_ (List.cons_ne_nil c s)
      rw [readLine]
      split <;> exact List.cons_ne_nil _ _

theorem length_readLine_lt {s : List Char} (h : (readLine s).1 ≠ []) :
    (readLine s).2.length < s.length := by
  have hlength := congrArg List.length (readLine_cases s).1
  have hpos := List.length_pos_iff.mpr h
  rw [List.length_append] at hlength
  omega

theorem splitInclusiveFrom_eq {line s : List Char} (h : line ≠ [] ∨ s ≠ []) :
    splitInclusiveFrom line s =
      (line.reverse ++ (readLine s).1) :: splitInclusive (readLine s).2 := by
  induction s generalizing line with
  | nil =>
      have hline : line.isEmpty = false := by simpa using h
      rw [splitInclusiveFrom, hline, readLine, List.append_nil]
      rfl
  | cons c s ih =>
      rw [splitInclusiveFrom, readLine]
      split
      · rw [List.reverse_cons]
        rfl
      · rw [ih (.inl (List.cons_ne_nil c line)), List.reverse_cons, List.append_assoc]
        rfl

theorem splitInclusive_eq {s : List Char} (h : s ≠ []) :
    splitInclusive s = (readLine s).1 :: splitInclusive (readLine s).2 :=
  splitInclusiveFrom_eq (.inr h)

theorem lineContent_ended (l : List Char) : lineContent (l ++ ['\n']) = dropReturn l := by
  rw [lineContent, if_pos (List.getLast?_concat ..), List.dropLast_concat]

theorem trim_tight {c d : Char} (hc : isWhiteSpace c = false) (hd : isWhiteSpace d = false)
    (s : List Char) : trim (c :: (s ++ [d])) = c :: (s ++ [d]) := by
  simp [trim, hc, hd]

theorem exists_blank_trim (s : List Char) :
    ∃ before after, Blank before ∧ Blank after ∧ s = before ++ (trim s ++ after) := by
  refine ⟨s.takeWhile isWhiteSpace,
    ((s.dropWhile isWhiteSpace).reverse.takeWhile isWhiteSpace).reverse,
    fun _ => List.mem_takeWhile_imp, fun c hc => List.mem_takeWhile_imp (List.mem_reverse.mp hc), ?_⟩
  rw [trim, ← List.reverse_append, List.takeWhile_append_dropWhile, List.reverse_reverse,
    List.takeWhile_append_dropWhile]

theorem trim_trim (s : List Char) : trim (trim s) = trim s := by
  obtain ⟨before, after, hbefore, hafter, heq⟩ := exists_blank_trim s
  have htrim := congrArg trim heq
  rw [trim_blank_append hbefore, trim_append_blank _ hafter] at htrim
  exact htrim.symm

theorem head_of_trim {c : Char} {s : List Char} (h : trim (c :: s) = c :: s) :
    isWhiteSpace c = false := by
  rw [← Bool.not_eq_true]
  intro hc
  have hlength := congrArg List.length h
  have hle := (s.dropWhile_sublist isWhiteSpace).length_le
  have hle' := ((s.dropWhile isWhiteSpace).reverse.dropWhile_sublist isWhiteSpace).length_le
  rw [trim, List.dropWhile_cons_of_pos hc, List.length_reverse, List.length_cons] at hlength
  rw [List.length_reverse] at hle'
  omega

/-- Two texts with white space in front that are equal have the same white space. -/
theorem blank_front {before before' s t : List Char} {c d : Char} (hbefore : Blank before)
    (hbefore' : Blank before') (hc : isWhiteSpace c = false) (hd : isWhiteSpace d = false)
    (h : before ++ c :: s = before' ++ d :: t) : before = before' ∧ c :: s = d :: t := by
  have hfront : ∀ {u : List Char} {e : Char} {r : List Char}, Blank u → isWhiteSpace e = false →
      (u ++ e :: r).takeWhile isWhiteSpace = u := by
    intro u e r hu he
    rw [List.takeWhile_append_of_pos hu, List.takeWhile_cons_of_neg (by rw [he]; exact
      Bool.false_ne_true), List.append_nil]
  have heq : before = before' := by rw [← hfront hbefore hc, h, hfront hbefore' hd]
  exact ⟨heq, List.append_cancel_left (heq ▸ h)⟩

def visible (s : List Char) : Nat := s.countP (!isWhiteSpace ·)

theorem visible_append (s t : List Char) : visible (s ++ t) = visible s + visible t :=
  List.countP_append

theorem visible_singleton {c : Char} (h : isWhiteSpace c = false) : visible [c] = 1 := by
  rw [visible, List.countP_singleton, h]
  rfl

theorem visible_of_blank {s : List Char} (h : Blank s) : visible s = 0 :=
  List.countP_eq_zero.mpr fun c hc => by simp [h c hc]

theorem visible_trim (s : List Char) : visible (trim s) = visible s := by
  obtain ⟨before, after, hbefore, hafter, heq⟩ := exists_blank_trim s
  have hvisible := congrArg visible heq
  rw [visible_append, visible_append, visible_of_blank hbefore, visible_of_blank hafter,
    Nat.zero_add, Nat.add_zero] at hvisible
  exact hvisible.symm

def StartsSolid (s : List Char) : Prop := ∀ c, s.head? = some c → isWhiteSpace c = false

def EndsSolid (s : List Char) : Prop := ∀ c, s.getLast? = some c → isWhiteSpace c = false

theorem StartsSolid.dropWhile {s : List Char} (h : StartsSolid s) : s.dropWhile isWhiteSpace = s := by
  cases s with
  | nil => rfl
  | cons c s => rw [List.dropWhile_cons_of_neg (by simp [h c rfl])]

theorem startsSolid_dropWhile (s : List Char) : StartsSolid (s.dropWhile isWhiteSpace) := by
  intro c hc
  cases hdrop : s.dropWhile isWhiteSpace with
  | nil =>
      rw [hdrop] at hc
      cases hc
  | cons d rest =>
      rw [hdrop] at hc
      cases hc
      have hhead := List.head_dropWhile_not isWhiteSpace (l := s)
        (by rw [hdrop]; exact List.cons_ne_nil _ _)
      simpa [hdrop] using hhead

theorem EndsSolid.of_append {s t : List Char} (h : EndsSolid (s ++ t)) : EndsSolid t := by
  intro c hc
  apply h c
  rw [List.getLast?_append, hc, Option.some_or]

theorem EndsSolid.reverse {s : List Char} (h : EndsSolid s) : StartsSolid s.reverse := by
  intro c hc
  rw [List.head?_reverse] at hc
  exact h c hc

theorem EndsSolid.trim_eq {s : List Char} (h : EndsSolid s) : trim s = s.dropWhile isWhiteSpace := by
  have hdrop : EndsSolid (s.dropWhile isWhiteSpace) := by
    apply EndsSolid.of_append (s := s.takeWhile isWhiteSpace)
    rwa [List.takeWhile_append_dropWhile]
  rw [trim, hdrop.reverse.dropWhile, List.reverse_reverse]

theorem startsSolid_trim (s : List Char) : StartsSolid (trim s) := by
  intro c hc
  cases htrim : trim s with
  | nil =>
      rw [htrim] at hc
      cases hc
  | cons d rest =>
      rw [htrim] at hc
      cases hc
      have hidem := trim_trim s
      rw [htrim] at hidem
      exact head_of_trim hidem

theorem endsSolid_trim (s : List Char) : EndsSolid (trim s) := by
  intro c hc
  rw [trim, List.getLast?_reverse] at hc
  exact startsSolid_dropWhile _ c hc

theorem trim_of_solid {s : List Char} (hstart : StartsSolid s) (hend : EndsSolid s) :
    trim s = s := by
  rw [hend.trim_eq, hstart.dropWhile]

theorem dropReturn_append {before l : List Char} (h : l ≠ []) :
    dropReturn (before ++ l) = before ++ dropReturn l := by
  rw [dropReturn, dropReturn, List.getLast?_append, List.getLast?_eq_some_getLast h, Option.some_or]
  split
  · rw [List.dropLast_append_of_ne_nil h]
  · rfl

/-- What the first line goes on with does not depend on how it begins. -/
theorem linesFrom_begun (line s : List Char) : ∃ l ls, ∀ before : List Char,
    (∃ c, before.head? = some c ∧ c ≠ '\r') →
      linesFrom (line ++ before) s = (before.reverse ++ l) :: ls := by
  induction s generalizing line with
  | nil =>
      refine ⟨line.reverse, [], fun before ⟨c, hc, _⟩ => ?_⟩
      have hne : (line ++ before).isEmpty = false := by
        cases before with
        | nil => cases hc
        | cons => simp
      rw [linesFrom, hne, if_neg Bool.false_ne_true, List.reverse_append]
  | cons d s ih =>
      by_cases hd : d = '\n'
      · refine ⟨dropReturn line.reverse, linesFrom [] s, fun before ⟨c, hc, hreturn⟩ => ?_⟩
        rw [linesFrom, if_pos hd, List.reverse_append]
        cases line with
        | nil =>
            have hlast : before.reverse.getLast? = some c := by rw [List.getLast?_reverse, hc]
            rw [List.reverse_nil, List.append_nil, dropReturn, hlast,
              if_neg fun heq => hreturn (Option.some.inj heq)]
            simp [dropReturn]
        | cons => rw [dropReturn_append (by simp)]
      · obtain ⟨l, ls, hbegun⟩ := ih (d :: line)
        refine ⟨l, ls, fun before hbefore => ?_⟩
        rw [linesFrom, if_neg hd, ← hbegun before hbefore, List.cons_append]

theorem prefix_of_linesFrom {line s l : List Char} {ls : List (List Char)}
    (h : linesFrom line s = l :: ls) : l <+: line.reverse ++ s := by
  induction s generalizing line with
  | nil =>
      rw [linesFrom] at h
      split at h
      · cases h
      · cases h
        exact List.prefix_append _ _
  | cons c s ih =>
      rw [linesFrom] at h
      split at h
      · cases h
        refine List.IsPrefix.trans ?_ (List.prefix_append _ _)
        unfold dropReturn
        split
        · exact List.dropLast_prefix _
        · exact List.prefix_refl _
      · have hprefix := ih h
        rwa [List.reverse_cons, List.append_assoc] at hprefix

/-- The first line of a text goes on behind what is put in front of it. -/
theorem lines_append {p : List Char} (hp : '\n' ∉ p) {c : Char} (hc : isWhiteSpace c = false)
    (s : List Char) : ∃ l ls, lines (c :: s) = (c :: l) :: ls ∧
      lines (p ++ c :: s) = (p ++ c :: l) :: ls := by
  obtain ⟨l, ls, hbegun⟩ := linesFrom_begun [] s
  have hnewline : c ≠ '\n' := by
    rintro rfl
    revert hc
    decide
  have hreturn : c ≠ '\r' := by
    rintro rfl
    revert hc
    decide
  refine ⟨l, ls, ?_, ?_⟩
  · rw [lines, linesFrom, if_neg hnewline]
    exact hbegun [c] ⟨c, rfl, hreturn⟩
  · rw [lines, linesFrom_append hp, linesFrom, if_neg hnewline, List.append_nil]
    have hline := hbegun (c :: p.reverse) ⟨c, rfl, hreturn⟩
    rw [List.reverse_cons, List.reverse_reverse, List.append_assoc, List.singleton_append] at hline
    exact hline

theorem trim_append_solid {p : List Char} (hp : StartsSolid p) {c : Char}
    (hc : isWhiteSpace c = false) (s : List Char) : trim (p ++ c :: s) = p ++ trim (c :: s) := by
  have hself : (c :: s).dropWhile isWhiteSpace = c :: s :=
    List.dropWhile_cons_of_neg (by rw [hc]; exact Bool.false_ne_true)
  have hwhole : (p ++ c :: s).dropWhile isWhiteSpace = p ++ c :: s := by
    cases p with
    | nil => exact hself
    | cons d p =>
        rw [List.cons_append, List.dropWhile_cons_of_neg
          (by rw [hp d rfl]; exact Bool.false_ne_true)]
  have hcut : (c :: s).reverse.dropWhile isWhiteSpace ≠ [] := by
    rw [ne_eq, List.dropWhile_eq_nil_iff]
    intro hall
    rw [hall c (List.mem_reverse.mpr List.mem_cons_self)] at hc
    cases hc
  rw [trim, trim, hwhole, hself, List.reverse_append, List.dropWhile_append,
    if_neg (by simpa using hcut), List.reverse_append, List.reverse_reverse]

theorem trim_prefix {c : Char} (hc : isWhiteSpace c = false) (s : List Char) :
    trim (c :: s) <+: c :: s := by
  obtain ⟨before, after, hbefore, -, heq⟩ := exists_blank_trim (c :: s)
  cases before with
  | nil => exact ⟨after, by simpa using heq.symm⟩
  | cons d before =>
      have hd := hbefore d List.mem_cons_self
      rw [List.cons_append] at heq
      rw [(List.cons.inj heq).1, hd] at hc
      cases hc

/-- What is trimmed off a text that starts solid leaves its first character. -/
theorem trim_cons {c : Char} (hc : isWhiteSpace c = false) (s : List Char) :
    ∃ rest, trim (c :: s) = c :: rest := by
  obtain ⟨rest, hrest, -⟩ := trim_append (fun h : Blank [c] => by
    rw [h c List.mem_cons_self] at hc
    cases hc) s
  have hsingle : trim [c] = [c] := by
    rw [trim, List.dropWhile_cons_of_neg (by rw [hc]; exact Bool.false_ne_true),
      List.reverse_singleton, List.dropWhile_cons_of_neg (by rw [hc]; exact Bool.false_ne_true),
      List.reverse_singleton]
  exact ⟨rest, by rw [← List.singleton_append, hrest, hsingle, List.singleton_append]⟩

theorem wordsFrom_solid {word t : List Char} (ht : ∀ c ∈ t, isWhiteSpace c = false)
    (rest : List Char) : wordsFrom word (t ++ rest) = wordsFrom (t.reverse ++ word) rest := by
  induction t generalizing word with
  | nil => rfl
  | cons c t ih =>
      rw [List.cons_append, wordsFrom, ht c List.mem_cons_self, if_neg Bool.false_ne_true,
        ih fun d hd => ht d (List.mem_cons_of_mem c hd), List.reverse_cons, List.append_assoc,
        List.singleton_append]

theorem headD_words {s : List Char} (h : StartsSolid s) :
    (words s).headD s = s.takeWhile (!isWhiteSpace ·) := by
  have hsplit := (List.takeWhile_append_dropWhile (p := (!isWhiteSpace ·)) (l := s)).symm
  have hsolid : ∀ c ∈ s.takeWhile (!isWhiteSpace ·), isWhiteSpace c = false := fun c hc => by
    simpa using List.mem_takeWhile_imp hc
  cases s with
  | nil => rfl
  | cons first s =>
      have hfirst := h first rfl
      have hne : (first :: s).takeWhile (!isWhiteSpace ·) ≠ [] := by
        rw [List.takeWhile_cons_of_pos (by simp [hfirst])]
        exact List.cons_ne_nil _ _
      generalize (first :: s).takeWhile (!isWhiteSpace ·) = token at hsplit hsolid hne
      have hreverse : (token.reverse ++ []).isEmpty = false := by simp [hne]
      unfold words
      cases hrest : (first :: s).dropWhile (!isWhiteSpace ·) with
      | nil =>
          rw [hrest] at hsplit
          rw [hsplit, wordsFrom_solid hsolid, wordsFrom, hreverse]
          simp
      | cons c rest =>
          have hc : isWhiteSpace c = true := by
            have hhead := List.head_dropWhile_not (!isWhiteSpace ·) (l := first :: s)
              (by rw [hrest]; exact List.cons_ne_nil _ _)
            simpa [hrest] using hhead
          rw [hrest] at hsplit
          rw [hsplit, wordsFrom_solid hsolid, wordsFrom, hc, hreverse]
          simp

end CleanCtx
