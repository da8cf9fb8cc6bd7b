import CleanCtx.Library.JsonText

/-!
Rows of columns with a separator that does not count inside quotes. A column is
whole if the scan of it ends outside quotes and meets no separator there. Whole
columns come back from a split, and where the first column that is not whole has no
separator of its own, it takes the separator after it along.
-/
namespace CleanCtx.Columns

/-- Where a scan stands: outside quotes, inside them, or after a backslash inside. -/
inductive Quoting
  | outside
  | inside
  | escaped
  deriving DecidableEq, Repr

def Quoting.next : Quoting → Char → Quoting
  | escaped, _ => inside
  | inside, c => if c = '\\' then escaped else if c = '"' then outside else inside
  | outside, c => if c = '"' then inside else outside

def quotingAfter (text : List Char) : Quoting := text.foldl Quoting.next .outside

/-- The columns of the rest of a row, with the characters of the current one in reverse. -/
def splitFrom (state : Quoting) (column : List Char) : List Char → Option (List (List Char))
  | [] => if state = .outside then some [column.reverse] else none
  | c :: rest =>
      if state = .outside ∧ c = '|' then (splitFrom .outside [] rest).map (column.reverse :: ·)
      else splitFrom (state.next c) (c :: column) rest

def split (row : List Char) : Option (List (List Char)) := splitFrom .outside [] row

def join (columns : List (List Char)) : List Char := ['|'].intercalate columns

def wholeFrom : Quoting → List Char → Bool
  | state, [] => state = .outside
  | state, c :: rest => !(state = .outside && c = '|') && wholeFrom (state.next c) rest

def Whole (column : List Char) : Prop := wholeFrom .outside column = true

instance : DecidablePred Whole := fun _ => inferInstanceAs (Decidable (_ = true))

/-- Without a separator, and not the start of a literal. -/
structure Bare (column : List Char) : Prop where
  nonempty : column ≠ []
  head : column.head? ≠ some '"'
  plain : '|' ∉ column

/-- What is read from a split: without a separator, unless a literal is parsed. -/
def Clean (column : List Char) : Prop := column.head? = some '"' ∨ '|' ∉ column

variable {column text rest acc : List Char} {state : Quoting}

theorem splitFrom_whole (h : wholeFrom state column = true) :
    splitFrom state acc column = some [acc.reverse ++ column] ∧
      splitFrom state acc (column ++ '|' :: rest) =
        (splitFrom .outside [] rest).map ((acc.reverse ++ column) :: ·) := by
  induction column generalizing state acc with
  | nil =>
      obtain rfl : state = .outside := of_decide_eq_true h
      rw [List.append_nil, List.nil_append, splitFrom, splitFrom]
      exact ⟨rfl, rfl⟩
  | cons c column ih =>
      rw [wholeFrom, Bool.and_eq_true, Bool.not_eq_true', Bool.and_eq_false_iff] at h
      have hnot : ¬(state = .outside ∧ c = '|') := by simpa [Classical.or_iff_not_imp_left] using h.1
      obtain ⟨hlast, hmore⟩ := @ih (c :: acc) _ h.2
      rw [List.reverse_cons, List.append_assoc, List.singleton_append] at hlast hmore
      rw [List.cons_append, splitFrom, splitFrom, if_neg hnot, if_neg hnot]
      exact ⟨hlast, hmore⟩

theorem split_join {columns : List (List Char)} (hne : columns ≠ [])
    (hwhole : ∀ column ∈ columns, Whole column) : split (join columns) = some columns := by
  induction columns with
  | nil => exact absurd rfl hne
  | cons column columns ih =>
      obtain ⟨hcolumn, hrest⟩ := List.forall_mem_cons.mp hwhole
      cases columns with
      | nil =>
          rw [join, List.intercalate_singleton, split, (@splitFrom_whole column [] [] .outside hcolumn).1]
          rfl
      | cons next columns =>
          have htail := ih (List.cons_ne_nil _ _) hrest
          rw [split, join] at htail
          rw [join, List.intercalate_cons_cons, List.append_assoc, List.singleton_append, split,
            (splitFrom_whole hcolumn).2, htail]
          rfl

/-- A text without a separator stays in the current column. -/
theorem splitFrom_append (h : '|' ∉ text) :
    splitFrom state acc (text ++ rest) =
      splitFrom (text.foldl Quoting.next state) (text.reverse ++ acc) rest := by
  induction text generalizing state acc with
  | nil => rfl
  | cons c text ih =>
      obtain ⟨hc, htext⟩ := not_or.mp (mt List.mem_cons.mpr h)
      rw [List.cons_append, splitFrom, if_neg fun hsep => hc hsep.2.symm, ih htext,
        List.foldl_cons, List.reverse_cons, List.append_assoc]
      rfl

theorem whole_iff_of_plain (h : '|' ∉ column) : Whole column ↔ quotingAfter column = .outside := by
  have hfrom : ∀ (column : List Char) (state : Quoting), '|' ∉ column →
      (wholeFrom state column = true ↔ column.foldl Quoting.next state = .outside) := by
    intro column
    induction column with
    | nil => exact fun state _ => by simp [wholeFrom]
    | cons c column ih =>
        intro state h
        obtain ⟨hc, hcolumn⟩ := not_or.mp (mt List.mem_cons.mpr h)
        rw [wholeFrom, List.foldl_cons, ← ih _ hcolumn]
        simp [Ne.symm hc]
  exact hfrom column .outside h

/-- What was read of the current column stands in front of it. -/
theorem head_of_splitFrom {columns : List (List Char)}
    (h : splitFrom state acc text = some columns) :
    ∃ tail rest, columns = (acc.reverse ++ tail) :: rest := by
  induction text generalizing state acc columns with
  | nil =>
      rw [splitFrom] at h
      split at h
      · cases h
        exact ⟨[], [], by rw [List.append_nil]⟩
      · cases h
  | cons c text ih =>
      rw [splitFrom] at h
      split at h
      · obtain ⟨columns', -, rfl⟩ := Option.map_eq_some_iff.mp h
        exact ⟨[], columns', by rw [List.append_nil]⟩
      · obtain ⟨tail, rest, rfl⟩ := ih h
        exact ⟨c :: tail, rest, by rw [List.reverse_cons, List.append_assoc]; rfl⟩

/-- A column that ends inside quotes takes the separator after it along. -/
theorem head_of_open {columns : List (List Char)} (hplain : '|' ∉ column)
    (hopen : ¬Whole column) (h : splitFrom .outside [] (column ++ '|' :: rest) = some columns) :
    ∃ tail rest, columns = (column ++ '|' :: tail) :: rest := by
  rw [whole_iff_of_plain hplain, quotingAfter] at hopen
  rw [splitFrom_append hplain, List.append_nil, splitFrom, if_neg fun hsep => hopen hsep.1] at h
  obtain ⟨tail, rest, rfl⟩ := head_of_splitFrom h
  refine ⟨tail, rest, ?_⟩
  rw [List.reverse_cons, List.reverse_reverse, List.append_assoc]
  rfl

theorem split_open (hplain : '|' ∉ column) (hopen : ¬Whole column) : split column = none := by
  have hsplit := @splitFrom_append column [] [] .outside hplain
  rw [whole_iff_of_plain hplain, quotingAfter] at hopen
  rw [List.append_nil, List.append_nil, splitFrom, if_neg hopen] at hsplit
  exact hsplit

theorem split_join_cons {columns : List (List Char)} {next : List Char} (hwhole : Whole column) :
    split (join (column :: next :: columns)) =
      (split (join (next :: columns))).map (column :: ·) := by
  rw [join, List.intercalate_cons_cons, List.append_assoc, List.singleton_append, split,
    (splitFrom_whole hwhole).2]
  rfl

/-- If only clean columns are read, all columns were whole. -/
theorem whole_of_split {columns result : List (List Char)}
    (hcolumns : ∀ column ∈ columns, Whole column ∨ Bare column)
    (h : split (join columns) = some result) (hclean : ∀ column ∈ result, Clean column) :
    ∀ column ∈ columns, Whole column := by
  induction columns generalizing result with
  | nil => nofun
  | cons column columns ih =>
      obtain ⟨hcolumn, hrest⟩ := List.forall_mem_cons.mp hcolumns
      by_cases hwhole : Whole column
      · refine List.forall_mem_cons.mpr ⟨hwhole, ?_⟩
        cases columns with
        | nil => nofun
        | cons next columns =>
            rw [split_join_cons hwhole] at h
            obtain ⟨result', hresult', rfl⟩ := Option.map_eq_some_iff.mp h
            exact ih hrest hresult' fun c hc => hclean c (List.mem_cons_of_mem _ hc)
      · have hbare := hcolumn.resolve_left hwhole
        cases columns with
        | nil =>
            rw [join, List.intercalate_singleton, split_open hbare.plain hwhole] at h
            cases h
        | cons next columns =>
            rw [join, List.intercalate_cons_cons, List.append_assoc, List.singleton_append] at h
            obtain ⟨tail, rest, rfl⟩ := head_of_open hbare.plain hwhole h
            obtain hquote | hplain := hclean _ List.mem_cons_self
            · rw [List.head?_append_of_ne_nil _ hbare.nonempty] at hquote
              exact absurd hquote hbare.head
            · exact absurd (List.mem_append_right _ List.mem_cons_self) hplain

theorem whole_literal (text : List Char) : Whole (JsonText.literal text) := by
  have hinside : ∀ (c : Char) (rest : List Char),
      wholeFrom .inside (JsonText.escapeChar c ++ rest) = wholeFrom .inside rest := by
    intro c rest
    have hplain : ∀ (d : Char) (rest : List Char), JsonText.Plain d →
        wholeFrom .inside (d :: rest) = wholeFrom .inside rest := by
      intro d rest hd
      rw [wholeFrom, Quoting.next, if_neg hd.2.1, if_neg hd.1]
      rfl
    obtain ⟨e, -, heq⟩ | ⟨d₁, d₂, h₁, h₂, heq⟩ | ⟨hc, heq⟩ := JsonText.escapeChar_cases c
    · rw [heq]
      rfl
    · rw [heq]
      change wholeFrom .inside ('0' :: '0' :: d₁ :: d₂ :: rest) = _
      rw [hplain _ _ (by decide), hplain _ _ (by decide), hplain _ _ h₁, hplain _ _ h₂]
    · rw [heq]
      exact hplain c rest hc
  have htext : ∀ text : List Char,
      wholeFrom .inside (text.flatMap JsonText.escapeChar ++ ['"']) = true := by
    intro text
    induction text with
    | nil => rfl
    | cons c text ih => rw [List.flatMap_cons, List.append_assoc, hinside, ih]
  exact htext text

end CleanCtx.Columns
