import CleanCtx.Library.Separators
import Mathlib.Data.List.Infix

/-!
The parameters of a declaration (`split_parameters` of `compaction/signature.rs`). One
depth counts three of the four kinds of brackets, arrow heads with them, and every quote
starts a literal. Parameters that are joined come back exactly if their commas follow a
stretch with more opening than closing brackets, and all but the last end without one
and outside literals.
-/
namespace CleanCtx
namespace Compaction

def isQuote (c : Char) : Bool := c = '"' || c = '\''

def opens (c : Char) : Bool := c = '<' || c = '(' || c = '['

def closes (c : Char) : Bool := c = '>' || c = ')' || c = ']'

/-- How far a literal goes on after its opening quote. -/
def skipQuotedLiteral (quote : Char) : List Char → Nat
  | [] => 0
  | '\\' :: [] => 1
  | '\\' :: _ :: rest => skipQuotedLiteral quote rest + 2
  | c :: rest => if c = quote then 1 else skipQuotedLiteral quote rest + 1

def pushPiece (piece : List Char) (out : List (List Char)) : List (List Char) :=
  if (trim piece.reverse).isEmpty then out else trim piece.reverse :: out

/-- The loop, with what is left to skip and the characters since `start` in reverse. The
subtraction stops at zero, as the clamp does. -/
def splitParametersFrom (depth skip : Nat) (piece : List Char) : List Char → List (List Char)
  | [] => pushPiece piece []
  | c :: rest =>
      match skip with
      | skip + 1 => splitParametersFrom depth skip (c :: piece) rest
      | 0 =>
          if isQuote c then
            splitParametersFrom depth (skipQuotedLiteral c rest) (c :: piece) rest
          else if opens c then splitParametersFrom (depth + 1) 0 (c :: piece) rest
          else if closes c then splitParametersFrom (depth - 1) 0 (c :: piece) rest
          else if c = ',' ∧ depth = 0 then pushPiece piece (splitParametersFrom depth 0 [] rest)
          else splitParametersFrom depth 0 (c :: piece) rest

def splitParameters (params : List Char) : List (List Char) := splitParametersFrom 0 0 [] params

/-- What the next character belongs to. -/
inductive Reading
  | code
  | literal (quote : Char)
  | escape (quote : Char)
  deriving DecidableEq, Repr

def Reading.next : Reading → Char → Reading
  | code, c => if isQuote c then literal c else code
  | literal quote, c =>
      if c = '\\' then escape quote else if c = quote then code else literal quote
  | escape quote, _ => literal quote

def readingAfter (text : List Char) : Reading := text.foldl Reading.next .code

def bareFrom : Reading → List Char → List Char
  | _, [] => []
  | .code, c :: rest =>
      if isQuote c then bareFrom (.literal c) rest else c :: bareFrom .code rest
  | .literal quote, c :: rest => bareFrom (Reading.next (.literal quote) c) rest
  | .escape quote, _ :: rest => bareFrom (.literal quote) rest

def bare (text : List Char) : List Char := bareFrom .code text

/-- A stretch at the end has more opening than closing brackets. -/
def Nested (text : List Char) : Prop :=
  ∃ stretch, stretch <:+ text ∧ stretch.countP closes < stretch.countP opens

def level (depth : Nat) (c : Char) : Nat :=
  if opens c then depth + 1 else if closes c then depth - 1 else depth

def separation : Separation (Reading × Nat) Char where
  start := (.code, 0)
  next state c := (state.1.next c, if state.1 = .code then level state.2 c else state.2)
  cuts state c := state = (.code, 0) && c = ','
  separator := ','
  eq_of_cuts h := of_decide_eq_true (Bool.and_eq_true_iff.mp h).2

def joinParameters (gap : List Char) (params : List (List Char)) : List Char :=
  [','].intercalate (spaced gap params)

/-- The commas outside literals follow nested stretches. -/
def Shielded (param : List Char) : Prop :=
  ∀ before after, bare param = before ++ ',' :: after → Nested before

/-- A text that is kept in one piece. -/
structure Whole (param : List Char) : Prop where
  nonempty : param ≠ []
  trimmed : trim param = param
  shielded : Shielded param

/-- A text after which a comma separates. -/
structure Settled (param : List Char) : Prop where
  closed : readingAfter param = .code
  level : ¬Nested (bare param)

variable {text rest piece gap : List Char} {depth : Nat} {state : Reading}

theorem tidy_cons (piece : List Char) (out : List (List Char)) :
    tidy (piece.reverse :: out) = pushPiece piece (tidy out) := by
  rw [tidy, List.map_cons, List.filter_cons, pushPiece, tidy]
  cases (trim piece.reverse).isEmpty <;> rfl

theorem cuts_code_iff {c : Char} :
    separation.cuts (.code, depth) c = true ↔ c = ',' ∧ depth = 0 := by
  simp [separation, and_comm]

theorem cuts_of_ne (h : state ≠ .code) (depth : Nat) (c : Char) :
    separation.cuts (state, depth) c = false := by
  simp [separation, h]

theorem cuts_literal (quote : Char) (depth : Nat) (c : Char) :
    separation.cuts (.literal quote, depth) c = false :=
  cuts_of_ne (by rintro ⟨⟩) depth c

theorem cuts_escape (quote : Char) (depth : Nat) (c : Char) :
    separation.cuts (.escape quote, depth) c = false :=
  cuts_of_ne (by rintro ⟨⟩) depth c

theorem cuts_of_ne_comma {c : Char} (h : c ≠ ',') (state : Reading × Nat) :
    separation.cuts state c = false := by
  simp [separation, h]

theorem comma_plain : isQuote ',' = false ∧ opens ',' = false ∧ closes ',' = false := by
  decide

theorem not_opens_of_isQuote {c : Char} (h : isQuote c = true) :
    opens c = false ∧ closes c = false := by
  simp only [isQuote, Bool.or_eq_true, decide_eq_true_eq] at h
  obtain rfl | rfl := h <;> decide

theorem level_of_isQuote {c : Char} (h : isQuote c = true) (depth : Nat) :
    level depth c = depth := by
  simp [level, not_opens_of_isQuote h]

theorem cuts_of_isQuote {c : Char} (h : isQuote c = true) (depth : Nat) :
    separation.cuts (.code, depth) c = false := by
  refine cuts_of_ne_comma ?_ _
  rintro rfl
  rw [comma_plain.1] at h
  cases h

theorem next_of_isQuote {c : Char} (h : isQuote c = true) (depth : Nat) :
    separation.next (.code, depth) c = (.literal c, depth) := by
  simp [separation, Reading.next, h, level_of_isQuote h]

theorem next_of_not_isQuote {c : Char} (h : ¬isQuote c = true) (depth : Nat) :
    separation.next (.code, depth) c = (.code, level depth c) := by
  simp [separation, Reading.next, h]

/-- What the loop skips is what is read inside a literal. -/
theorem splitParametersFrom_eq (rest : List Char) : ∀ (depth : Nat) (piece : List Char),
    splitParametersFrom depth 0 piece rest = tidy (separation.pieces (.code, depth) piece rest) ∧
    (∀ quote, splitParametersFrom depth (skipQuotedLiteral quote rest) piece rest =
      tidy (separation.pieces (.literal quote, depth) piece rest)) ∧
    ∀ quote, splitParametersFrom depth (skipQuotedLiteral quote rest.tail + 1) piece rest =
      tidy (separation.pieces (.escape quote, depth) piece rest) := by
  induction rest with
  | nil =>
      intro depth piece
      exact ⟨(tidy_cons piece []).symm, fun _ => (tidy_cons piece []).symm,
        fun _ => (tidy_cons piece []).symm⟩
  | cons c rest ih =>
      intro depth piece
      refine ⟨?_, fun quote => ?_, fun quote => ?_⟩
      · rw [splitParametersFrom, Separation.pieces]
        by_cases hquote : isQuote c = true
        · rw [if_pos hquote, cuts_of_isQuote hquote, if_neg Bool.false_ne_true,
            next_of_isQuote hquote]
          exact (ih depth (c :: piece)).2.1 c
        · rw [if_neg hquote, next_of_not_isQuote hquote]
          by_cases hcut : separation.cuts (.code, depth) c = true
          · obtain ⟨rfl, rfl⟩ := cuts_code_iff.mp hcut
            rw [if_pos hcut, comma_plain.2.1, comma_plain.2.2, if_neg Bool.false_ne_true,
              if_neg Bool.false_ne_true, if_pos ⟨rfl, rfl⟩, tidy_cons, (ih 0 []).1]
            rfl
          · rw [if_neg hcut, ← (ih (level depth c) (c :: piece)).1, level]
            by_cases hopens : opens c = true
            · rw [if_pos hopens, if_pos hopens]
            · rw [if_neg hopens, if_neg hopens]
              by_cases hcloses : closes c = true
              · rw [if_pos hcloses, if_pos hcloses]
              · rw [if_neg hcloses, if_neg hcloses, if_neg (mt cuts_code_iff.mpr hcut)]
      · rw [Separation.pieces, cuts_literal, if_neg Bool.false_ne_true]
        by_cases hslash : c = '\\'
        · obtain rfl := hslash
          have hnext : separation.next (.literal quote, depth) '\\' = (.escape quote, depth) := rfl
          have hskip : splitParametersFrom depth (skipQuotedLiteral quote ('\\' :: rest)) piece
              ('\\' :: rest) =
              splitParametersFrom depth (skipQuotedLiteral quote rest.tail + 1) ('\\' :: piece)
                rest := by
            cases rest <;> rfl
          rw [hskip, hnext]
          exact (ih depth ('\\' :: piece)).2.2 quote
        · have hskip : skipQuotedLiteral quote (c :: rest) =
              if c = quote then 1 else skipQuotedLiteral quote rest + 1 := by
            rw [skipQuotedLiteral]
            · exact fun h _ => hslash h
            · exact fun _ _ h _ => hslash h
          rw [hskip]
          by_cases hend : c = quote
          · have hnext : separation.next (.literal quote, depth) c = (.code, depth) := by
              simp [separation, Reading.next, ← hend, hslash]
            rw [if_pos hend, hnext]
            exact (ih depth (c :: piece)).1
          · have hnext : separation.next (.literal quote, depth) c = (.literal quote, depth) := by
              simp [separation, Reading.next, hslash, hend]
            rw [if_neg hend, hnext]
            exact (ih depth (c :: piece)).2.1 quote
      · rw [Separation.pieces, cuts_escape, if_neg Bool.false_ne_true]
        exact (ih depth (c :: piece)).2.1 quote

theorem splitParameters_eq (params : List Char) :
    splitParameters params = tidy (separation.split params) :=
  (splitParametersFrom_eq params 0 []).1

/-- The depth the loop counts is the most that some stretch at the end leaves open. -/
theorem lt_foldl_level_iff (text : List Char) : ∀ n, n < text.foldl level 0 ↔
    ∃ stretch, stretch <:+ text ∧ stretch.countP closes + n < stretch.countP opens := by
  induction text using List.reverseRecOn with
  | nil => exact fun n => iff_of_false (Nat.not_lt_zero n) (by simp)
  | append_singleton text c ih =>
      intro n
      have hlast : (∃ stretch, stretch <:+ text ++ [c] ∧
            stretch.countP closes + n < stretch.countP opens) ↔
          ∃ stretch, stretch <:+ text ∧ stretch.countP closes + [c].countP closes + n <
            stretch.countP opens + [c].countP opens := by
        constructor
        · rintro ⟨stretch, hsuffix, hlt⟩
          obtain rfl | ⟨front, rfl, hfront⟩ := List.suffix_concat_iff.mp hsuffix
          · exact absurd hlt (Nat.not_lt_zero _)
          · rw [List.countP_append, List.countP_append] at hlt
            exact ⟨front, hfront, hlt⟩
        · rintro ⟨front, hfront, hlt⟩
          refine ⟨front ++ [c], List.suffix_concat_iff.mpr (.inr ⟨front, rfl, hfront⟩), ?_⟩
          rw [List.countP_append, List.countP_append]
          exact hlt
      rw [List.foldl_append, List.foldl_cons, List.foldl_nil, hlast, level]
      by_cases hopens : opens c = true
      · have hcloses : closes c = false := by
          simp only [opens, Bool.or_eq_true, decide_eq_true_eq, or_assoc] at hopens
          obtain rfl | rfl | rfl := hopens <;> rfl
        simp only [hopens, hcloses, List.countP_singleton, if_true, Bool.false_eq_true, if_false]
        cases n with
        | zero => exact iff_of_true (Nat.succ_pos _) ⟨[], List.nil_suffix, by simp⟩
        | succ n =>
            rw [Nat.add_lt_add_iff_right, ih n]
            exact exists_congr fun stretch => and_congr_right' (by omega)
      · by_cases hcloses : closes c = true
        · simp only [hopens, hcloses, List.countP_singleton, if_true, Bool.false_eq_true, if_false]
          rw [Nat.lt_sub_iff_add_lt, ih (n + 1)]
          exact exists_congr fun stretch => and_congr_right' (by omega)
        · simp only [hopens, hcloses, List.countP_singleton, Bool.false_eq_true, if_false]
          exact ih n

theorem foldl_level_pos_iff (text : List Char) : 0 < text.foldl level 0 ↔ Nested text :=
  lt_foldl_level_iff text 0

theorem after_eq (text : List Char) : ∀ (state : Reading) (depth : Nat),
    separation.after (state, depth) text =
      (text.foldl Reading.next state, (bareFrom state text).foldl level depth) := by
  induction text with
  | nil => exact fun state depth => by cases state <;> rfl
  | cons c text ih =>
      intro state depth
      rw [Separation.after, List.foldl_cons, List.foldl_cons]
      refine (ih _ _).trans ?_
      cases state with
      | code =>
          rw [bareFrom]
          by_cases hquote : isQuote c = true
          · rw [if_pos hquote, if_pos rfl, level_of_isQuote hquote, Reading.next, if_pos hquote]
          · rw [if_neg hquote, if_pos rfl, Reading.next, if_neg hquote, List.foldl_cons]
      | literal quote => rfl
      | escape quote => rfl

/-- The scan meets no cut if each comma it sees is at some depth. -/
theorem uncut_iff (text : List Char) : ∀ (state : Reading) (depth : Nat),
    separation.uncut (state, depth) text = true ↔ ∀ before after,
      bareFrom state text = before ++ ',' :: after → 0 < before.foldl level depth := by
  induction text with
  | nil =>
      intro state depth
      have hnil : bareFrom state [] = [] := by cases state <;> rfl
      exact iff_of_true rfl fun before after h => by simp [hnil] at h
  | cons c text ih =>
      intro state depth
      rw [Separation.uncut, Bool.and_eq_true, Bool.not_eq_true']
      cases state with
      | code =>
          by_cases hquote : isQuote c = true
          · rw [cuts_of_isQuote hquote, next_of_isQuote hquote, bareFrom, if_pos hquote]
            exact (and_iff_right rfl).trans (ih _ _)
          · rw [next_of_not_isQuote hquote, bareFrom, if_neg hquote, ih, ← Bool.not_eq_true,
              cuts_code_iff]
            constructor
            · rintro ⟨hcut, hrest⟩ before after h
              obtain ⟨rfl, h⟩ | ⟨front, rfl, h⟩ := List.cons_eq_append_iff.mp h
              · exact Nat.pos_of_ne_zero fun hzero => hcut ⟨(List.cons.inj h).1, hzero⟩
              · exact hrest front after (List.cons.inj h).2
            · refine fun h => ⟨?_, fun before after heq => ?_⟩
              · rintro ⟨rfl, rfl⟩
                exact Nat.lt_irrefl 0 (h [] _ rfl)
              · exact h (c :: before) after (by rw [heq, List.cons_append])
      | literal quote =>
          rw [cuts_literal]
          exact (and_iff_right rfl).trans (ih _ _)
      | escape quote =>
          rw [cuts_escape]
          exact (and_iff_right rfl).trans (ih _ _)

theorem blank_passes (hgap : Blank gap) :
    separation.Passes separation.start gap separation.start := by
  induction gap with
  | nil => exact ⟨rfl, rfl⟩
  | cons c gap ih =>
      obtain ⟨hc, hrest⟩ := List.forall_mem_cons.mp hgap
      have hne : ∀ d, isWhiteSpace d = false → c ≠ d := by
        rintro d hd rfl
        rw [hc] at hd
        cases hd
      have hquote : ¬isQuote c = true := by
        simp [isQuote, hne '"' (by decide), hne '\'' (by decide)]
      have hlevel : level 0 c = 0 := by
        simp [level, opens, closes, hne '<' (by decide), hne '(' (by decide), hne '[' (by decide)]
      have hnext := next_of_not_isQuote hquote 0
      rw [hlevel] at hnext
      exact .cons (cuts_of_ne_comma (hne ',' (by decide)) _) (hnext ▸ ih hrest)

theorem uncut_gap (hgap : Blank gap) (text : List Char) :
    separation.uncut separation.start (gap ++ text) = separation.uncut separation.start text := by
  rw [Separation.uncut_append, (blank_passes hgap).1, (blank_passes hgap).2, Bool.true_and]

theorem after_gap (hgap : Blank gap) (text : List Char) :
    separation.after separation.start (gap ++ text) = separation.after separation.start text := by
  rw [Separation.after_append, (blank_passes hgap).1]

theorem shielded_iff {param : List Char} : separation.uncut separation.start param = true ↔
    Shielded param := by
  refine (uncut_iff param .code 0).trans ?_
  exact forall₂_congr fun before _ => imp_congr_right fun _ => foldl_level_pos_iff before

theorem settled_iff {param : List Char} :
    separation.cuts (separation.after separation.start param) ',' = true ↔ Settled param := by
  have hafter := after_eq param .code 0
  have hlevel : (bare param).foldl level 0 = 0 ↔ ¬Nested (bare param) := by
    rw [← foldl_level_pos_iff, Nat.pos_iff_ne_zero, not_not]
  refine (congrArg (separation.cuts · ',' = true) hafter).to_iff.trans ?_
  simp only [separation, decide_true, Bool.and_true, decide_eq_true_eq, Prod.mk.injEq]
  exact ⟨fun h => ⟨h.1, hlevel.mp h.2⟩, fun h => ⟨h.closed, hlevel.mpr h.level⟩⟩

/-- The loop cuts at the commas of the join and at no other. -/
theorem split_join_iff (hgap : Blank gap) {params : List (List Char)} (hne : params ≠ []) :
    separation.split (joinParameters gap params) = spaced gap params ↔
      (∀ param ∈ params, separation.uncut separation.start param = true) ∧
        ∀ param ∈ params.dropLast, Settled param := by
  have hsettled : ∀ t, separation.cuts (separation.after separation.start (gap ++ t)) ',' = true ↔
      Settled t := fun t => by rw [after_gap hgap, settled_iff]
  have huncut : ∀ t, separation.uncut separation.start (gap ++ t) = true ↔
      separation.uncut separation.start t = true := fun t => by rw [uncut_gap hgap]
  cases params with
  | nil => exact absurd rfl hne
  | cons param params =>
      refine (separation.split_join_iff param (params.map (gap ++ ·))).trans ?_
      refine and_congr (@forall_spaced_iff gap (param :: params) _ huncut) ?_
      rw [show param :: params.map (gap ++ ·) = spaced gap (param :: params) from rfl,
        dropLast_spaced]
      refine (forall_spaced_iff fun t => ?_).trans (forall₂_congr fun t _ => settled_iff)
      exact (hsettled t).trans settled_iff.symm

/-- Joined parameters come back exactly if each is kept in one piece and each but the last
leaves the loop where a comma separates. -/
theorem splitParameters_join_iff (hgap : Blank gap) (params : List (List Char)) :
    splitParameters (joinParameters gap params) = params ↔
      (∀ param ∈ params, Whole param) ∧ ∀ param ∈ params.dropLast, Settled param := by
  have hcomma : isWhiteSpace ',' = false := by decide
  by_cases hne : params = []
  · obtain rfl := hne
    exact iff_of_true rfl ⟨nofun, nofun⟩
  rw [splitParameters_eq]
  constructor
  · intro h
    have hsplit := eq_spaced_of_tidy hcomma hgap (separation.pieces_ne_nil _ _ _) hne h
      (separation.join_pieces separation.start [] _)
    obtain ⟨huncut, hsettled⟩ := (split_join_iff hgap hne).mp hsplit
    refine ⟨fun param hparam => ?_, hsettled⟩
    obtain ⟨hnonempty, htrimmed⟩ := mem_tidy (h ▸ hparam)
    exact ⟨hnonempty, htrimmed, shielded_iff.mp (huncut param hparam)⟩
  · rintro ⟨hwhole, hsettled⟩
    have huncut : ∀ param ∈ params, separation.uncut separation.start param = true :=
      fun param hparam => shielded_iff.mpr (hwhole param hparam).shielded
    rw [(split_join_iff hgap hne).mpr ⟨huncut, hsettled⟩]
    exact tidy_spaced hgap fun param hparam =>
      ⟨(hwhole param hparam).nonempty, (hwhole param hparam).trimmed⟩

end Compaction
end CleanCtx
